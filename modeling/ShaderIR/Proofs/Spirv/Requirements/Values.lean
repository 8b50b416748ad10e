import ShaderIR.Proofs.Spirv.Requirements.Types

/-!
# Values follow their checks

The lowerings of arithmetic, literals, composites, and reads and writes of memory, each against its
check.
-/

namespace ShaderIR.Spirv

open Discipline Spirv.Module

variable {asm : Assembler} {α β γ δ : Type} {s : Lowering} {inst : Instruction}

/-! ## Arithmetic -/

theorem followsT_idFor (id : ResultId) :
    FollowsT asm (liftM (idFor id)) s (Check.meet id) fun n constant s' =>
      s'.module.Stands n constant :=
  FollowsT.lift (follows_idFor id)

theorem followsT_emitAnd (source : Instruction) {i : Inst} (hfits : i.fits = true) :
    FollowsT asm (liftM (emitAnd source i)) s Check.write :=
  FollowsT.lift (follows_emitAnd source hfits)

theorem FollowsT.typed (hforms : HasForms asm.types) {id : ResultId} {f : ModuleId → Attempt γ}
    {c : Unit → Check δ} {R : γ → δ → Lowering → Prop}
    (hf : ∀ n s', FollowsT asm (f n) s' (c ()) R) :
    FollowsT asm (requireType asm inst id >>= f) s (Check.typed asm id >>= c) R :=
  (followsT_requireType hforms inst id).bind fun n _ s' _ _ => hf n s'

theorem FollowsT.reported {p : Prop} [Decidable p] {message : String} {c : Unit → Check β}
    (hp : ¬ p) :
    FollowsT asm (liftM (problem inst message)) s (guard p >>= c) :=
  FollowsT.missing hp (not_clean_problem inst message s)

theorem followsT_define (source : Instruction) (id : ResultId) {i : ModuleId → Inst}
    (hfits : ∀ n, (i n).fits = true) : FollowsT asm (do
      let n ← idFor id
      emitAnd source (i n) : Attempt Unit) s (Check.define id) :=
  (followsT_idFor id).bind fun n _ _ _ _ => followsT_emitAnd source (hfits n)

theorem sharing_comparisonType (operandType : ResultId) :
    sharing.Keeps (comparisonType asm operandType) := by
  intro m
  refine Build.sharing_boolType.bind fun bool m1 _ hbool => ?_
  split
  · exact (Build.sharing_vectorType _ fun hwhole => (hbool hwhole).1).weaken
  · exact Runs.pure trivial

theorem followsT_comparison (op : Operator) (operandType : ResultId) :
    FollowsT asm (comparison asm inst op operandType) s
      (Check.comparison asm inst op operandType) := by
  unfold comparison Check.comparison
  cases hop : (scalarOf? asm operandType).bind (comparisonOp? op) with
  | none => exact .reported nofun
  | some code =>
    refine .given rfl (.note (sharing_comparisonType operandType) fun type s1 _ => ?_)
    refine (followsT_value inst _).bind fun lhs _ s2 _ _ => ?_
    refine (followsT_value inst _).bind fun rhs _ s3 _ _ => ?_
    exact followsT_define inst inst.id fun _ => rfl

theorem followsT_operatorOf :
    FollowsT asm (operatorOf inst) s (Check.operator inst) fun op op' _ => op' = op := by
  unfold operatorOf Check.operator
  extract_lets code
  change FollowsT asm _ s (Check.found (Operator.ofCode? code.toNat)) _
  cases Operator.ofCode? code.toNat with
  | none => exact followsT_giveUp inst _
  | some op => exact .pure fun _ => rfl

theorem not_isFloat {x : Option Scalar} (h : ∀ w, x = some (.float w) → False) :
    ¬ Check.isFloat x = true := by
  rintro hx
  unfold Check.isFloat at hx
  split at hx
  next w => exact h w rfl
  next => cases hx

theorem followsT_compare : FollowsT asm (compare asm inst) s (Check.compare asm inst) :=
  followsT_operatorOf.bindSame fun op _ _ => followsT_comparison op _

section

variable (hforms : HasForms asm.types)
include hforms

theorem followsT_binary : FollowsT asm (binary asm inst) s (Check.binary asm inst) := by
  refine followsT_operatorOf.bindSame fun op s1 _ => ?_
  split
  · exact followsT_comparison op _
  · refine .typed hforms fun type s2 => ?_
    extract_lets scalar
    refine (followsT_value inst _).bind fun lhs _ s3 _ _ => ?_
    refine (followsT_value inst _).bind fun rhs _ s4 _ _ => ?_
    refine (followsT_idFor inst.id).bind fun result _ s5 _ _ => ?_
    change FollowsT asm _ s5 (guard (Check.hasBinary op scalar = true) >>= fun _ => Check.write) _
    clear_value scalar
    unfold Check.hasBinary
    split
    · split
      next =>
        refine .given rfl (.note Build.sharing_extInstSet fun set s6 _ => ?_)
        exact followsT_emitAnd inst rfl
      next hscalar =>
        exact .reported (not_isFloat hscalar)
    · cases scalar.bind (binaryOp? op) with
      | some code => exact .given rfl (followsT_emitAnd inst rfl)
      | none => exact .reported nofun

theorem followsT_unary : FollowsT asm (unary asm inst) s (Check.unary asm inst) := by
  refine followsT_operatorOf.bindSame fun op s1 _ => ?_
  refine .typed hforms fun type s2 => ?_
  extract_lets scalar
  refine (followsT_value inst _).bind fun v _ s3 _ _ => ?_
  refine (followsT_idFor inst.id).bind fun result _ s4 _ _ => ?_
  cases scalar.bind (unaryExtOp? op) with
  | some code =>
    refine .given rfl (.note Build.sharing_extInstSet fun set s5 _ => ?_)
    exact followsT_emitAnd inst rfl
  | none =>
    cases scalar.bind (unaryOp? op) with
    | some code => exact .given rfl (followsT_emitAnd inst rfl)
    | none => exact .reported nofun

theorem followsT_convertBy (choose : Scalar → Option Op) :
    FollowsT asm (convertBy asm inst choose) s (Check.convert asm inst choose) := by
  refine .typed hforms fun type s1 => ?_
  extract_lets source
  change FollowsT asm _ s1 (guard (((scalarOf? asm source).bind choose).isSome = true) >>= _) _
  cases (scalarOf? asm source).bind choose with
  | none => exact .reported nofun
  | some code =>
    refine .given rfl ?_
    refine (followsT_value inst _).bind fun v _ s2 _ _ => ?_
    exact followsT_define inst inst.id fun _ => rfl

theorem followsT_changeSign : FollowsT asm (changeSign asm inst) s (Check.changeSign asm inst) := by
  unfold changeSign Check.changeSign
  split
  next h => exact .given h (followsT_convertBy hforms _)
  next h => exact .reported h

/-! ## Literals -/

omit hforms in
theorem followsT_aliasConstant {c : Build ModuleId}
    (h : sharing.Runs c s.module fun n m => m.Whole → m.Stands n true) :
    FollowsT asm (liftM (aliasConstant inst c)) s (Check.bindId inst.id true) :=
  FollowsT.lift (.share h fun _ _ _ hn => follows_bindId inst.id hn)

theorem followsT_boolLiteral :
    FollowsT asm (boolLiteral asm inst) s (Check.literal asm inst fun _ => true) := by
  refine .typed hforms fun type s1 => ?_
  exact .given rfl (followsT_aliasConstant (Build.sharing_constantIn fun _ => rfl))

omit hforms in
theorem length_intWords (width : UInt32) (signed : Bool) (n : UInt64) :
    (intWords width signed n).length ≤ 2 := by
  unfold intWords
  split
  · exact Nat.le_refl 2
  · split_ifs <;> exact Nat.le_succ 1

omit hforms in
theorem length_floatWords (width : UInt32) (double : UInt64) :
    (floatWords width double).length ≤ 2 := by
  unfold floatWords
  split
  · exact Nat.le_succ 1
  · split
    · exact Nat.le_refl 2
    · exact Nat.le_succ 1

theorem followsT_intLiteral :
    FollowsT asm (intLiteral asm inst) s (Check.literal asm inst Check.isInt) := by
  refine .typed hforms fun type s1 => ?_
  split
  next hscalar =>
    rw [hscalar]
    exact .given rfl (followsT_aliasConstant (Build.sharing_number (length_intWords ..)))
  next hscalar =>
    rw [hscalar]
    exact .given rfl (followsT_aliasConstant (Build.sharing_number (length_intWords ..)))
  next hsint huint =>
    refine .reported (fun h => ?_)
    unfold Check.isInt at h
    split at h
    next w hw => exact hsint w hw
    next w hw => exact huint w hw
    next => cases h

theorem followsT_floatLiteral :
    FollowsT asm (floatLiteral asm inst) s (Check.literal asm inst Check.isFloat) := by
  refine .typed hforms fun type s1 => ?_
  split
  next hscalar =>
    rw [hscalar]
    exact .given rfl (followsT_aliasConstant (Build.sharing_number (length_floatWords ..)))
  next hscalar =>
    exact .reported (not_isFloat hscalar)

theorem followsT_nullValue :
    FollowsT asm (nullValue asm inst) s (Check.literal asm inst fun _ => true) := by
  refine .typed hforms fun type s1 => ?_
  exact .given rfl (followsT_aliasConstant (Build.sharing_null type))

omit hforms in
theorem length_oneAndZero? {x : Scalar} {one nought : List UInt32}
    (h : oneAndZero? x = some (one, nought)) : one.length ≤ 2 ∧ nought.length ≤ 2 := by
  cases x with
  | bool => cases h
  | float w =>
    cases h
    exact ⟨length_floatWords .., length_floatWords ..⟩
  | sint w | uint w =>
    cases h
    exact ⟨length_intWords .., length_intWords ..⟩

theorem followsT_cast : FollowsT asm (cast asm inst) s (Check.cast asm inst) := by
  unfold cast Check.cast
  split
  · refine .typed hforms fun type s1 => ?_
    cases hwords : (scalarOf? asm inst.resultType).bind oneAndZero? with
    | none => exact .reported nofun
    | some words =>
      obtain ⟨one, nought⟩ := words
      obtain ⟨x, -, hx⟩ := Option.bind_eq_some_iff.mp hwords
      obtain ⟨hone, hnought⟩ := length_oneAndZero? hx
      refine .given rfl (.share (Build.sharing_number hone) fun onTrue s2 _ _ => ?_)
      refine .share (Build.sharing_number hnought) fun onFalse s3 _ _ => ?_
      refine (followsT_value inst _).bind fun condition _ s4 _ _ => ?_
      exact followsT_define inst inst.id fun _ => rfl
  · exact followsT_convertBy hforms _

/-! ## Composites -/

omit hforms in
theorem fits_result (op : Op) (type n : ModuleId) (operands : List Operand) :
    Inst.fits { op, resultType := some type, result := some n, operands } = true ↔
      2 + (operands.flatMap Operand.words).length ≤ maxOperandWords := by
  show decide (([type, n].map (·.toUInt32) ++ operands.flatMap Operand.words).length ≤ _) = true ↔ _
  rw [List.length_append, decide_eq_true_iff]
  rfl

omit hforms in
theorem fits_ids (op : Op) (type n : ModuleId) (ids : List ModuleId) :
    Inst.fits { op, resultType := some type, result := some n, operands := ids.map .id } = true ↔
      2 + ids.length ≤ maxOperandWords := by
  rw [fits_result, Build.length_flatMap_id]

/-- What is known of values that were read one after the other. -/
structure Read (m : Module) (args : List α) (ns : List ModuleId) (constants : List Bool) :
    Prop where
  length : ns.length = args.length
  lt : ∀ n ∈ ns, n < m.nextId
  constant : constants = ns.map m.isConstant

omit hforms in
theorem followsT_values (args : List Instruction) :
    FollowsT asm (args.mapM fun arg => liftM (value asm arg arg.refs.fst)) s (Check.values asm args)
      fun ns constants s' => Read s'.module args ns constants := by
  unfold Check.values
  induction args generalizing s with
  | nil =>
    rw [List.mapM_nil, List.mapM_nil]
    exact .pure fun _ => ⟨rfl, nofun, rfl⟩
  | cons arg rest ih =>
    rw [List.mapM_cons, List.mapM_cons]
    refine (followsT_value arg _).bind fun n constant s1 _ hn => ?_
    refine ih.bind fun ns constants s2 h2 hns => .pure fun hclean => ?_
    obtain ⟨hlength, hlt, hconstant⟩ := hns hclean
    obtain ⟨hclean1, hgrows⟩ := h2 hclean
    have hstands := (hn hclean1).grow hgrows
    refine ⟨congrArg (· + 1) hlength, List.forall_mem_cons.mpr ⟨hstands.1, hlt⟩, ?_⟩
    rw [List.map_cons, hstands.2, hconstant]

omit hforms in
theorem followsT_trailers (i : Nat) (opcode : Opcode) {message : String} {k : Unit → Attempt γ}
    {c : List Instruction → Check δ} {R : γ → δ → Lowering → Prop} (hk : ∀ s', s.GrowsTo s' →
      FollowsT asm (k ()) s' (c (asm.trailersAfter i opcode inst.operands.fst.toNat)) R) :
    FollowsT asm (if ((asm.trailersAfter i opcode inst.operands.fst.toNat).length !=
        inst.operands.fst.toNat) = true then (do problem inst message; k ()) else k ()) s
      (Check.trailers asm i inst opcode >>= c) R := by
  rw [Check.trailers, bind_assoc]
  exact .unless bne_iff_ne fun s' hgrows _ => hk s' hgrows

omit hforms in
theorem followsT_emitIfFits (source : Instruction) {i : Inst} {count : Nat}
    (h : s.Clean → (i.fits = true ↔ count ≤ maxOperandWords)) :
    FollowsT asm (liftM (emitAnd source i)) s (do Check.fits count; Check.write) := by
  have hexact : Follows asm (emitAnd source i) s (do guard (i.fits = true); Check.write) :=
    (follows_emitIfFits source i Iff.rfl).finish fun _ _ _ _ _ => .pure fun _ => trivial
  refine .congr (.lift hexact) fun hclean => ?_
  exact congrArg (fun c : Check Unit => (c >>= fun _ => Check.write).run s.view)
    (ite_congr (propext (h hclean).symm) (fun _ => rfl) fun _ => rfl)

theorem followsT_construct (i : Nat) :
    FollowsT asm (construct asm i inst) s (Check.construct asm i inst) := by
  unfold construct Check.construct
  extract_lets count args k
  refine followsT_trailers i .constructArg fun s1 _ => ?_
  refine .typed hforms fun type s2 => ?_
  refine (followsT_idFor inst.id).bind fun result _ s3 _ _ => ?_
  refine (followsT_values args).bind fun values _ s4 _ hvalues => ?_
  refine followsT_emitIfFits inst fun hclean => ?_
  rw [← (hvalues hclean).length]
  exact fits_ids ..

theorem followsT_fillValue {inner : TypeHandle} {length : UInt32}
    (htype : asm.types.ofId? inst.resultType = some (.array inner length))
    (values : List ModuleId) :
    FollowsT asm (fillValue asm inst inner values) s (pure ()) fun n _ s' =>
      values = [n] ∨ s'.module.isConstant n = true := by
  unfold fillValue
  split
  · exact .pure fun _ => .inl rfl
  · obtain ⟨y, hy⟩ := Option.isSome_iff_exists.mp (hforms.complete _ _ htype inner List.mem_cons_self)
    have hpart : asm.types.IsPart y inst.resultType := .nested htype List.mem_cons_self hy
    have hlower : FollowsT asm (do lowerType asm (← orGiveUp (asm.types.idOf? inner))) s (pure ())
        fun n _ s' => s'.module.Represents asm y n := by
      rw [hy]
      exact .read (x := orGiveUp (some y)) rfl
        (followsT_lowerType hforms (hforms.grounded.isSome_of_isPart hpart))
    refine (hlower.orElse fun s' _ => not_clean_giveUp inst _ s').skip fun element s1 _ _ => ?_
    exact (followsT_onModule (Build.sharing_null element)).mono fun n _ s2 _ hclean hn =>
      .inr (hn hclean.whole).2

omit hforms in
theorem followsT_arrayOf {type : ModuleId} {vs : List ModuleId} {constants : List Bool}
    (hlength : vs.length ≤ maxCompositeLength)
    (hall : s.Clean → vs.all s.module.isConstant = constants.all id) : FollowsT asm (do
      let m := (← get).module
      if vs.all m.isConstant then
        aliasConstant inst (.constant type .constantComposite (vs.map .id))
      else
        let result ← idFor inst.id
        emitAnd inst
          { op := .compositeConstruct, resultType := some type, result := some result,
            operands := vs.map .id }) s
      (if constants.all id = true then Check.bindId inst.id true else Check.define inst.id) := by
  have hcount : 2 + vs.length ≤ maxOperandWords := by
    unfold maxCompositeLength at hlength
    unfold maxOperandWords
    omega
  refine .get_bind (.congr (d := if vs.all s.module.isConstant = true then
    Check.bindId inst.id true else Check.define inst.id) ?_ fun hclean => by rw [hall hclean])
  extract_lets m
  split
  · exact followsT_aliasConstant (Build.sharing_constantIn fun n => (fits_ids ..).mpr hcount)
  · exact followsT_define inst inst.id fun n => (fits_ids ..).mpr hcount

omit hforms in
theorem all_isConstant_fill {m : Module} {values : List ModuleId} {n : ModuleId} (count : Nat)
    (h : values = [n] ∨ m.isConstant n = true) :
    (values ++ List.replicate count n).all m.isConstant = values.all m.isConstant := by
  rw [List.all_append, List.all_replicate]
  rcases h with rfl | h
  · simp only [List.all_cons, List.all_nil]
    cases m.isConstant n <;> simp
  · rw [h]
    simp

theorem followsT_arrayLiteral (i : Nat) :
    FollowsT asm (arrayLiteral asm i inst) s (Check.arrayLiteral asm i inst) := by
  unfold arrayLiteral Check.arrayLiteral
  refine .typed hforms fun type s1 => ?_
  cases htype : asm.types.ofId? inst.resultType with
  | none => exact .congr (followsT_problem inst _) fun _ => rfl
  | some d =>
  cases d with
  | array inner length =>
    dsimp -zeta only
    extract_lets length elements write fill
    refine .unlessGiveUp (p := length ≤ maxCompositeLength) (by omega) fun hlength => ?_
    refine (followsT_values elements).bind fun values constants s2 _ hvalues => ?_
    extract_lets taken pad
    refine .congr (d := do
      guard (values.length ≤ length)
      if constants.all id = true then Check.bindId inst.id true else Check.define inst.id)
      (.unless (by omega) fun s3 h3 hle => ?_) fun hclean => ?_
    · -- Once nothing is cut off, filling up changes no answer.
      have htake : ∀ s', s3.GrowsTo s' → s'.Clean → taken.all s'.module.isConstant = constants.all id := by
        intro s' hgrows hclean
        obtain ⟨hclean3, hgrows3⟩ := hgrows hclean
        obtain ⟨hclean2, hgrows2⟩ := h3 hclean3
        obtain ⟨-, hlt, hconstant⟩ := hvalues hclean2
        have hsame : values.map s'.module.isConstant = constants := by
          rw [hconstant]
          exact List.map_congr_left fun n hn => (hgrows2.trans hgrows3).constant n (hlt n hn)
        unfold taken
        rw [List.take_of_length_le (hle hclean3), ← hsame, List.all_map]
        rfl
      unfold pad
      split
      · refine (followsT_fillValue hforms htype taken).skip fun n s4 h4 hn => ?_
        refine .pure_bind (followsT_arrayOf ?_ fun hclean => ?_)
        · rw [List.length_append, List.length_replicate]
          omega
        · rw [all_isConstant_fill _ (hn hclean)]
          exact htake s4 h4 hclean
      · refine .pure_bind (followsT_arrayOf ?_ (htake s3 (.refl s3)))
        exact Nat.le_trans (List.length_take_le length values) hlength
    · have hcount : constants.length = values.length := by
        rw [(hvalues hclean).constant, List.length_map]
      rw [hcount]
  | _ => exact .congr (followsT_problem inst _) fun _ => rfl

omit hforms in
theorem length_swizzleLanes (count : Nat) (packed : UInt32) :
    (swizzleLanes count packed).length = count := by
  rw [swizzleLanes, List.length_map, List.length_range]

theorem followsT_swizzle : FollowsT asm (swizzle asm inst) s (Check.swizzle asm inst) := by
  unfold swizzle Check.swizzle
  refine .typed hforms fun type s1 => ?_
  extract_lets count lanes pick
  refine .unlessGiveUp (p := 1 ≤ count ∧ count ≤ 4) ?_ fun hcount => ?_
  · rw [Bool.or_eq_true, decide_eq_true_iff, decide_eq_true_iff]
    omega
  have hlanes : (lanes.flatMap Operand.words).length ≤ 4 := by
    unfold lanes
    rw [Build.length_flatMap_literal, length_swizzleLanes]
    exact hcount.2
  refine (followsT_value inst _).bind fun vector _ s2 _ _ => ?_
  refine (followsT_idFor inst.id).bind fun result _ s3 _ _ => ?_
  have hfits : ∀ operands : List Operand, operands = .id vector :: lanes ∨
      operands = .id vector :: .id vector :: lanes →
      2 + (operands.flatMap Operand.words).length ≤ maxOperandWords := by
    intro operands hoperands
    have hwords : (operands.flatMap Operand.words).length ≤ 6 := by
      rcases hoperands with rfl | rfl <;>
        simp only [List.flatMap_cons, Operand.words, List.length_append, List.length_cons,
          List.length_nil] <;> omega
    unfold maxOperandWords
    omega
  split
  · exact followsT_emitAnd inst ((fits_result ..).mpr (hfits _ (.inl rfl)))
  · exact followsT_emitAnd inst ((fits_result ..).mpr (hfits _ (.inr rfl)))

/-! ## Memory -/

omit hforms in
theorem FollowsT.isPlaced_bind {x : Attempt α} {id : ResultId} {c : Bool → Check β}
    {Q : α → β → Lowering → Prop} (h : FollowsT asm x s (c (s.place? id).isSome) Q) :
    FollowsT asm x s (Check.isPlaced id >>= c) Q := by
  rw [← Lowering.isPlaced_view] at h
  exact h.congr fun _ => rfl

omit hforms in
theorem placeOf?_run_lift (id : ResultId) (s : Lowering) :
    (OptionT.lift (placeOf? id)).run.run s = (some (s.place? id), s) := by
  show (some ((placeOf? id).run s).1, ((placeOf? id).run s).2) = _
  rw [placeOf?_run]

omit hforms in
theorem followsT_assign : FollowsT asm (assign asm inst) s (Check.assign asm inst) := by
  unfold assign Check.assign
  extract_lets target write
  refine .read (a := s.params.contains target) rfl (.isPlaced_bind ?_)
  by_cases hparam : s.params.contains target = true
  · have hplace : s.place? target = none := if_pos hparam
    rw [if_pos hparam, hplace]
    exact .missing nofun (not_clean_giveUp inst _ s)
  · rw [if_neg hparam]
    refine .read (placeOf?_run_lift target s) ?_
    cases s.place? target with
    | none => exact .reported nofun
    | some place =>
      refine .given rfl ((followsT_value inst _).bind fun v _ s1 _ _ => ?_)
      exact .lift (follows_store inst place.pointer v)

omit hforms in
theorem Follows.whenWritten {b : Bool} {x : Lower Unit} {c : Check β}
    {Q : Unit → β → Lowering → Prop} (hb : s.Clean → b = true) (hx : Follows asm x s c Q) :
    Follows asm (if b = true then x else Pure.pure ()) s c Q := by
  cases b with
  | true => exact hx
  | false =>
    have hunclean : ¬ s.Clean := fun hclean => by cases hb hclean
    exact .congr (.fails hunclean) fun hclean => absurd hclean hunclean

omit hforms in
theorem FollowsT.whenWritten {b : Bool} {x : Attempt Unit} {c : Check β}
    {Q : Unit → β → Lowering → Prop} (hb : s.Clean → b = true) (hx : FollowsT asm x s c Q) :
    FollowsT asm (if b = true then x else Pure.pure ()) s c Q := by
  cases b with
  | true => exact hx
  | false =>
    have hunclean : ¬ s.Clean := fun hclean => by cases hb hclean
    exact .congr (.fails hunclean) fun hclean => absurd hclean hunclean

omit hforms in
theorem follows_loadPlace (place : Place) (result : ModuleId) :
    Follows asm (do if ← load inst place result then setPlace inst.id place) s (Check.load inst) :=
  (follows_load inst place result).bind fun _ _ _ _ hwritten =>
    .whenWritten hwritten (follows_setPlace inst.id place)

omit hforms in
theorem followsT_loadPlace (place : Place) (result : ModuleId) :
    FollowsT asm (do if ← load inst place result then setPlace inst.id place) s (Check.load inst) :=
  (FollowsT.lift (follows_load inst place result)).bind fun _ _ _ _ hwritten =>
    .whenWritten hwritten (.lift (follows_setPlace inst.id place))

omit hforms in
theorem followsT_readVariable : FollowsT asm (readVariable inst) s (Check.readVariable inst) := by
  unfold readVariable Check.readVariable
  extract_lets var
  refine .read (a := s.params.contains var) rfl (.view_bind ?_)
  change FollowsT asm _ s (if s.params.contains var = true then _ else _) _
  by_cases hparam : s.params.contains var = true
  · rw [if_pos hparam, if_pos hparam]
    exact (followsT_idFor var).bind fun n constant s1 _ hn => .lift (follows_bindId inst.id hn)
  · rw [if_neg hparam, if_neg hparam]
    refine .read (placeOf?_run_lift var s) (.isPlaced_bind ?_)
    change FollowsT asm _ s (guard ((s.place? var).isSome = true) >>= _) _
    cases s.place? var with
    | none => exact .reported nofun
    | some place =>
      refine .given rfl ((followsT_idFor inst.id).bind fun result _ s1 _ _ => ?_)
      exact followsT_loadPlace place result

omit hforms in
theorem follows_readThrough (place : Place) (type : ModuleId) (indices : List ModuleId)
    (result : ModuleId) (hindices : indices.length ≤ 2) :
    Follows asm (readThrough inst place type indices result) s (Check.readThrough inst) := by
  refine .share (Build.sharing_pointerType _ _) fun pointer s1 _ _ => ?_
  refine .share Build.sharing_fresh fun chain s2 _ _ => ?_
  refine (follows_emit inst ((fits_ids ..).mpr ?_)).bind fun written _ s3 _ hwritten => ?_
  · rw [List.length_cons]
    unfold maxOperandWords
    omega
  · exact .whenWritten hwritten (follows_loadPlace _ result)

theorem followsT_member : FollowsT asm (member asm inst) s (Check.member asm inst) := by
  unfold member Check.member
  refine .typed hforms fun type s1 => ?_
  extract_lets index
  refine (followsT_idFor inst.id).bind fun result _ s2 _ _ => ?_
  refine .read (placeOf?_run_lift _ s2) (.isPlaced_bind ?_)
  cases s2.place? inst.refs.fst with
  | some place =>
    refine .share (Build.sharing_word true index) fun position s3 _ _ => ?_
    exact .lift (follows_readThrough place type [position] result (Nat.le_succ 1))
  | none =>
    exact (followsT_value inst _).bind fun base _ s3 _ _ => followsT_emitAnd inst rfl

structure ReadOptional (m : Module) (id : ResultId) (o : Option ModuleId) (constant : Option Bool) :
    Prop where
  isNone : o.isNone = id.isVoid
  constant : constant = o.map m.isConstant

omit hforms in
theorem followsT_optionalValue (source : Instruction) (id : ResultId)
    {k : Option ModuleId → Attempt γ} {c : Option Bool → Check δ} {R : γ → δ → Lowering → Prop}
    (hk : ∀ o constant s', s.GrowsTo s' → (s'.Clean → ReadOptional s'.module id o constant) →
      FollowsT asm (k o) s' (c constant) R) : FollowsT asm (if id.isVoid = true then pure none >>= k
        else some <$> OptionT.lift (value asm source id) >>= k) s
      (Check.optionalValue asm id >>= c) R := by
  unfold Check.optionalValue
  split
  next hvoid =>
    exact .pure_bind (hk none none s (.refl s) fun _ => ⟨hvoid.symm, rfl⟩)
  next hvoid =>
    rw [map_eq_pure_bind, map_eq_pure_bind, bind_assoc, bind_assoc]
    refine (FollowsT.lift (follows_value source id)).bind fun n constant s1 h1 hn =>
      FollowsT.pure_bind (hk (some n) (some constant) s1 h1 fun hclean =>
        ⟨(Bool.eq_false_iff.mpr hvoid).symm, ?_⟩)
    rw [Option.map_some, (hn hclean).2]

theorem followsT_element : FollowsT asm (element asm inst) s (Check.element asm inst) := by
  unfold element Check.element
  refine .typed hforms fun type s1 => ?_
  refine (followsT_value inst _).bind fun first _ s2 _ _ => ?_
  refine followsT_optionalValue inst _ fun second _ s3 _ hsecond => ?_
  refine (followsT_idFor inst.id).bind fun result _ s4 h4 _ => ?_
  refine .read (placeOf?_run_lift _ s4) (.isPlaced_bind ?_)
  cases s4.place? inst.refs.fst with
  | some place =>
    refine .lift (follows_readThrough place type _ result ?_)
    cases second with
    | none => exact Nat.le_succ 1
    | some _ => exact Nat.le_refl 2
  | none =>
    refine .congr (d := do
      guard ((isVector asm (typeOf asm inst.refs.fst) && second.isNone) = true)
      let _ ← Check.value asm inst.refs.fst
      Check.write) ?_ fun hclean => ?_
    · change FollowsT asm (if _ then _ else _) s4 _ _
      split
      next hvector =>
        refine .given hvector ((followsT_value inst _).bind fun base _ s5 _ _ => ?_)
        exact followsT_emitAnd inst rfl
      next hvector => exact .reported hvector
    · rw [(hsecond (h4 hclean).1).isNone]
      rfl

end

end ShaderIR.Spirv
