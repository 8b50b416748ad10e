import ShaderIR.Proofs.Spirv.Lowering.Rules
import ShaderIR.Proofs.Spirv.Requirements.Values

/-!
# Built-ins, functions and stages follow their checks

What surrounds values: the variables behind built-ins, functions with their parameters, variables,
blocks and stages.
-/

namespace ShaderIR.Spirv

open Discipline Spirv.Module
open Build (sharing_aside sharing_fresh sharing_pointerType sharing_emit)

variable {asm : Assembler} {α β γ δ : Type} {s : Lowering} {inst : Instruction}

/-! ## Steps that ask for nothing -/

theorem follows_aside {f : Lowering → Lowering}
    (hf : ∃ builtIns perVertex fragColor, f s = { s with builtIns, perVertex, fragColor }) :
    Follows asm (modify f) s (pure ()) := by
  obtain ⟨builtIns, perVertex, fragColor, hf⟩ := hf
  have hmodify : Follows asm (modify f) s (modify fun v => v) := by
    refine .modify (by rw [hf]) (by rw [hf]) (by rw [hf]) (fun _ hs => ?_) fun _ => by rw [hf]; rfl
    rw [hf]
    exact { hs with }
  exact hmodify

theorem follows_addInterface (var : ModuleId) : Follows asm (addInterface var) s (pure ()) := by
  refine .get_bind ?_
  split
  · exact follows_onModule (sharing_aside (fun _ => ⟨rfl, rfl, rfl, rfl⟩) s.module)
  · exact .pure fun _ => trivial

theorem follows_forM_option {o : Option α} {f : α → Build Unit} (h : ∀ a, sharing.Keeps (f a)) :
    Follows asm (o.forM fun a => onModule (f a)) s (pure ()) := by
  cases o with
  | none => exact .pure fun _ => trivial
  | some a => exact follows_onModule (h a s.module)

theorem Follows.forM {l : List α} {f : α → Lower Unit}
    (h : ∀ a ∈ l, ∀ s', Follows asm (f a) s' (Pure.pure ())) :
    Follows asm (l.forM f) s (Pure.pure ()) := by
  induction l generalizing s with
  | nil => exact .pure fun _ => trivial
  | cons a rest ih =>
    exact (h a List.mem_cons_self s).skip fun _ s' _ _ =>
      ih fun b hb => h b (List.mem_cons_of_mem a hb)

/-! ## Built-ins -/

theorem textFits_builtIn (b : BuiltIn) : textFits 1 ("gl_" ++ b.name) = true := by
  cases b <;> decide +kernel

theorem follows_builtInPlace (stage : ShaderStage) (b : BuiltIn) :
    Follows asm (builtInPlace stage b) s (pure ()) fun place _ s' =>
      s'.module.Shaped b.info.shape place.pointee := by
  unfold builtInPlace
  extract_lets info
  refine .share (sharing_builtInType info.shape) fun pointee s1 _ hpointee => ?_
  refine .get_bind ?_
  split
  · exact .pure hpointee
  · refine (follows_forM_option Build.sharing_requireCapability).skip fun _ s2 h2 _ => ?_
    refine .share sharing_fresh fun var s3 h3 _ => ?_
    refine .share (sharing_pointerType _ _) fun pointer s4 h4 _ => ?_
    refine .note (sharing_emit rfl) fun _ s5 h5 => ?_
    refine .note (sharing_emit rfl) fun _ s6 h6 => ?_
    refine .note (sharing_emit ((fits_name _ _).trans (textFits_builtIn b))) fun _ s7 h7 => ?_
    refine (follows_aside ⟨_, _, _, rfl⟩).skip fun _ s8 h8 _ => ?_
    refine (follows_addInterface var).skip fun _ s9 h9 _ => .pure fun hclean => ?_
    have hgrows := h2.trans (h3.trans (h4.trans (h5.trans (h6.trans (h7.trans (h8.trans h9))))))
    exact (hpointee (hgrows hclean).1).grow (hgrows hclean).2

theorem textFits_perVertexMembers : ∀ m ∈ perVertexMembers, textFits 2 m.1 = true := by
  decide +kernel

theorem follows_perVertexBlock : Follows asm perVertexBlock s (pure ()) := by
  refine .get_bind ?_
  split
  next var _ => exact (follows_addInterface var).skip fun _ _ _ _ => .pure fun _ => trivial
  next =>
    refine .share (Build.sharing_floatType 32) fun float s1 _ hfloat => ?_
    refine (follows_onModule_of_clean Build.whole_before
      fun hclean => Build.sharing_vectorType 4 fun _ => (hfloat hclean).1).skip fun position s2 _ _ => ?_
    refine .share (Build.sharing_arrayType float 1) fun distances s3 _ _ => ?_
    refine (follows_onModule (Build.sharing_newType fun _ => rfl)).skip fun block s4 _ _ => ?_
    refine .note (sharing_emit rfl) fun _ s5 _ => ?_
    refine .note (sharing_emit ((fits_name _ _).trans (by decide +kernel))) fun _ s6 _ => ?_
    refine .skip (Q := fun _ _ _ => True) (.forM fun e he s' => ?_) fun _ s7 _ _ => ?_
    · refine .note (sharing_emit rfl) fun _ s'' _ => ?_
      have hm := textFits_perVertexMembers e.1 (List.fst_mem_of_mem_zipIdx he)
      exact follows_onModule (sharing_emit ((fits_memberName _ _ _).trans hm) s''.module)
    refine .share (sharing_pointerType _ _) fun pointer s8 _ _ => ?_
    refine .share sharing_fresh fun var s9 _ _ => ?_
    refine .note (sharing_emit rfl) fun _ s10 _ => ?_
    refine (follows_aside ⟨_, _, _, rfl⟩).skip fun _ s11 _ _ => ?_
    exact (follows_addInterface var).skip fun _ _ _ _ => .pure fun _ => trivial

theorem follows_fragColorOutput (type : ModuleId) :
    Follows asm (fragColorOutput type) s (pure ()) := by
  refine .get_bind ?_
  split
  next var _ => exact (follows_addInterface var).skip fun _ _ _ _ => .pure fun _ => trivial
  next =>
    refine .share (sharing_pointerType _ _) fun pointer s1 _ _ => ?_
    refine .share sharing_fresh fun var s2 _ _ => ?_
    refine .note (sharing_emit rfl) fun _ s3 _ => ?_
    refine .note (sharing_emit rfl) fun _ s4 _ => ?_
    refine .note (sharing_emit ((fits_name _ _).trans (by decide +kernel))) fun _ s5 _ => ?_
    refine (follows_aside ⟨_, _, _, rfl⟩).skip fun _ s6 _ _ => ?_
    exact (follows_addInterface var).skip fun _ _ _ _ => .pure fun _ => trivial

theorem followsT_perVertexPlace (b : BuiltIn) (index : UInt32) :
    FollowsT asm (perVertexPlace inst b index) s Check.write fun place _ s' =>
      s'.module.Shaped b.info.shape place.pointee := by
  refine .share (sharing_builtInType _) fun pointee s1 _ hpointee => ?_
  refine (FollowsT.lift follows_perVertexBlock).skip fun block s2 h2 _ => ?_
  refine .share (Build.sharing_word true index) fun position s3 h3 _ => ?_
  refine .share (sharing_pointerType _ _) fun pointer s4 h4 _ => ?_
  refine .share sharing_fresh fun chain s5 h5 _ => ?_
  refine (FollowsT.lift (follows_emit inst rfl)).finish fun written _ s6 h6 hwritten => ?_
  cases written with
  | true =>
    refine .pure_bind (.pure fun hclean => ?_)
    have hgrows := h2.trans (h3.trans (h4.trans (h5.trans h6)))
    exact (hpointee (hgrows hclean).1).grow (hgrows hclean).2
  | false =>
    have hunclean : ¬ s6.Clean := fun hclean => by cases hwritten hclean
    exact .congr (.fails hunclean) fun hclean => absurd hclean hunclean

theorem eq_pointee_iff {m : Module} {id : ResultId} {shape : BuiltInShape} {type pointee : ModuleId}
    (htype : m.Represents asm id type) (hpointee : m.Shaped shape pointee) :
    type = pointee ↔ Check.shapeOf? asm.types id = some shape := by
  rw [← htype.shaped]
  exact ⟨fun h => h ▸ hpointee, fun h => h.unique hpointee⟩

section

variable (hforms : HasForms asm.types)
include hforms

theorem followsT_readBuiltIn {b : BuiltIn} {place : Place}
    (hplace : s.Clean → s.module.Shaped b.info.shape place.pointee) :
    FollowsT asm (readBuiltIn asm inst b place) s
      (Check.readBuiltIn asm inst b) := by
  refine (followsT_requireType hforms inst _).bind fun type _ s1 h1 htype => ?_
  refine .of_sound fun hs1 => ?_
  refine (followsT_idFor inst.id).bind fun result _ s2 h2 _ => ?_
  refine .congr (d := if type = place.pointee then Check.load inst else do
      guard (canReinterpret asm b.info.shape inst.resultType)
      Check.write) ?_ fun hclean => ?_
  · split
    · exact followsT_loadPlace place result
    · split
      next hcan =>
        refine .given hcan (.share sharing_fresh fun loaded s3 _ _ => ?_)
        rw [← Check.write_write]
        refine (FollowsT.lift (follows_load inst place loaded)).bind fun _ _ _ _ hwritten => ?_
        exact .whenWritten hwritten (followsT_emitAnd inst rfl)
      next hcan => exact .reported hcan
  · obtain ⟨hclean1, hgrows2⟩ := h2 hclean
    obtain ⟨hclean0, hgrows1⟩ := h1 hclean1
    have hiff := eq_pointee_iff ((htype hclean1).grow hgrows2 (hs1 hclean1).tables)
      ((hplace hclean0).grow (hgrows1.trans hgrows2))
    exact congrArg (fun c : Check Unit => c.run s2.view)
      (ite_congr (propext hiff.symm) (fun _ => rfl) fun _ => rfl)

theorem follows_builtInValue :
    Follows asm (builtInValue asm inst).run s (Check.builtIn asm inst) := by
  unfold builtInValue Check.builtIn
  extract_lets code
  change Follows asm _ s (Check.found (BuiltIn.ofCode? code.toNat) >>= _) _
  cases BuiltIn.ofCode? code.toNat with
  | none => exact Follows.fails (not_clean_problem inst _ s)
  | some b =>
    refine Follows.congr (d := Check.builtInIn asm inst b (s.stage.map (·.stage))) ?_ fun _ => rfl
    cases hstage : s.stage with
    | none =>
      refine Follows.of_run_eq (y := pure none) ?_ (Follows.pure fun _ => trivial)
      rw [run_get_bind, hstage]
      rfl
    | some outer =>
      refine FollowsT.forget (Q := fun _ _ _ => True) (FollowsT.get_bind ?_)
      rw [hstage]
      refine FollowsT.read (x := orGiveUp (some outer.stage)) rfl ?_
      change FollowsT asm _ s (do
        Check.writeIf (perVertexMember? (some outer.stage) b).isSome
        Check.readBuiltIn asm inst b) _
      unfold Check.writeIf
      extract_lets read
      cases perVertexMember? (some outer.stage) b with
      | some index =>
        exact (followsT_perVertexPlace b index).bind fun place _ s1 _ hplace =>
          followsT_readBuiltIn hforms hplace
      | none =>
        exact (FollowsT.lift (follows_builtInPlace outer.stage b)).bind fun place _ s1 _ hplace =>
          followsT_readBuiltIn hforms hplace

theorem follows_invocationLane (b : BuiltIn) :
    Follows asm (invocationLane asm inst b).run s (Check.invocationLane asm inst) := by
  refine Follows.congr (d := Check.invocationLaneIn asm inst (s.stage.map (·.stage))) ?_ fun _ => rfl
  cases hstage : s.stage with
  | none =>
    refine Follows.of_run_eq (y := pure none) ?_ (Follows.pure fun _ => trivial)
    rw [invocationLane, run_get_bind, hstage]
    rfl
  | some outer =>
    refine FollowsT.forget (Q := fun _ _ _ => True) (FollowsT.get_bind ?_)
    rw [hstage]
    refine FollowsT.read (x := orGiveUp (some outer.stage)) rfl ?_
    refine (FollowsT.lift (follows_builtInPlace outer.stage b)).skip fun place s1 _ _ => ?_
    extract_lets lane read
    refine FollowsT.unlessGiveUp (p := lane ≤ 2) ?_ fun _ => ?_
    · exact UInt32.not_le.symm
    refine FollowsT.share (Build.sharing_intType 32 false) fun word s2 _ _ => ?_
    refine FollowsT.bind ((followsT_requireType hforms inst _).orElse fun _ h => h) fun type _ s3 _ _ => ?_
    refine FollowsT.share (Build.sharing_word false lane) fun index s4 _ _ => ?_
    refine (followsT_idFor inst.id).bind fun result _ s5 _ _ => ?_
    extract_lets reinterpret
    have hread : ∀ loaded s', FollowsT asm (reinterpret loaded) s' Check.write := by
      intro loaded s'
      refine FollowsT.share (sharing_pointerType _ _) fun pointer s1 _ _ => ?_
      refine FollowsT.share sharing_fresh fun chain s2 _ _ => ?_
      rw [← Check.write_write]
      refine (FollowsT.lift (follows_emit inst rfl)).bind fun _ _ s3 _ hwritten => ?_
      refine .whenWritten hwritten ?_
      by_cases htype : (type != word) = true
      · simp only [if_pos htype]
        rw [← Check.write_write]
        refine (FollowsT.lift (follows_load inst _ loaded)).bind fun _ _ _ _ hwritten => ?_
        exact .whenWritten hwritten (followsT_emitAnd inst rfl)
      · simp only [if_neg htype, ite_self]
        exact (FollowsT.lift (follows_load inst _ loaded)).finish fun _ _ _ _ _ =>
          FollowsT.pure fun _ => trivial
    split
    · exact FollowsT.pure_bind (hread result s5)
    · exact FollowsT.share sharing_fresh fun loaded s6 _ _ => hread loaded s6

/-! ## Functions -/

omit hforms in
theorem follows_takeFunction :
    Follows asm takeFunction s Check.takeFunction fun o source _ => source = o.map (·.source) := by
  have hmodify : Follows asm (do
      modify fun s => { s with function := none }
      pure s.function) s (do
      modify fun v => { v with function := none }
      pure (s.view.function.map (·.1))) fun o source _ => source = o.map (·.source) := by
    refine .bind (Q := fun _ _ _ => True) (.modify rfl rfl rfl
      (fun _ hs => { hs with }) fun _ => rfl) fun _ _ _ _ _ => .pure fun _ => ?_
    show (s.function.map _).map _ = _
    rw [Option.map_map]
    rfl
  exact .of_run_eq rfl (hmodify.congr fun _ => rfl)

theorem followsT_paramTypes (args : List Instruction) :
    FollowsT asm (args.mapM fun arg => (some <$> requireType asm arg arg.refs.fst) <|> pure none) s
      (args.forM fun arg => Check.typed asm arg.refs.fst)
      fun lowered _ _ => (lowered.filterMap id).length = args.length := by
  induction args generalizing s with
  | nil =>
    rw [List.mapM_nil]
    exact .pure fun _ => rfl
  | cons arg rest ih =>
    rw [List.mapM_cons]
    have harg : FollowsT asm ((some <$> requireType asm arg arg.refs.fst) <|> pure none) s
        (Check.typed asm arg.refs.fst) fun o _ _ => o.isSome = true :=
      (FollowsT.map ((followsT_requireType hforms arg _).mono fun _ _ _ _ _ _ => rfl)).orElse fun _ h => h
    refine harg.bind fun o _ s1 _ ho => ?_
    refine ih.finish fun lowered _ s2 h2 hlength => .pure fun hclean => ?_
    obtain ⟨n, rfl⟩ := Option.isSome_iff_exists.mp (ho (h2 hclean).1)
    exact congrArg (· + 1) (hlength hclean)

omit hforms in
theorem followsT_functionType {result : ModuleId} {params : List ModuleId} {count : Nat}
    (hcount : s.Clean → params.length = count) :
    FollowsT asm (onModule (.functionType result params)) s (Check.fits (2 + count)) := by
  have hfits : ∀ n, Inst.fits { op := .typeFunction, result := some n,
                                operands := (result :: params).map .id } = true ↔
      2 + params.length ≤ maxOperandWords := by
    intro n
    rw [fits_typeOf, List.length_cons]
    omega
  refine .congr (d := guard (2 + params.length ≤ maxOperandWords)) ?_
    fun hclean => by rw [Check.fits, hcount hclean]
  refine .of_sound fun hs => ?_
  by_cases hle : 2 + params.length ≤ maxOperandWords
  · rw [guard, if_pos hle]
    exact (followsT_onModule (Build.sharing_plainType (fun n => (hfits n).mpr hle) nofun)).weaken
  · rw [guard, if_neg hle]
    refine .fails fun hclean => ?_
    have hclean0 : s.Clean := ⟨hclean.problems,
      Build.whole_before (x := .functionType result params) hclean.whole, hclean.offsets⟩
    exact Build.not_whole_type (hs hclean0).tables (fun n h => hle ((hfits n).mp h)) hclean.whole

theorem followsT_beginFunction (i : Nat) :
    FollowsT asm (beginFunction asm i inst) s (Check.beginFunction asm i inst) := by
  unfold beginFunction Check.beginFunction
  refine (FollowsT.lift follows_takeFunction).bind fun outer source s1 _ houter => ?_
  extract_lets count args start
  have hstart : ∀ u s', FollowsT asm (start u) s' (Check.openFunction asm i inst) := by
    intro u s'
    refine .share Build.sharing_voidType fun void s1 _ _ => ?_
    refine .bind ((followsT_requireType hforms inst _).orElse fun _ h => h) fun result _ s2 _ _ => ?_
    extract_lets enter
    refine followsT_trailers i .functionArg fun s3 _ => ?_
    refine (followsT_paramTypes hforms args).bind fun lowered _ s4 _ hlength => ?_
    refine (followsT_functionType hlength).bind fun type _ s5 _ _ => ?_
    refine (followsT_idFor inst.id).bind fun function _ s6 _ _ => ?_
    exact .lift (.modify rfl rfl rfl
      (fun _ hs => { hs with }) fun _ => rfl)
  refine .guard_congr (q := outer.isNone = true) (fun hclean => ?_) ?_
  · rw [houter hclean, Option.isNone_map]
  cases outer with
  | none => exact .given rfl (hstart () s1)
  | some outer =>
    exact .refused nofun (.problem_bind fun _ s2 =>
      (FollowsT.lift (follows_closeFunction outer)).skip fun u s3 _ _ => hstart u s3)

omit hforms in
theorem followsT_endFunction : FollowsT asm (endFunction inst) s (Check.endFunction inst) := by
  unfold endFunction Check.endFunction
  refine (FollowsT.lift follows_takeFunction).bind fun outer source s1 _ houter => ?_
  rw [← bind_pure_unit (x := guard _)]
  refine .guard_congr (q := outer.map (·.source) = some inst.refs.fst) (fun hclean => ?_) ?_
  · rw [houter hclean]
  cases outer with
  | none => exact .reported nofun
  | some f =>
    refine .unless (k := fun _ => closeFunction f) ?_ fun s2 _ _ =>
      FollowsT.lift (follows_closeFunction f)
    rw [bne_iff_ne, Option.map_some, Ne, Option.some.injEq]

theorem follows_lowerType_bind {id : ResultId} {f : ModuleId → Attempt Unit} {c : Check Unit}
    (hf : ∀ n s', FollowsT asm (f n) s' c) : Follows asm (lowerType asm id >>= f).run s
      (if (asm.types.ofId? id).isSome = true then c else pure ()) := by
  by_cases hid : (asm.types.ofId? id).isSome = true
  · rw [if_pos hid]
    exact ((followsT_lowerType hforms hid).skip fun n s1 _ _ => hf n s1).forget
  · rw [if_neg hid]
    refine .of_sound fun hs => ?_
    have hrun : (lowerType asm id >>= f).run.run s =
        ((s.typeIds.get? id).elim (pure none) fun n => (f n).run : Lower _).run s := by
      rw [OptionT.run_bind, Option.elimM, StateT.run_bind, lowerType_run hid]
      rfl
    refine .of_run_eq hrun ?_
    cases hn : s.typeIds.get? id with
    | none => exact .pure fun _ => trivial
    | some n =>
      refine (hf n s).forget.congr fun hclean => ?_
      rw [(hs hclean).typeIds_eq_none hid] at hn
      cases hn

theorem follows_parameter : Follows asm (parameter asm inst).run s (Check.parameter asm inst) := by
  refine follows_lowerType_bind hforms fun type s1 => ?_
  refine (followsT_idFor inst.id).bind fun param _ s2 _ _ => ?_
  refine .bind (Q := fun _ _ _ => True) (.lift (.modify rfl rfl rfl
    (fun _ hs => { hs with }) fun _ => rfl)) fun _ _ s3 _ _ => ?_
  refine .get_bind (.view_bind ?_)
  extract_lets isOpen
  have hopen : (s3.view.function.any fun f => !f.2) = isOpen := by
    unfold isOpen
    show ((s3.function.map _).any _) = _
    cases s3.function with
    | none => rfl
    | some f => exact Bool.not_not _
  rw [← bind_pure_unit (x := guard _), hopen]
  split
  next h => exact .given h (.lift (follows_modifyFunction fun _ => ⟨rfl, rfl⟩))
  next h => exact .reported h

theorem followsT_call (i : Nat) : FollowsT asm (call asm i inst) s (Check.call asm i inst) := by
  unfold call Check.call
  extract_lets count args k
  refine followsT_trailers i .callArg fun s1 _ => ?_
  refine .typed hforms fun type s2 => ?_
  refine (followsT_idFor inst.refs.fst).bind fun callee _ s3 _ _ => ?_
  refine (followsT_idFor inst.id).bind fun result _ s4 _ _ => ?_
  refine (followsT_values args).bind fun values _ s5 _ hvalues => ?_
  refine followsT_emitIfFits inst fun hclean => ?_
  have hcount := fits_ids .functionCall type result (callee :: values)
  rw [List.length_cons, (hvalues hclean).length] at hcount
  show _ ↔ 3 + args.length ≤ maxOperandWords
  exact hcount.trans (by omega)

/-! ## Variables -/

omit hforms in
theorem followsT_declareVariable (source : Instruction) (id : ModuleId) (storage : StorageClass)
    (pointee : ModuleId) (init : Option ModuleId) :
    FollowsT asm (declareVariable source id storage pointee init) s (Check.declare storage) := by
  refine .share (sharing_pointerType storage pointee) fun pointer s1 _ _ => ?_
  extract_lets i place define
  refine .view_bind ?_
  rw [← bind_pure_unit (x := guard _)]
  split
  next hstorage =>
    refine .get_bind (.unlessGiveUp ?_ fun _ => ?_)
    · have hview : s1.view.function.isSome = s1.function.isSome := Option.isSome_map
      rw [hview, not_or, Decidable.not_not, Option.isNone_iff_eq_none, Option.not_isSome_iff_eq_none]
      exact ⟨fun h => ⟨hstorage, h⟩, fun h => h.2⟩
    · refine .skip (.lift (follows_modifyFunction fun g => ?_)) fun _ _ _ _ =>
        FollowsT.pure fun _ => trivial
      exact ⟨rfl, rfl⟩
  next hstorage =>
    refine .given (.inl hstorage) (.note (sharing_emit ?_) fun _ s2 _ => ?_)
    · exact Rules.fits_variable ..
    · exact .pure fun _ => trivial

omit hforms in
theorem followsT_declareGlobal (source : Instruction) (id : ModuleId) {storage : StorageClass}
    (pointee : ModuleId) (init : Option ModuleId) (h : storage ≠ .function) :
    FollowsT asm (declareVariable source id storage pointee init) s (pure ()) := by
  refine (followsT_declareVariable source id storage pointee init).congr fun _ => ?_
  have hguard : (Check.declare storage).run s.view = (guard _ : Check Unit).run s.view := rfl
  rw [hguard, guard, if_pos (.inl h)]

theorem followsT_localVariable :
    FollowsT asm (localVariable asm inst) s (Check.localVariable asm inst) := by
  unfold localVariable Check.localVariable
  refine .typed hforms fun pointee s1 => ?_
  extract_lets shared storage source declare
  refine followsT_optionalValue inst source fun init known s2 _ hinit => ?_
  refine .get_bind ?_
  extract_lets m constant
  refine (followsT_idFor inst.id).bind fun var _ s3 h3 _ => ?_
  refine (followsT_declareVariable _ _ _ _ _).bind fun place _ s4 h4 _ => ?_
  refine (FollowsT.lift (follows_setPlace inst.id place)).bind fun _ _ s5 h5 _ => ?_
  -- A constant is part of the declaration, so what is stored is anything else.
  refine .congr (d := Check.writeIf (init.any fun v => !(!shared && m.isConstant v))) ?_
    fun hclean => ?_
  · unfold constant
    cases init with
    | none => exact .pure fun _ => trivial
    | some v =>
      rw [Option.filter_some, Option.any_some]
      cases (!shared && m.isConstant v) with
      | true => exact .pure fun _ => trivial
      | false => exact .lift (follows_store inst var v)
  · have hclean2 := (h3.trans (h4.trans h5) hclean).1
    have hsame : (fun v => shared || !s2.module.isConstant v) = fun v => !(!shared && m.isConstant v) := by
      funext v
      rw [Bool.not_and, Bool.not_not]
    rw [(hinit hclean2).constant, Option.any_map, hsame]

theorem followsT_globalVariable :
    FollowsT asm (globalVariable asm inst) s (Check.globalVariable asm inst) := by
  unfold globalVariable Check.globalVariable
  refine .typed hforms fun pointee s1 => ?_
  extract_lets source declare
  have hdeclare : ∀ init s', FollowsT asm (declare init) s' (do
      let _ ← Check.meet inst.id
      Check.setPlace inst.id) := by
    intro init s'
    refine (followsT_idFor inst.id).bind fun var _ s2 _ _ => ?_
    refine (followsT_declareGlobal _ _ _ _ ?_).skip fun place s3 _ _ => ?_
    · exact nofun
    · exact .lift (follows_setPlace inst.id place)
  unfold Check.optionalValue
  split
  · change FollowsT asm _ s1 (do guard ((none : Option Bool).all id = true); _) _
    exact .given rfl (.pure_bind (hdeclare none s1))
  · rw [map_eq_pure_bind, bind_assoc]
    refine (followsT_value inst source).bind fun v constant s2 _ hv => .get_bind ?_
    change FollowsT asm _ s2 (do guard ((some constant).all id = true); _) _
    refine .guard_congr (q := s2.module.isConstant v = true) (fun hclean => ?_) ?_
    · rw [(hv hclean).2]
      rfl
    split
    next hconstant => exact .given hconstant (.pure_bind (hdeclare _ s2))
    next hconstant =>
      exact .refused hconstant (.problem_bind fun _ s3 =>
        FollowsT.pure_bind (hdeclare none s3))

theorem followsT_interfaceVariable :
    FollowsT asm (interfaceVariable asm inst) s (Check.interfaceVariable asm inst) := by
  unfold interfaceVariable Check.interfaceVariable
  refine .typed hforms fun pointee s1 => ?_
  extract_lets storage
  refine (followsT_idFor inst.id).bind fun var _ s2 _ _ => ?_
  refine (followsT_declareGlobal _ _ _ _ ?_).skip fun place s3 _ _ => ?_
  · unfold storage
    split <;> exact nofun
  refine .note (sharing_emit rfl) fun _ s4 _ => ?_
  exact (FollowsT.lift (follows_setPlace inst.id place)).finish fun _ _ s5 _ _ =>
    FollowsT.lift (follows_addInterface var)

omit hforms in
theorem not_clean_overflow :
    ¬ ((modify fun s => { s with offsetOverflow := true } : Attempt Unit).run.run s).2.Clean :=
  fun h => Bool.noConfusion h.offsets

theorem followsT_descriptor : FollowsT asm (descriptor asm inst) s (Check.descriptor asm inst) := by
  unfold descriptor Check.descriptor
  extract_lets type
  refine .typed hforms fun pointee s1 => ?_
  extract_lets declare
  have hdeclare : ∀ u s', FollowsT asm (declare u) s' (do
      let _ ← Check.meet inst.id
      Check.setPlace inst.id) := by
    intro u s'
    refine (followsT_idFor inst.id).bind fun var _ s2 _ _ => ?_
    refine (followsT_declareGlobal _ _ _ _ ?_).skip fun place s3 _ _ => ?_
    · exact nofun
    refine .note (sharing_emit rfl) fun _ s4 _ => ?_
    refine .note (sharing_emit rfl) fun _ s5 _ => ?_
    exact .lift (follows_setPlace inst.id place)
  change FollowsT asm _ s1 (Check.found (asm.types.layoutOf? type) >>= _) _
  cases asm.types.layoutOf? type with
  | none => exact (FollowsT.problem_bind hdeclare).congr fun _ => rfl
  | some layout =>
    change FollowsT asm _ s1 (do
      guard ((memberOffsets? (layout.members.map fun m => memberExtent asm.types m.2) 0).isSome = true)
      _) _
    dsimp only
    cases memberOffsets? (layout.members.map fun m => memberExtent asm.types m.2) 0 with
    | none => exact .refused nofun (.fails_bind not_clean_overflow hdeclare)
    | some offsets =>
      refine .given rfl (.note (Build.sharing_markBlock pointee) fun _ s2 _ => ?_)
      refine .skip (Q := fun _ _ _ => True) (.forM fun e _ s' => ?_)
        fun u s3 _ _ => hdeclare u s3
      exact followsT_onModule (sharing_emit rfl s'.module)

/-! ## Control flow -/

omit hforms in
theorem followsT_label : FollowsT asm (label inst) s (Check.define inst.id) :=
  (followsT_idFor inst.id).bind fun n _ _ _ _ => .lift (follows_beginBlock inst n)

omit hforms in
theorem followsT_jump : FollowsT asm (jump inst) s (Check.define inst.refs.fst) :=
  (followsT_idFor inst.refs.fst).bind fun _ _ _ _ _ => .lift (follows_terminate inst rfl)

omit hforms in
theorem followsT_branch : FollowsT asm (branch asm inst) s (Check.branch asm inst) := by
  refine (followsT_value inst _).bind fun condition _ s1 _ _ => ?_
  refine (followsT_idFor inst.refs.snd).bind fun onTrue _ s2 _ _ => ?_
  refine (followsT_idFor inst.refs.thd).bind fun onFalse _ s3 _ _ => ?_
  exact .lift (follows_terminate inst rfl)

omit hforms in
theorem followsT_loopMerge : FollowsT asm (loopMerge inst) s (Check.loopMerge inst) := by
  refine (followsT_idFor inst.refs.fst).bind fun merge _ s1 _ _ => ?_
  refine (followsT_idFor inst.refs.snd).bind fun continueTarget _ s2 _ _ => ?_
  exact followsT_emitAnd inst rfl

omit hforms in
theorem followsT_returnValue : FollowsT asm (returnValue asm inst) s (Check.returnValue asm inst) :=
  (followsT_value inst _).bind fun _ _ _ _ _ => .lift (follows_terminate inst rfl)

/-! ## Stages -/

omit hforms in
theorem followsT_meetAll (ids : List ResultId) :
    FollowsT asm (ids.mapM fun id => liftM (idFor id)) s (ids.mapM Check.meet) := by
  induction ids generalizing s with
  | nil =>
    rw [List.mapM_nil, List.mapM_nil]
    exact .pure fun _ => trivial
  | cons id rest ih =>
    rw [List.mapM_cons, List.mapM_cons]
    refine (followsT_idFor id).bind fun n constant s1 _ _ => ?_
    exact ih.bind fun _ _ _ _ _ => .pure fun _ => trivial

omit hforms in
theorem followsT_forM_option {o : Option α} {f : α → Build Unit} (h : ∀ a, sharing.Keeps (f a)) :
    FollowsT asm (o.forM fun a => onModule (f a)) s (pure ()) := by
  cases o with
  | none => exact .pure fun _ => trivial
  | some a => exact followsT_onModule (h a s.module)

omit hforms in
theorem followsT_beginStage (i : Nat) :
    FollowsT asm (beginStage asm i inst) s (Check.beginStage asm i inst) := by
  unfold beginStage Check.beginStage
  extract_lets code vars
  change FollowsT asm _ s (Check.found (ShaderStage.ofCode? code.toNat) >>= _) _
  cases ShaderStage.ofCode? code.toNat with
  | none => exact .congr (followsT_problem inst _) fun _ => rfl
  | some stage =>
    refine .get_bind ?_
    extract_lets enter start
    have hstart : ∀ u s', FollowsT asm (start u) s' (Check.openStage asm i inst stage) := by
      intro u s'
      refine (followsT_forM_option Build.sharing_requireCapability).skip fun _ s1 _ _ => ?_
      refine .skip (followsT_forM_option fun e => sharing_aside fun _ => ?_) fun _ s2 _ _ => ?_
      · exact ⟨rfl, rfl, rfl, rfl⟩
      refine .unless bne_iff_ne fun s3 _ _ => ?_
      refine (followsT_meetAll vars).bind fun interface _ s4 _ _ => ?_
      refine .note (sharing_aside fun _ => ⟨rfl, rfl, rfl, rfl⟩) fun entry s5 _ => ?_
      exact .lift (.modify rfl rfl rfl
        (fun _ hs => { hs with }) fun _ => rfl)
    refine .congr (d := do
      guard ((s.stage.map (·.stage)).isNone = true)
      Check.openStage asm i inst stage) ?_ fun _ => rfl
    cases s.stage with
    | none => exact .given rfl (hstart () s)
    | some outer => exact .refused nofun (.problem_bind hstart)

omit hforms in
/-- Only vertex and fragment stages have an output for a result. -/
theorem follows_storeResult (stage : ShaderStage) (type result : ModuleId) :
    Follows asm (storeResult inst stage type result) s
      (guard ((stage == .vertex || stage == .fragment) = true)) := by
  unfold storeResult
  split
  · rw [guard, if_pos (by decide)]
    refine follows_perVertexBlock.skip fun block s1 _ _ => ?_
    refine .share (Build.sharing_word true 0) fun first s2 _ _ => ?_
    refine .share (sharing_pointerType _ _) fun pointer s3 _ _ => ?_
    exact .share sharing_fresh fun position s4 _ _ => .pure fun _ => trivial
  · rw [guard, if_pos (by decide)]
    exact (follows_fragColorOutput type).skip fun color s1 _ _ => .pure fun _ => trivial
  next hvertex hfragment =>
    have hneither : ¬ (stage == .vertex || stage == .fragment) = true := by
      rw [Bool.or_eq_true, beq_iff_eq, beq_iff_eq]
      exact fun h => h.elim hvertex hfragment
    rw [guard, if_neg hneither]
    exact .fails (not_clean_problem inst _ s)

omit hforms in
theorem isSome_of_returnsSomething {id : ResultId} (h : returnsSomething asm id = true) :
    (asm.types.ofId? id).isSome = true := by
  unfold returnsSomething at h
  split at h
  · cases h
  · cases h
  next hnone _ => exact Option.isSome_iff_ne_none.mpr hnone

omit hforms in
theorem sharing_entryType (void : ModuleId) : sharing.Keeps (Build.functionType void []) := by
  intro m
  have htype : sharing.Runs (Build.type .typeFunction [.id void]) m _ :=
    Build.sharing_plainType (fun _ => rfl) nofun
  exact htype.weaken

theorem follows_wrapEntry (stage : ShaderStage) (target : ModuleId) :
    Follows asm (wrapEntry asm inst stage target) s
      (guard (Check.takesResult asm inst stage = true)) := by
  unfold wrapEntry Check.takesResult
  extract_lets resultType returns
  refine .share Build.sharing_voidType fun void s1 _ _ => ?_
  extract_lets wrap
  have hwrap : ∀ type s', Follows asm (wrap type) s'
      (guard ((!returns || isVec4 asm resultType && (stage == .vertex || stage == .fragment)) = true)) := by
    intro type s'
    refine .note (sharing_entryType void) fun functionType s2 _ => ?_
    refine .share sharing_fresh fun main s3 _ _ => ?_
    refine .share sharing_fresh fun label s4 _ _ => ?_
    refine .share sharing_fresh fun result s5 _ _ => ?_
    extract_lets write
    have hwrite : ∀ stores s', Follows asm (write stores) s' (pure ()) := by
      intro stores s'
      refine .note (sharing_aside fun _ => ⟨rfl, rfl, rfl, rfl⟩) fun _ s6 _ => ?_
      refine .note (sharing_emit ((fits_name _ _).trans (by decide +kernel))) fun _ s7 _ => ?_
      exact .pure fun _ => trivial
    cases returns with
    | false => exact .congr (.pure_bind (hwrite #[] s5)) fun _ => rfl
    | true =>
      cases isVec4 asm resultType with
      | true =>
        exact (follows_storeResult stage type result).finish fun stores _ s6 _ _ => hwrite stores s6
      | false =>
        have hfails : ∀ message, Follows asm (problem inst message) s5 (failure : Check Unit) :=
          fun message => follows_problem inst message
        exact ((hfails _).finish fun _ _ s6 _ _ => .pure_bind (hwrite #[] s6)).congr fun _ => rfl
  split
  next hreturns =>
    have htype := followsT_lowerType (s := s1) hforms (isSome_of_returnsSomething hreturns)
    rw [map_eq_pure_bind, bind_assoc]
    exact .skip htype fun o s2 _ _ => .pure_bind (hwrap _ s2)
  next => exact .pure_bind (hwrap void s1)

theorem followsT_endStage : FollowsT asm (endStage asm inst) s (Check.endStage asm inst) := by
  unfold endStage
  refine .get_bind (.congr (d :=
    Check.found (s.stage.map (·.stage)) >>= Check.closeStage asm inst) ?_ fun _ => rfl)
  cases s.stage with
  | none => exact .congr (followsT_problem inst _) fun _ => rfl
  | some outer =>
    obtain ⟨stage, entry⟩ := outer
    refine .congr (d := Check.closeStage asm inst stage) ?_ fun _ => rfl
    refine (followsT_idFor inst.refs.fst).bind fun target _ s1 _ _ => ?_
    extract_lets close
    have hclose : ∀ function s', FollowsT asm (close function) s'
        (modify fun v => { v with stage := none }) := by
      intro function s'
      unfold close
      extract_lets leave
      have hleave : ∀ u s', FollowsT asm (leave u) s' (modify fun v => { v with stage := none }) := by
        intro u s'
        refine .note (sharing_aside fun _ => ⟨rfl, rfl, rfl, rfl⟩) fun _ s2 _ => ?_
        exact .lift (.modify rfl rfl rfl
          (fun _ hs => { hs with }) fun _ => rfl)
      split
      · exact .note (sharing_emit rfl) fun u s2 _ => hleave u s2
      · split
        · exact .note (sharing_emit rfl) fun u s2 _ => hleave u s2
        · exact hleave () s'
    cases stage.wrapsEntry with
    | true => exact (FollowsT.lift (follows_wrapEntry hforms stage target)).bind fun n _ s2 _ _ =>
        hclose n s2
    | false => exact .given rfl (.pure_bind (hclose target s1))

end

end ShaderIR.Spirv
