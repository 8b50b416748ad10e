import ShaderIR.Proofs.Spirv.Lowering.Steps
import ShaderIR.Proofs.Spirv.Twins.Steps

/-!
# Every lowering follows the rules

One lemma per lowering, in the order of the lowerings themselves, and then **one for all opcodes**:
a lowering only takes the steps of its instruction, each where it may be taken, and paired
instructions are lowered alike.  So a discipline that keeps the rules of every instruction is kept
up to the end of every stream, and streams that differ in ids only have one module.
-/

namespace ShaderIR.Spirv

open Discipline Spirv.Module

variable {code : Op} {type : ModuleId}

/-! ## The roles of chosen operations -/

variable {x : Scalar} {op : Operator}

theorem computes_comparisonOp? (h : comparisonOp? op x = some code) : code.computes = true := by
  cases op <;> cases x <;> cases h <;> rfl

theorem computes_binaryOp? (h : binaryOp? op x = some code) : code.computes = true := by
  cases op <;> cases x <;> cases h <;> rfl

theorem computes_unaryOp? (h : unaryOp? op x = some code) : code.computes = true := by
  cases op <;> cases x <;> cases h <;> rfl

theorem computes_resizeOp? (h : resizeOp? x = some code) : code.computes = true := by
  cases x <;> cases h <;> rfl

theorem computes_toFloatOp? (h : toFloatOp? x = some code) : code.computes = true := by
  cases x <;> cases h <;> rfl

theorem computes_of_bind {α : Type} {a : Option α} {choose : α → Option Op}
    (hchoose : ∀ x code, choose x = some code → code.computes = true)
    (h : a.bind choose = some code) : code.computes = true := by
  obtain ⟨x, -, hx⟩ := Option.bind_eq_some_iff.mp h
  exact hchoose x code hx

/-! ## Parts of lowerings -/

namespace Steps

variable {asm : Assembler} {K : Standing → Lowering → Prop} {inst : Instruction} {c : Standing}
  (S : Steps asm K inst) (source : Instruction)
include S

theorem resultType (id : ResultId) :
    TurnsOr (Spirv.requireType asm source id) (K c) (fun n => K (c.learn [.type n])) (Ends K) :=
  (S.requireType source id).ends

theorem typeOr {F : Lowering → Prop} {n : ModuleId} (id : ResultId) (h : .type n ∈ c.facts) :
    TurnsOr (Spirv.requireType asm source id <|> pure n) (K c) (fun n =>
      K (c.learn [.type n])) F := by
  refine (S.requireType source id).orElse (.pure fun _ hs => S.forget (fun f hf => ?_) hs)
  rcases List.mem_cons.mp hf with rfl | hf
  · exact h
  · exact hf

theorem comparisonType (operandType : ResultId) :
    Turns (Lower.ofBuild (comparisonType asm operandType)) (K c) := by
  refine turns_ofBuild_bind (S.basicType rfl rfl rfl rfl) fun bool => ?_
  split
  · exact (S.vectorType List.mem_cons_self _).weaken fun _ _ hs => S.forget (fun _ hf => by simp [hf]) hs
  · exact fun _ hs => S.forget (fun _ hf => List.mem_append_right _ hf) hs

theorem fillValue (inner : TypeHandle) (values : List ModuleId) :
    TurnsOr (fillValue asm source inner values) (K c) (fun _ => K c) (Ends K) := by
  unfold Spirv.fillValue
  split
  · exact .pure fun _ hs => hs
  · have helement : TurnsOr ((do Spirv.lowerType asm (← orGiveUp (asm.types.idOf? inner)))
        <|> Spirv.giveUp source "array element type has no SPIR-V form") (K c)
        (fun n => K (c.learn [.type n])) (Ends K) := by
      have hrefused : TurnsOr (Spirv.giveUp source "array element type has no SPIR-V form") (K c)
          (fun n => K (c.learn [.type n])) (Ends K) := (S.giveUp source _).ends
      refine .orElse ?_ hrefused
      cases asm.types.idOf? inner with
      | none => exact fun _ hs => hs
      | some id => exact S.lowerType id
    refine helement.bind fun element => .lift ((S.null List.mem_cons_self).weaken ?_)
    exact fun _ _ hs => S.forget (fun _ hf => by simp [hf]) hs

theorem loadPlace (place : Place) (n : ModuleId) :
    Turns (do if ← Spirv.load source place n then Spirv.setPlace inst.id place) (K (c.owing [n]))
      fun _ => K c := by
  refine (S.load source place n).bind fun written => ?_
  split
  · exact S.setPlace place
  · exact fun _ hs => hs

theorem readThrough (hid : source.id = inst.id) (h : .type type ∈ c.facts) (place : Place)
    (indices : List ModuleId) (result : ModuleId) :
    Turns (readThrough source place type indices result) (K (c.owing [result])) fun _ =>
      Ends K := by
  refine .bind (S.pointerType (c := c.owing [result]) h _) fun pointer => ?_
  refine .bind S.fresh fun chain => ?_
  refine .bind (S.result rfl rfl) fun written => ?_
  rw [hid]
  split
  · exact (S.loadPlace (c := c.learn [.type pointer]) source _ result).weaken fun _ _ hs => ⟨_, hs⟩
  · exact fun _ hs => ⟨_, hs⟩

theorem perVertexChain {pointee : ModuleId} (h : .type pointee ∈ c.facts)
    (block : ModuleId) (index : UInt32) : TurnsOr (do
      let position ← onModule (.word true index)
      let pointer ← onModule (.pointerType .output pointee)
      let chain ← onModule .fresh
      let written ← emit source
        { op := .accessChain, resultType := some pointer, result := some chain,
          operands := [.id block, .id position] }
      guard written
      return ({ pointer := chain, storage := .output, pointee } : Place)) (K c) (fun _ => K c)
      (Ends K) := by
  refine .bind (.lift (S.word true index)) fun position => ?_
  refine .bind (.lift (S.pointerType h .output)) fun pointer => ?_
  refine .bind (.lift S.fresh) fun chain => ?_
  refine .bind (.lift (S.result rfl rfl)) fun written => ?_
  cases written with
  | false => exact fun _ hs => ⟨_, hs⟩
  | true => exact fun _ hs => S.forget (fun _ hf => List.mem_append_right _ hf) hs

theorem perVertexPlace (hop : movesInterface inst.opcode) (b : BuiltIn) (index : UInt32) :
    TurnsOr (perVertexPlace source b index) (K c) (fun _ => K c) (Ends K) := by
  refine .bind (.lift (S.builtInType _)) fun pointee => ?_
  refine .bind (.lift (S.perVertexBlock hop)) fun block => ?_
  refine (S.perVertexChain source List.mem_cons_self block index).weaken (fun _ _ hs => ?_) fun _ hs => hs
  exact S.forget (fun _ hf => List.mem_append_right _ hf) hs

theorem parameterTypes (args : List Instruction) :
    TurnsOr (args.mapM fun arg => (some <$> Spirv.requireType asm arg arg.refs.fst) <|> pure none)
      (K c) (fun types => K (c.learn ((types.filterMap id).map .type))) (Ends K) := by
  induction args generalizing c with
  | nil =>
    rw [List.mapM_nil]
    exact fun _ hs => hs
  | cons arg rest ih =>
    rw [List.mapM_cons]
    have hfirst : TurnsOr ((some <$> Spirv.requireType asm arg arg.refs.fst) <|> pure none) (K c)
        (fun o => K (c.learn (o.toList.map .type))) (Ends K) :=
      TurnsOr.orElse (.map (S.requireType arg _)) fun _ hs => hs
    refine hfirst.bind fun o => ih.bind fun types => .pure fun _ hs => ?_
    refine S.forget (fun f hf => ?_) hs
    cases o <;> simp [or_left_comm] at hf ⊢ <;> exact hf

omit S in
/-- What hands a result to the output of a stage is computed, and fits. -/
def IsStore (i : Inst) : Prop := i.op.computes = true ∧ i.fits = true

theorem storeResult (hop : movesInterface inst.opcode) (stage : ShaderStage)
    (htype : .type type ∈ c.facts) (result : ModuleId) :
    Turns (storeResult source stage type result) (K c) fun stores s =>
      (∀ i ∈ stores.toList, IsStore i) ∧ K (c.owing (results stores.toList)) s := by
  unfold Spirv.storeResult
  split
  · refine (S.perVertexBlock hop).bind fun block => ?_
    refine .bind (S.word true 0) fun first => ?_
    refine .bind (S.dropped (S.pointerType htype _)) fun pointer => ?_
    refine .bind S.fresh fun position => .pure fun _ hs => ⟨fun i hi => ?_, hs⟩
    simp only [List.mem_cons, List.not_mem_nil, or_false] at hi
    rcases hi with rfl | rfl <;> exact ⟨rfl, rfl⟩
  · refine (S.fragColorOutput hop htype).bind fun color => .pure fun _ hs => ⟨fun i hi => ?_, hs⟩
    rw [List.mem_singleton.mp hi]
    exact ⟨rfl, rfl⟩
  · exact (S.problem source _).bind fun _ => .pure fun _ hs =>
      ⟨nofun, hs⟩

omit S in
theorem isFunction_wrapper {header label call ret last : Inst} {stores : List Inst}
    (hheader : header.op = .function) (hlabel : label.op = .label)
    (hcall : call.op.role = .computation) (hstores : ∀ i ∈ stores, i.op.role = .computation)
    (hret : ret.op.role = .terminator) (hlast : last.op = .functionEnd) :
    IsFunction ([header, label, call] ++ stores ++ [ret, last]) := by
  refine ⟨header, [], label, [], call :: stores ++ [ret], [], last, by simp, hheader,
    nofun, nofun, ?_, areBlocks_nil, hlast⟩
  refine ⟨label :: call :: stores, ret, rfl, ⟨label, call :: stores, rfl, hlabel, ?_⟩, hret⟩
  exact List.forall_mem_cons.mpr ⟨hcall, hstores⟩

theorem wrapEntry (hop : inst.opcode = .stageEnd) (stage : ShaderStage) (target : ModuleId) :
    Turns (wrapEntry asm source stage target) (K c) := by
  unfold Spirv.wrapEntry
  extract_lets resultType returns
  refine Turns.bind (S.basicType rfl rfl rfl rfl) fun void => ?_
  extract_lets wrap
  have hwrap : ∀ type facts, (∀ f ∈ (c.learn [.type void]).facts, f ∈ facts) → .type type ∈ facts →
      Turns (wrap type) (K { c with facts }) fun _ => K c := by
    intro type facts hfacts htype
    have hforget : ∀ s, K { c with facts } s → K c s := fun _ hs =>
      S.forget (fun _ hf => hfacts _ (List.mem_append_right _ hf)) hs
    refine Turns.bind
      (S.dropped (S.functionType (hfacts _ List.mem_cons_self) (List.forall_mem_nil _)))
        fun functionType => ?_
    refine Turns.bind S.fresh fun main => Turns.bind S.fresh fun label => ?_
    refine Turns.bind S.fresh fun result => ?_
    extract_lets write
    have hwrite : ∀ stores : Array Inst, Turns (write stores) (fun s =>
        (∀ i ∈ stores.toList, IsStore i) ∧ K (Standing.owing { c with facts }
          (results stores.toList ++ [result, label, main])) s) fun _ => K c := by
      rintro stores s ⟨hstores, hs⟩
      refine (Turns.bind (S.appendFunction hop ?_ ?_ ?_) fun _ =>
        (Turns.bind (S.remark rfl rfl rfl (.inr rfl)) fun _ =>
        Turns.pure fun _ hs => hforget _ hs : Turns _ (K { c with facts }) fun _ => K c)) s hs
      · rw [Array.toList_append, Array.toList_append]
        exact isFunction_wrapper rfl rfl rfl (fun i hi => Op.role_of_computes (hstores i hi).1) rfl rfl
      · intro i hi
        simp only [Array.toList_append, List.mem_append, List.mem_cons, List.not_mem_nil, or_false] at hi
        rcases hi with ((rfl | rfl | rfl) | hi) | rfl | rfl
        · rfl
        · rfl
        · rfl
        · exact (hstores i hi).2
        · rfl
        · rfl
      · refine List.perm_iff_count.mpr fun n => ?_
        simp only [Array.toList_append, results_append, List.count_append]
        simp only [results, List.filterMap_cons, List.filterMap_nil, List.count_cons, List.count_nil]
        omega
    have hnone : ∀ s, K (Standing.owing { c with facts } [result, label, main]) s →
        (∀ i ∈ (#[] : Array Inst).toList, IsStore i) ∧ K (Standing.owing { c with facts }
          (results (#[] : Array Inst).toList ++ [result, label, main])) s :=
      fun _ hs => ⟨List.forall_mem_nil _, hs⟩
    split
    · exact fun s hs => hwrite #[] s (hnone s hs)
    · split
      · refine (S.storeResult source (.inl (.inr hop)) stage htype result).bind fun stores s hs =>
          hwrite stores s ⟨hs.1, ?_⟩
        simpa only [Standing.owing, List.append_assoc, List.cons_append, List.nil_append] using hs.2
      · exact (S.problem source _).bind fun _ s hs => hwrite #[] s (hnone s hs)
  split
  · have htype : Turns ((·.getD void) <$> (Spirv.lowerType asm resultType).run) (K (c.learn [.type void]))
        fun n => K ((c.learn [.type void]).learn [.type n]) := by
      refine Turns.map (Turns.weaken (S.lowerType resultType) fun o _ hs => ?_)
      cases o with
      | some n => exact hs
      | none => exact S.forget (fun _ hf => by simpa using hf) hs
    refine htype.bind fun type => ?_
    exact hwrap type (.type type :: .type void :: c.facts) (fun _ hf => List.mem_cons_of_mem _ hf)
      List.mem_cons_self
  · apply Turns.pure_bind
    exact hwrap void (.type void :: c.facts) (fun _ hf => hf) List.mem_cons_self

end Steps

/-! ## Two lowerings side by side -/

/-- An instruction whose lowering takes the steps of `base`, next to one that differs from it in ids
    only. -/
structure Lane (a b : Assembler) (P T : ResultId → ResultId → Prop) (K : Standing → Lowering → Prop)
    (k i : Nat) (base inst inst' : Instruction) : Prop extends Pair a b P T i inst inst' where
  steps : Steps a K base
  id : inst.id = base.id
  types : TypeTwins a.types b.types T

variable {a b : Assembler} {P T : ResultId → ResultId → Prop} {K : Standing → Lowering → Prop} {k i : Nat}
  {base inst inst' : Instruction}

/-- An instruction next to itself. -/
theorem Steps.lane (S : Steps a K base) (inst : Instruction) (h : inst.id = base.id) (i : Nat) :
    Lane a a Eq Eq K 0 i base inst inst :=
  ⟨.refl a i inst, S, h, .refl _⟩

namespace Lane

/-- From `c`, the first lowering takes its steps up to some standing, and the second runs alike. -/
def Joint (_ : Lane a b P T K k i base inst inst') (c : Standing) (x y : Attempt Unit) : Prop :=
  Finishes K c x ∧ TwinT a b P T k x y

abbrev Runs (L : Lane a b P T K k i base inst inst') (c : Standing)
    (lower : [WordLimit] → Assembler → Instruction → Attempt Unit) : Prop :=
  L.Joint c (lower a inst) (@lower (wider k) b inst')

section

variable {L : Lane a b P T K k i base inst inst'} {α : Type} {c : Standing} {d : α →
  Standing} {f g : α → Attempt Unit}

theorem bind {x y : Attempt α} (hx : TurnsOr x (K c) (fun v => K (d v)) (Ends K))
    (hy : TwinT a b P T k x y) (hf : ∀ v, L.Joint (d v) (f v) (g v)) :
    L.Joint c (x >>= f) (y >>= g) :=
  ⟨Finishes.bind hx fun v => (hf v).1, hy.bind fun v => (hf v).2⟩

theorem next {x y : Lower α} (hx : Turns x (K c) fun v => K (d v)) (hy : Twin a b P T k x y)
    (hf : ∀ v, L.Joint (d v) (f v) (g v)) : L.Joint c (liftM x >>= f) (liftM y >>= g) :=
  bind (.lift hx) (.lift hy) hf

theorem build {x y : Build α} [Builds k x y] (hx : Turns (Lower.ofBuild x) (K c) fun v => K (d v))
    (hf : ∀ v, L.Joint (d v) (f v) (g v)) : L.Joint c (onModule x >>= f) (onModule y >>= g) :=
  next hx alike_ofBuild hf

theorem last {x y : Lower Unit} {d : Standing} (hx : Turns x (K c) fun _ => K d)
    (hy : Twin a b P T k x y) :
    L.Joint c (liftM x) (liftM y) := ⟨Finishes.last hx, AlikeT.lift hy⟩

theorem ended {x y : Lower Unit} (hx : Turns x (K c) fun _ => Ends K) (hy : Twin a b P T k x y) :
    L.Joint c (liftM x) (liftM y) := ⟨TurnsOr.lift hx, AlikeT.lift hy⟩

theorem done : L.Joint c (pure ()) (pure ()) := ⟨Finishes.pure, AlikeT.pure ()⟩

theorem ite {p q : Prop} [Decidable p] [Decidable q] {x y x' y' : Attempt Unit} (h : p ↔ q)
    (hx : L.Joint c x y) (hx' : L.Joint c x' y') :
    L.Joint c (if p then x else x') (if q then y else y') := by
  refine ⟨?_, AlikeT.ite h (fun _ => hx.2) fun _ => hx'.2⟩
  split
  · exact hx.1
  · exact hx'.1

/-- A lowering may ask for the module and the stage, on which both sides agree, and what it finds is
    known. -/
theorem get_bind {f g : Lowering → Attempt Unit}
    (h : ∀ s t, t.module = s.module → t.stage = s.stage → ∃ d,
      (K c s → K d s) ∧ L.Joint d (f s) (g t)) : L.Joint c (get >>= f) (get >>= g) := by
  refine ⟨Finishes.get_bind_of fun s => ?_, alikeT_get fun s t hs => ?_⟩
  · obtain ⟨d, hd, hf⟩ := h s s rfl rfl
    exact ⟨d, hd, hf.1⟩
  · obtain ⟨d, -, hf⟩ := h s t hs.module hs.stage
    exact hf.2

theorem given {o : Option α} (h : ∀ v, L.Joint c (f v) (g v)) :
    L.Joint c (orGiveUp o >>= f) (orGiveUp o >>= g) := by
  refine ⟨Finishes.orGiveUp_bind fun v => (h v).1, ?_⟩
  cases o with
  | none => exact .failure
  | some v => exact (h v).2

end

variable (L : Lane a b P T K k i base inst inst') {c : Standing} {r r' : ResultId}
include L

theorem described (hr : T r r') : Described a b r r' := Spirv.described L.types hr

section

variable {f g : ModuleId → Attempt Unit} {n : ModuleId} {j : Inst} {m m' : String}

theorem typed (hr : T r r') (h : ∀ n, L.Joint (c.learn [.type n]) (f n) (g n)) :
    L.Joint c (requireType a inst r >>= f) (@requireType (wider k) b inst' r' >>= g) :=
  bind (L.steps.resultType inst r) (alike_requireType L.types inst inst' hr) h

theorem valued (hr : P r r') (h : ∀ n, L.Joint c (f n) (g n)) :
    L.Joint c (liftM (value a inst r) >>= f) (liftM (@value (wider k) b inst' r') >>= g) :=
  next (L.steps.value inst r) (alike_value inst inst' hr) h

theorem asked (hr : P r r') (h : ∀ n, L.Joint (c.learn [.known n]) (f n) (g n)) :
    L.Joint c (liftM (idFor r) >>= f) (liftM (idFor r') >>= g) :=
  next (L.steps.idFor r) (alike_idFor hr) h

theorem owned (hc : c.awaited = true) (h : ∀ n, L.Joint (c.taking n) (f n) (g n)) :
    L.Joint c (liftM (idFor inst.id) >>= f) (liftM (idFor inst'.id) >>= g) :=
  next (L.id ▸ L.steps.own hc) (alike_idFor L.own.pair) h

theorem placed {f g : Option Place → Attempt Unit} (hr : P r r')
    (h : ∀ place, L.Joint c (f place) (g place)) :
    L.Joint c (OptionT.lift (placeOf? r) >>= f) (OptionT.lift (placeOf? r') >>= g) :=
  next (turns_placeOf? r) (alike_placeOf? hr) h

theorem refused : L.Joint c (liftM (problem inst m)) (liftM (problem inst' m')) :=
  last (L.steps.problem inst m) (alike_problem inst inst' m m')

theorem noted {f g : Unit → Attempt Unit} (h : ∀ u, L.Joint c (f u) (g u)) :
    L.Joint c (liftM (problem inst m) >>= f) (liftM (problem inst' m') >>= g) :=
  next (L.steps.problem inst m) (alike_problem inst inst' m m') h

/-- A problem that only one side may have is recorded before both go on. -/
theorem noted_if {p q : Prop} [Decidable p] [Decidable q] {f g : Unit → Attempt Unit}
    (h : L.Joint c (f ()) (g ())) : L.Joint c (if p then do let u ← problem inst m; f u else f ())
      (if q then do let u ← problem inst' m'; g u else g ()) := by
  refine ⟨?_, alike_maybeProblem inst inst' m m' h.2⟩
  split
  · exact .next (L.steps.problem inst m) fun _ => h.1
  · exact h.1

theorem quits {f g : Unit → Attempt Unit} (h : ∀ u, L.Joint c (f u) (g u)) :
    L.Joint c (giveUp inst m >>= f) (giveUp inst' m' >>= g) :=
  bind (L.steps.giveUp inst m).ends (alike_giveUp inst inst' m m') h

theorem emits (hop : j.op.computes = true) (hj : j.result = some n) :
    L.Joint (c.owing [n]) (liftM (emitAnd inst j)) (liftM (@emitAnd (wider k) inst' j)) :=
  last (L.steps.emitAnd hop hj) (alike_emitAnd inst inst' j)

theorem emitsResult {j : ModuleId → Inst} (hc : c.awaited = true)
    (hop : ∀ n, (j n).op.computes = true) (hj : ∀ n, (j n).result = some n) :
    L.Joint c (do let n ← idFor inst.id; emitAnd inst (j n) : Attempt Unit)
      (do let n ← idFor inst'.id; @emitAnd (wider k) inst' (j n) : Attempt Unit) :=
  L.owned hc fun n => L.emits (c := { c with awaited := false }) (hop n) (hj n)

theorem terminates (hop : j.op.role = .terminator) (hj : j.result = none) :
    L.Joint c (liftM (terminate inst j)) (liftM (@terminate (wider k) inst' j)) :=
  last (L.steps.terminate hop hj) (alike_terminate inst inst' j)

theorem settled (hc : c.awaited = true) (h : .known n ∈ c.facts) :
    Turns (bindId inst.id n) (K c) fun _ => Ends K :=
  L.id ▸ L.steps.bindId hc h

theorem places (p : Place) : L.Joint c (liftM (setPlace inst.id p)) (liftM (setPlace inst'.id p)) :=
  last (L.id ▸ L.steps.setPlace p) (alike_setPlace L.own p)

theorem placed_next (p : Place) {f g : Unit → Attempt Unit} (h : ∀ u, L.Joint c (f u) (g u)) :
    L.Joint c (liftM (setPlace inst.id p) >>= f) (liftM (setPlace inst'.id p) >>= g) :=
  next (L.id ▸ L.steps.setPlace p) (alike_setPlace L.own p) h

end

/-! ## Operators and conversions -/

section

variable (hc : c.awaited = true)

theorem operator {f g : Operator → Attempt Unit} (h : ∀ op, L.Joint c (f op) (g op)) :
    L.Joint c (operatorOf inst >>= f) (operatorOf inst' >>= g) := by
  unfold operatorOf
  rw [L.operands]
  extract_lets code
  cases Operator.ofCode? code.toNat with
  | some op => exact h op
  | none => exact bind (L.steps.giveUp inst _).ends (alike_giveUp inst inst' _ _) h

include hc

theorem joint_comparison (op : Operator) (hr : T r r') :
    L.Joint c (comparison a inst op r) (@comparison (wider k) b inst' op r') := by
  unfold comparison
  rw [(L.described hr).scalarOf?_eq]
  split
  · exact L.refused
  next code hcode =>
    have htype : @comparisonType (wider k) b r' = @comparisonType (wider k) a r := by
      unfold comparisonType
      rw [L.types.ofId? hr]
    rw [htype]
    refine build (L.steps.comparisonType r) fun type => ?_
    refine L.valued L.fst.pair fun lhs => L.valued L.snd.pair fun rhs => ?_
    exact L.emitsResult hc (fun _ => computes_of_bind (fun _ _ => computes_comparisonOp?) hcode) fun _ => rfl

theorem joint_compare : L.Runs c compare := L.operator fun op => L.joint_comparison hc op L.resultType

theorem joint_binary : L.Runs c binary := by
  refine L.operator fun op => ?_
  split
  · exact L.joint_comparison hc op L.fst.typeOf
  · refine L.typed L.resultType fun type => ?_
    rw [(L.described L.resultType).scalarOf?_eq]
    refine L.valued L.fst.pair fun lhs => L.valued L.snd.pair fun rhs => ?_
    refine L.owned hc fun result => ?_
    split
    · split
      · exact build L.steps.extInstSet fun set => L.emits rfl rfl
      · exact L.refused
    · split
      next code hcode => exact L.emits (computes_of_bind (fun _ _ => computes_binaryOp?) hcode) rfl
      next => exact L.refused

theorem joint_unary : L.Runs c unary := by
  refine L.operator fun op => L.typed L.resultType fun type => ?_
  rw [(L.described L.resultType).scalarOf?_eq]
  refine L.valued L.fst.pair fun v => L.owned hc fun result => ?_
  split
  · exact build L.steps.extInstSet fun set => L.emits rfl rfl
  next code _ hcode => exact L.emits (computes_of_bind (fun _ _ => computes_unaryOp?) hcode) rfl
  · exact L.refused

theorem joint_convertBy {choose : Scalar → Option Op}
    (hchoose : ∀ x code, choose x = some code → code.computes = true) :
    L.Runs c (convertBy · · choose) := by
  refine L.typed L.resultType fun type => ?_
  extract_lets source source'
  have hsource : scalarOf? b source' = scalarOf? a source := (L.described L.fst.typeOf).scalarOf?_eq
  rw [hsource]
  split
  · exact L.refused
  next code hcode =>
    refine L.valued L.fst.pair fun v => ?_
    exact L.emitsResult hc (fun _ => computes_of_bind hchoose hcode) fun _ => rfl

theorem joint_bitcast : L.Runs c (convertBy · · fun _ => some .bitcast) :=
  L.joint_convertBy hc fun _ _ h => by cases h; rfl

theorem joint_changeSign : L.Runs c changeSign := by
  refine ite ?_ (L.joint_bitcast hc) L.refused
  rw [(L.described L.fst.typeOf).scalarOf?_eq, (L.described L.resultType).scalarOf?_eq]

/-! ## Literals and composites -/

theorem joint_aliasConstant {x y : Build ModuleId} [Builds k x y]
    (h : Turns (Lower.ofBuild x) (K c) fun n => K (c.learn [.known n, .constant n])) :
    L.Joint c (liftM (aliasConstant inst x)) (liftM (aliasConstant inst' y)) :=
  ended (h.bind fun _ => L.settled hc List.mem_cons_self)
    (alike_ofBuild.bind fun n => alike_bindId L.own n)

theorem joint_boolLiteral : L.Runs c boolLiteral := by
  refine L.typed L.resultType fun type => ?_
  rw [L.operands]
  extract_lets op
  refine L.joint_aliasConstant (by exact hc) (L.steps.plainConstant List.mem_cons_self ?_ rfl rfl)
  unfold op
  split <;> rfl

theorem joint_intLiteral : L.Runs c intLiteral := by
  refine L.typed L.resultType fun type => ?_
  rw [(L.described L.resultType).scalarOf?_eq, L.toPair.wide]
  split
  iterate 2 exact L.joint_aliasConstant (by exact hc) (L.steps.number List.mem_cons_self _)
  · exact L.refused

theorem joint_floatLiteral : L.Runs c floatLiteral := by
  refine L.typed L.resultType fun type => ?_
  rw [(L.described L.resultType).scalarOf?_eq, L.toPair.wide]
  split
  · exact L.joint_aliasConstant (by exact hc) (L.steps.number List.mem_cons_self _)
  · exact L.refused

theorem joint_nullValue : L.Runs c nullValue :=
  L.typed L.resultType fun _ => L.joint_aliasConstant (by exact hc) (L.steps.null List.mem_cons_self)

theorem joint_cast : L.Runs c cast := by
  refine ite (by rw [(L.described L.fst.typeOf).scalarOf?_eq]) ?_ (L.joint_bitcast hc)
  -- From a truth value: both constants are of the type asked for.
  refine L.typed L.resultType fun type => ?_
  rw [(L.described L.resultType).scalarOf?_eq]
  split
  · exact L.refused
  · refine build (L.steps.dropped (L.steps.number List.mem_cons_self _)) fun onTrue => ?_
    refine build (L.steps.number List.mem_cons_self _) fun onFalse => ?_
    exact L.valued L.fst.pair fun condition => L.emitsResult hc (fun _ => rfl) fun _ => rfl

omit hc in
theorem values {insts insts' : List Instruction} {f g : List ModuleId → Attempt Unit}
    (h : List.Forall₂ (fun x y => P x.refs.fst y.refs.fst ∧ T x.refs.fst y.refs.fst) insts insts')
    (hf : ∀ ns, L.Joint c (f ns) (g ns)) :
    L.Joint c ((insts.mapM fun arg => liftM (value a arg arg.refs.fst)) >>= f)
      ((insts'.mapM fun arg => liftM (@value (wider k) b arg arg.refs.fst)) >>= g) :=
  bind (L.steps.values insts) (alike_values (h.imp fun _ _ harg => harg.1)) hf

theorem joint_construct (hop : inst.opcode.trailer? = some .constructArg) :
    L.Joint c (construct a i inst) (@construct (wider k) b i inst') := by
  unfold construct
  rw [L.operands]
  have hargs := L.trailers inst.operands.fst.toNat hop
  extract_lets count args write args' write'
  have hwrite : L.Joint c (write ()) (write' ()) :=
    L.typed L.resultType fun type => L.owned hc fun result =>
      L.values hargs fun values => L.emits rfl rfl
  exact L.noted_if hwrite

omit hc in
theorem fills (inner : TypeHandle) (values : List ModuleId) {f g : ModuleId → Attempt Unit}
    (h : ∀ n, L.Joint c (f n) (g n)) :
    L.Joint c (fillValue a inst inner values >>= f)
      (@fillValue (wider k) b inst' inner values >>= g) :=
  bind (L.steps.fillValue inst inner values) (alike_fillValue inst inst' L.types inner values) h

theorem joint_arrayLiteral (hop : inst.opcode.trailer? = some .arrayElem) :
    L.Runs c (arrayLiteral · i) := by
  refine L.typed L.resultType fun type => ?_
  rw [L.types.ofId? L.resultType, L.operands]
  have helements := L.trailers inst.operands.fst.toNat hop
  split
  next inner length _ =>
    extract_lets length elements finish read elements' finish' read'
    have hfinish : ∀ values, L.Joint (c.learn [.type type]) (finish values) (finish' values) := by
      intro values
      refine get_bind fun s t hmodule _ => ?_
      rw [hmodule]
      extract_lets m
      split
      next hall =>
        -- Only values that are found to be constants become parts of a constant.
        refine ⟨_, L.steps.found (List.all_eq_true.mp hall), L.joint_aliasConstant (by exact hc) ?_⟩
        refine L.steps.constantIn rfl (Op.takes_map_id (fun _ => rfl) _) (by simp) (.inr ⟨rfl, fun n hn => ?_⟩)
        rw [operandIds_map_id] at hn
        exact List.mem_append_left _ (List.mem_map_of_mem hn)
      next => exact ⟨_, fun hs => hs, L.emitsResult hc (fun _ => rfl) fun _ => rfl⟩
    have hread : ∀ u, L.Joint (c.learn [.type type]) (read u) (read' u) := by
      intro u
      refine L.values helements fun values => ?_
      extract_lets taken fit fit'
      have hfit : L.Joint (c.learn [.type type]) (fit ()) (fit' ()) := by
        unfold fit fit'
        split
        · exact L.fills inner taken fun fill => hfinish _
        · exact hfinish _
      exact L.noted_if hfit
    split
    · exact L.quits hread
    · exact hread ()
  next => exact L.refused

theorem joint_swizzle : L.Runs c swizzle := by
  refine L.typed L.resultType fun type => ?_
  rw [L.operands]
  extract_lets count lanes pick pick'
  have hpick : ∀ u, L.Joint (c.learn [.type type]) (pick u) (pick' u) := by
    intro u
    refine L.valued L.fst.pair fun vector => L.owned hc fun result => ?_
    split
    · exact L.emits rfl rfl
    · exact L.emits rfl rfl
  split
  · exact L.quits hpick
  · exact hpick ()

/-! ## Reading and writing -/

omit hc in
theorem joint_assign :
    L.Joint c (assign a inst) (@assign (wider k) b inst') := by
  unfold assign
  extract_lets target write target' write'
  have hwrite : ∀ u, L.Joint c (write u) (write' u) := by
    intro u
    refine L.placed L.fst.pair fun place => ?_
    split
    · exact L.refused
    · exact L.valued L.snd.pair fun v => last (L.steps.store inst _ v) (alike_store inst inst' _ v)
  refine next (turns_isParam target) (alike_isParam L.fst.pair) fun param => ?_
  split
  · exact L.quits hwrite
  · exact hwrite ()

omit hc in
theorem loads (place : Place) (n : ModuleId) : L.Joint (c.owing [n])
      (do if ← load inst place n then setPlace inst.id place)
      (do if ← @load (wider k) inst' place n then setPlace inst'.id place) := by
  refine next (L.steps.load inst place n) (alike_load inst inst' place n) fun written => ?_
  split
  · exact L.places place
  · exact done

theorem joint_readVariable : L.Joint c (readVariable inst) (@readVariable (wider k) inst') := by
  unfold readVariable
  extract_lets var var'
  refine next (turns_isParam var) (alike_isParam L.fst.pair) fun param => ?_
  split
  · exact L.asked L.fst.pair fun n => ended (L.settled hc List.mem_cons_self) (alike_bindId L.own n)
  · refine L.placed L.fst.pair fun place => ?_
    split
    · exact L.refused
    · exact L.owned hc fun result => L.loads _ result

omit hc in
theorem readsThrough (h : .type type ∈ c.facts) (place : Place) (indices : List ModuleId)
    (result : ModuleId) :
    L.Joint (c.owing [result]) (liftM (readThrough inst place type indices result))
      (liftM (@readThrough (wider k) inst' place type indices result)) :=
  ended (L.steps.readThrough inst L.id h place indices result)
    (L.toPair.alike_readThrough place type indices result)

theorem joint_member : L.Runs c member := by
  refine L.typed L.resultType fun type => ?_
  rw [L.operands]
  extract_lets index
  refine L.owned hc fun result => L.placed L.fst.pair fun place => ?_
  split
  · exact build (L.steps.word true index) fun position => L.readsThrough List.mem_cons_self _ _ result
  · exact L.valued L.fst.pair fun base => L.emits rfl rfl

omit hc in
theorem mapped {f g : Option ModuleId → Attempt Unit} (hr : P r r')
    (h : ∀ n, L.Joint c (f n) (g n)) :
    L.Joint c ((some <$> OptionT.lift (value a inst r)) >>= f)
      ((some <$> OptionT.lift (@value (wider k) b inst' r')) >>= g) :=
  ⟨Finishes.map_bind (L.steps.read inst r) fun n => (h n).1,
    (AlikeT.map (.lift (alike_value inst inst' hr))).bind fun n => (h n).2⟩

theorem joint_element : L.Runs c element := by
  refine L.typed L.resultType fun type => L.valued L.snd.pair fun first => ?_
  extract_lets read read'
  have hread : ∀ second, L.Joint (c.learn [.type type]) (read second) (read' second) := by
    intro second
    refine L.owned hc fun result => L.placed L.fst.pair fun place => ?_
    split
    · exact L.readsThrough List.mem_cons_self _ _ result
    · refine ite (by rw [(L.described L.fst.typeOf).isVector_eq]) ?_ L.refused
      exact L.valued L.fst.pair fun base => L.emits rfl rfl
  refine ite (by rw [L.thd.void]) (hread none) ?_
  exact L.mapped L.thd.pair hread

theorem joint_readBuiltIn (x : BuiltIn) (place : Place) : L.Runs c (readBuiltIn · · x place) := by
  refine L.typed L.resultType fun type => L.owned hc fun result => ?_
  split
  · exact L.loads place result
  · refine ite (by rw [(L.described L.resultType).canReinterpret_eq]) ?_ L.refused
    refine build L.steps.fresh fun loaded => ?_
    refine next (L.steps.load inst place loaded) (alike_load inst inst' place loaded) fun written => ?_
    split
    · exact L.emits rfl rfl
    · exact done

theorem joint_builtInValue (hop : movesInterface base.opcode)
    (hplace : ∀ stage x, Turns (builtInPlace stage x) (K c)) :
    L.Joint c (builtInValue a inst) (@builtInValue (wider k) b inst') := by
  unfold builtInValue
  rw [L.operands]
  extract_lets code
  split
  · exact L.refused
  next x _ =>
    refine get_bind fun s t _ hstage => ⟨c, fun hs => hs, ?_⟩
    rw [hstage]
    refine given fun stage => ?_
    extract_lets read read'
    have hread : ∀ place, L.Joint c (read place) (read' place) := L.joint_readBuiltIn hc x
    split
    · exact bind (L.steps.perVertexPlace inst hop x _) (alike_perVertexPlace inst inst' x _) hread
    · exact next (hplace stage x) (alike_builtInPlace stage x) hread

theorem joint_readLane (lane : UInt32) (place : Place) : L.Runs c (readLane · · lane place) := by
  refine build (L.steps.intType 32 false) fun word => ?_
  refine bind (L.steps.typeOr inst _ List.mem_cons_self)
    ((alike_requireType L.types inst inst' L.resultType).orElse (.pure word)) fun type => ?_
  refine build (L.steps.word false lane) fun index => L.owned hc fun result => ?_
  extract_lets chase chase'
  -- The lane itself is the result unless its bits are reinterpreted.
  have hchase : ∀ loaded (c : Standing), .type word ∈ c.facts → (type ≠ word → ∃ owed, c.owed = result :: owed) →
      L.Joint (c.owing [loaded]) (chase loaded) (chase' loaded) := by
    intro loaded c hword howed
    refine build (L.steps.pointerType (c := c.owing [loaded]) hword .input) fun pointer => ?_
    refine build L.steps.fresh fun chain => ?_
    refine next (L.steps.result rfl rfl) (alike_emit inst inst' _) fun written => ?_
    split
    · refine next (L.steps.load (c := c.learn [.type pointer]) inst _ loaded) (alike_load inst inst' _ loaded)
        fun written => ?_
      split
      · split
        next htype =>
          obtain ⟨owed, heq⟩ := howed (by simpa using htype)
          obtain ⟨awaited, _, facts, held⟩ := c
          cases heq
          exact L.emits (c := ⟨awaited, owed, .type pointer :: facts, held⟩) rfl rfl
        next => exact done
      · exact done
    · exact done
  split
  next htype => exact hchase result _ (by simp) fun hne => absurd htype hne
  next => exact build L.steps.fresh fun loaded => hchase loaded _ (by simp) fun _ => ⟨_, rfl⟩

theorem joint_invocationLane (x : BuiltIn) (hplace : ∀ stage, Turns (builtInPlace stage x) (K c)) :
    L.Runs c (invocationLane · · x) := by
  refine get_bind fun s t _ hstage => ⟨c, fun hs => hs, ?_⟩
  rw [hstage]
  refine given fun stage => next (hplace stage) (alike_builtInPlace stage x) fun place => ?_
  rw [L.operands]
  extract_lets lane read read'
  have hread : ∀ u, L.Joint c (read u) (read' u) := fun _ => L.joint_readLane hc lane place
  split
  · exact L.quits hread
  · exact hread ()

/-! ## Functions and variables -/

omit hc in
theorem takes (hop : movesFunction base.opcode) {f g : Option OpenFunction → Attempt Unit}
    (hnone : L.Joint { c with held := none } (f none) (g none))
    (hsome : ∀ x source,
      L.Joint { c with held := some x } (f (some x)) (g (some { x with source }))) :
    L.Joint c (OptionT.lift takeFunction >>= f) (OptionT.lift takeFunction >>= g) := by
  refine ⟨Finishes.next (L.steps.takeFunction hop) fun o => ?_,
    alikeT_takeFunction hnone.2 fun x source => (hsome x source).2⟩
  cases o with
  | none => exact hnone.1
  | some x => exact (hsome x x.source).1

theorem joint_beginFunction (hop : base.opcode = .function)
    (hargs : inst.opcode.trailer? = some .functionArg) :
    L.Joint c (beginFunction a i inst) (@beginFunction (wider k) b i inst') := by
  unfold beginFunction
  rw [L.operands]
  replace hargs := L.trailers inst.operands.fst.toNat hargs
  extract_lets count args start args' start'
  have hstart : ∀ u c, c.awaited = true → L.Joint c (start u) (start' u) := by
    intro u c hc
    refine build (L.steps.basicType rfl rfl rfl rfl) fun void => ?_
    -- A result type that cannot be lowered is taken for void, which is declared by then.
    refine bind (L.steps.typeOr inst _ List.mem_cons_self)
      ((alike_requireType L.types inst inst' L.fst.type).orElse (.pure void)) fun result => ?_
    extract_lets declare declare'
    have hdeclare : L.Joint ((c.learn [.type void]).learn [.type result]) (declare ()) (declare' ()) := by
      refine bind (L.steps.parameterTypes args) (.mapM hargs fun arg arg' harg => ?_) fun types => ?_
      · exact (AlikeT.map (alike_requireType L.types arg arg' harg.2)).orElse (.pure none)
      refine build (L.steps.functionType (by simp) fun n hn => ?_) fun type => L.owned hc fun function => ?_
      · exact List.mem_append_left _ (List.mem_map_of_mem hn)
      · rw [L.id]
        exact last (L.steps.openFunction _ hop rfl rfl rfl) (alike_openFunction _ _ _ _)
    exact L.noted_if hdeclare
  refine L.takes (.inl hop) (hstart () _ hc) fun outer source => L.noted fun _ => ?_
  exact next (L.steps.closeFunction (.inl hop)) (alike_closeFunction outer source) fun u => hstart u _ hc

theorem joint_parameter (hop : base.opcode = .functionArg) : L.Runs c parameter := by
  refine bind (L.steps.lowerType _).ends (alike_lowerType L.types L.fst.type) fun type => ?_
  refine L.owned hc fun param => ?_
  refine next (L.id ▸ L.steps.addParam hop) (alike_addParam L.own) fun _ => ?_
  refine ⟨Finishes.get_bind fun s => ?_, alikeT_get fun s t hs => .ite ?_ (fun _ => ?_) fun _ => alikeT_problem⟩
  · extract_lets isOpen
    split
    · exact .last (L.steps.addParameter hop rfl rfl rfl)
    · exact .last (L.steps.problem inst _)
  · rcases hs.function_cases with ⟨hf, hg⟩ | ⟨f, source, hf, hg⟩
    · rw [hf, hg]
    · rw [hf, hg]
  · exact .lift (alike_modifyFunction fun _ _ => rfl)

omit hc in
theorem joint_endFunction (hop : base.opcode = .functionEnd) :
    L.Joint c (endFunction inst) (endFunction inst') :=
  L.takes (.inr hop) L.refused fun f source =>
    L.noted_if (last (L.steps.closeFunction (.inr hop)) (alike_closeFunction f source))

theorem joint_call (hop : base.opcode = .call) (hargs : inst.opcode.trailer? = some .callArg) :
    L.Joint c (call a i inst) (@call (wider k) b i inst') := by
  unfold call
  rw [L.operands]
  replace hargs := L.trailers inst.operands.fst.toNat hargs
  extract_lets count args write args' write'
  have hwrite : L.Joint c (write ()) (write' ()) := by
    refine L.typed L.resultType fun type => L.asked L.fst.pair fun callee => ?_
    refine L.owned hc fun result => L.values hargs fun values => ?_
    exact last ((L.steps.call hop rfl).bind fun _ => .pure fun _ hs => hs) (alike_emitAnd inst inst' _)
  exact L.noted_if hwrite

omit hc in
theorem declares {pointee : ModuleId} {init : Option ModuleId} {storage : StorageClass}
    {f g : ModuleId → Place → Attempt Unit} (hc : c.awaited = true)
    (hpointee : .type pointee ∈ c.facts) (hinit : ∀ n ∈ init.toList, .constant n ∈ c.facts)
    (hf : ∀ var place, L.Joint { c with awaited := false } (f var place) (g var place)) :
    L.Joint c (do
        let var ← idFor inst.id
        let place ← declareVariable inst var storage pointee init
        f var place)
      (do
        let var ← idFor inst'.id
        let place ← @declareVariable (wider k) inst' var storage pointee init
        g var place) :=
  L.owned hc fun var => bind (L.steps.declareVariable (c := { c with awaited := false }) hpointee hinit)
    (alike_declareVariable inst inst' var storage pointee init) (hf var)

theorem joint_localVariable : L.Runs c localVariable := by
  refine L.typed L.fst.type fun pointee => ?_
  rw [L.operands]
  extract_lets shared storage source declare source' declare'
  have hdeclare : ∀ init, L.Joint (c.learn [.type pointee]) (declare init) (declare' init) := by
    intro init
    refine get_bind fun s t hmodule _ => ?_
    rw [hmodule]
    extract_lets m constant
    -- Only a value that is found to be a constant starts a shared variable.
    have hconstant : ∀ n ∈ constant.toList, s.module.isConstant n = true := by
      intro n hn
      have htest := (Option.filter_eq_some_iff.mp (Option.mem_toList.mp hn)).2
      exact (Bool.and_eq_true _ _ ▸ htest).2
    clear_value constant
    refine ⟨_, L.steps.found hconstant, L.declares hc (by simp) (fun n hn => ?_) fun var place => ?_⟩
    · exact List.mem_append_left _ (List.mem_map_of_mem hn)
    · refine L.placed_next place fun _ => ?_
      split
      · exact last (L.steps.store inst _ _) (alike_store inst inst' _ _)
      · exact done
  exact ite (by rw [L.snd.void]) (hdeclare none) (L.mapped L.snd.pair hdeclare)

theorem joint_globalVariable : L.Runs c globalVariable := by
  refine L.typed L.fst.type fun pointee => ?_
  extract_lets source declare source' declare'
  have hdeclare : ∀ init facts, (∀ n ∈ init.toList, .constant n ∈ facts) →
      L.Joint ((c.learn [.type pointee]).learn facts) (declare init) (declare' init) := by
    intro init facts hinit
    refine L.declares hc (by simp) (fun n hn => List.mem_append_left _ (hinit n hn)) ?_
    exact fun _ place => L.places place
  have hnone := hdeclare none [] nofun
  refine ite (by rw [L.snd.void]) hnone (L.valued L.snd.pair fun v => get_bind fun s t hmodule _ => ?_)
  rw [hmodule]
  split
  next hv =>
    -- The test is made in the state in which the variable is declared.
    exact ⟨_, L.steps.found (List.forall_mem_singleton.mpr hv),
      hdeclare (some v) _ fun n hn => List.mem_map_of_mem hn⟩
  next => exact ⟨_, fun hs => hs, L.noted fun _ => hnone⟩

theorem joint_interfaceVariable (hop : movesInterface base.opcode) :
    L.Runs c interfaceVariable := by
  refine L.typed L.fst.type fun pointee => ?_
  rw [L.opcode, L.operands]
  extract_lets storage
  refine L.declares hc List.mem_cons_self nofun fun var place => ?_
  refine build (L.steps.remark rfl rfl rfl (.inr rfl)) fun _ => L.placed_next place fun _ => ?_
  exact last (L.steps.addInterface hop var) (alike_addInterface var)

theorem joint_descriptor :
    L.Joint c (descriptor a inst) (@descriptor (wider k) b inst') := by
  unfold descriptor
  extract_lets type type'
  refine L.typed L.fst.type fun pointee => ?_
  rw [L.operands]
  extract_lets declare declare'
  have hdeclare : ∀ u, L.Joint (c.learn [.type pointee]) (declare u) (declare' u) := by
    intro u
    refine L.declares hc List.mem_cons_self nofun fun var place => ?_
    iterate 2 refine build (L.steps.remark rfl rfl rfl (.inr rfl)) fun _ => ?_
    exact L.places place
  have hlayout : Option.Rel (LayoutTwins T) (a.types.layoutOf? type) (b.types.layoutOf? type') :=
    L.types.layoutOf? L.fst.type
  generalize a.types.layoutOf? type = layout at hlayout ⊢
  generalize b.types.layoutOf? type' = layout' at hlayout ⊢
  cases hlayout with
  | none => exact L.noted hdeclare
  | @some layout layout' hl =>
    dsimp only
    rw [L.types.memberExtents hl]
    split
    · exact next L.steps.overflow (.modify (fun _ h => h) fun s t hs =>
        { hs with offsetOverflow := rfl }) hdeclare
    · refine build (L.steps.markBlock pointee) fun _ => ?_
      refine bind (.forM _ fun e => .lift (L.steps.remark rfl rfl rfl (.inr rfl))) ?_ hdeclare
      exact .forM (List.forall₂_same.mpr fun _ _ => rfl) fun e e' he => he ▸ alike_onModule

/-! ## Control flow -/

theorem joint_label : L.Runs c fun _ => label :=
  L.owned hc fun n => last L.steps.beginBlock (alike_beginBlock inst inst' n)

end

theorem joint_jump : L.Runs c fun _ => jump :=
  L.asked L.fst.pair fun _ => L.terminates rfl rfl

theorem joint_branch : L.Runs c branch :=
  L.valued L.fst.pair fun _ => L.asked L.snd.pair fun _ => L.asked L.thd.pair fun _ =>
    L.terminates rfl rfl

theorem joint_loopMerge : L.Runs c fun _ => loopMerge :=
  L.asked L.fst.pair fun _ => L.asked L.snd.pair fun _ =>
    last (L.steps.effect rfl rfl) (alike_emitAnd inst inst' _)

theorem joint_returnValue : L.Runs c returnValue := L.valued L.fst.pair fun _ => L.terminates rfl rfl

/-! ## Stages -/

theorem joint_beginStage (hop : base.opcode = .stageBegin) (hinst : inst.opcode = .stageBegin)
    (hown : base.operands = inst.operands) :
    L.Joint c (beginStage a i inst) (beginStage b i inst') := by
  have hvars := L.interface hinst
  unfold beginStage
  rw [L.operands]
  extract_lets code vars vars'
  split
  · exact L.refused
  next stage hstage =>
    have hopens : opens? base = some stage := by
      rw [opens?, if_pos hop, hown]
      exact hstage
    refine get_bind fun s t _ hopen => ⟨c, fun hs => hs, ?_⟩
    rw [hopen]
    extract_lets enter start enter' start'
    have henter : L.Joint c (enter ()) (enter' ()) := by
      refine bind (.mapM _ fun id => .lift (L.steps.idFor_only id))
        (.mapM hvars fun _ _ hr => .lift (alike_idFor hr)) fun interface => ?_
      refine build (L.steps.addEntryPoint (.inl (.inl hop)) _) fun entry => ?_
      exact last (L.steps.setStage (.inl hop) _) (.modify (fun _ h => h) fun s t hs => { hs with stage := rfl })
    have hstart : ∀ u, L.Joint c (start u) (start' u) := by
      intro u
      refine bind (.forM_option fun x hx => .lift (L.steps.capability (.inr ?_)))
        (.forM_option fun x => alike_onModule) fun _ => ?_
      · rw [hopens, Option.bind_some, hx]
      refine bind (.forM_option fun x hx => .lift (L.steps.extension ?_))
        (.forM_option fun x => alike_onModule) fun _ => ?_
      · rw [hopens, Option.bind_some, hx]
      exact L.noted_if henter
    split
    · exact L.noted hstart
    · exact hstart ()

theorem joint_endStage (hop : base.opcode = .stageEnd) (hinst : inst.opcode = .stageEnd) :
    L.Joint c (endStage a inst) (@endStage (wider k) b inst') := by
  unfold endStage
  rw [L.operands]
  refine get_bind fun s t _ hstage => ⟨c, fun hs => hs, ?_⟩
  rw [hstage]
  split
  · exact L.refused
  next stage entry _ =>
    refine next (L.steps.idFor_only _) (alike_idFor L.fst.pair) fun target => ?_
    extract_lets close close'
    have hclose : ∀ function, L.Joint c (close function) (close' function) := by
      intro function
      unfold close close'
      extract_lets leave
      have hleave : ∀ u, L.Joint c (leave u) (leave u) := fun _ =>
        build (L.steps.modifyEntryPoint (.inl (.inr hop)) _ _) fun _ =>
          last (L.steps.setStage (.inr hop) none) (.modify (fun _ h => h) fun s t hs => { hs with stage := rfl })
      split
      · exact build (L.steps.remark rfl rfl rfl (.inr rfl)) hleave
      · split
        · exact build (L.steps.remark rfl rfl rfl (.inr rfl)) hleave
        · exact hleave ()
    split
    · exact next (L.steps.wrapEntry inst hop stage target)
        (L.toPair.alike_wrapEntry L.types hinst stage target) hclose
    · exact hclose target

omit L in
/-- **The lowering of an instruction follows its rules**, whatever its opcode, and next to a paired
    instruction it runs alike. -/
theorem joint_attempt (L : Lane a b P T K k i inst inst inst')
    (hc : hasResult inst.opcode = true → c.awaited = true) :
    L.Joint c (attempt a i inst) (@attempt (wider k) b i inst') := by
  have hown : ∀ {op}, inst.opcode = op → hasResult op = true → c.awaited = true :=
    fun hop h => hc (hop ▸ h)
  unfold attempt
  rw [L.opcode]
  cases hop : inst.opcode with
  | unknown | callArg | structMember | structEnd | constructArg | arrayElem => exact done
  | voidType | floatType | sintType | uintType | arrayType | vectorType | matrixType | structType
  | boolType | pointerType | tupleType => exact L.typed L.ownType fun _ => done
  | stageBegin => exact L.joint_beginStage hop hop rfl
  | stageEnd => exact L.joint_endStage hop hop
  | functionEnd => exact L.joint_endFunction hop
  | jump => exact L.joint_jump
  | branch => exact L.joint_branch
  | loopMerge => exact L.joint_loopMerge
  | assign => exact L.joint_assign
  | ret | discard => exact L.terminates rfl rfl
  | retValue => exact L.joint_returnValue
  | boolLit => exact L.joint_boolLiteral (hown hop rfl)
  | floatLit => exact L.joint_floatLiteral (hown hop rfl)
  | intLit => exact L.joint_intLiteral (hown hop rfl)
  | stringLit => exact L.refused
  | null | zero => exact L.joint_nullValue (hown hop rfl)
  | function => exact L.joint_beginFunction (hown hop rfl) hop (by rw [hop]; rfl)
  | functionArg => exact L.joint_parameter (hown hop rfl) hop
  | localVar => exact L.joint_localVariable (hown hop rfl)
  | globalVar => exact L.joint_globalVariable (hown hop rfl)
  | inputVar | outputVar =>
    exact L.joint_interfaceVariable (hown hop rfl) (by simp [movesInterface, hop])
  | descriptorVar => exact L.joint_descriptor (hown hop rfl)
  | call => exact L.joint_call (hown hop rfl) hop (by rw [hop]; rfl)
  | label => exact L.joint_label (hown hop rfl)
  | compare => exact L.joint_compare (hown hop rfl)
  | cast => exact L.joint_cast (hown hop rfl)
  | construct => exact L.joint_construct (hown hop rfl) (by rw [hop]; rfl)
  | deref | readVar => exact L.joint_readVariable (hown hop rfl)
  | expand => exact L.joint_convertBy (hown hop rfl) fun _ _ => computes_resizeOp?
  | intToFloat => exact L.joint_convertBy (hown hop rfl) fun _ _ => computes_toFloatOp?
  | binary => exact L.joint_binary (hown hop rfl)
  | unary => exact L.joint_unary (hown hop rfl)
  | invokePos | invokeSize =>
    exact L.joint_invocationLane (hown hop rfl) _ (L.steps.builtInPlace (by simp [movesBuiltIns, hop]) · _)
  | builtIn =>
    exact L.joint_builtInValue (hown hop rfl) (by simp [movesInterface, hop]) (L.steps.builtInPlace (.inl hop))
  | arrayLit => exact L.joint_arrayLiteral (hown hop rfl) (by rw [hop]; rfl)
  | member => exact L.joint_member (hown hop rfl)
  | toSigned | toUnsigned => exact L.joint_changeSign (hown hop rfl)
  | element => exact L.joint_element (hown hop rfl)
  | swizzle => exact L.joint_swizzle (hown hop rfl)

end Lane

/-! ## The end of the stream -/

namespace Steps

variable {asm : Assembler} {c : Standing} (S : Steps asm K inst)
include S

theorem finishes_attempt (hc : hasResult inst.opcode = true → c.awaited = true) (i : Nat) :
    Finishes K c (attempt asm i inst) := ((S.lane inst rfl i).joint_attempt hc).1

theorem closeAll (hop : inst.opcode = .functionEnd) : Turns closeAll (K c) fun _ => Ends K := by
  unfold Spirv.closeAll
  refine .bind (S.takeFunction (.inr hop)) fun f => ?_
  extract_lets leave
  have hleave : ∀ u c, Turns (leave u) (K c) fun _ => Ends K := by
    intro u c
    refine .get_bind fun s => ?_
    split
    · exact (S.report _).weaken fun _ _ hs => ⟨c, hs⟩
    · exact fun _ hs => ⟨c, hs⟩
  split
  · refine .bind (S.report _) fun _ => ?_
    exact .bind (S.closeFunction (.inr hop)) fun u => hleave u _
  · exact hleave () _

theorem writeNames : Turns (writeNames asm) (K c) := by
  refine .forM fun e => .get_bind fun s => ?_
  split
  · exact S.remark rfl rfl rfl (.inr rfl)
  · exact fun _ hs => hs

end Steps

theorem lowerAll_of {asm : Assembler} {P : Lowering → Prop}
    (hstream : P (lowerFrom asm 0 asm.code.toList {}).1) (hclose : ∀ s, P s → P (closeAll.run s).2)
    (hnames : ∀ s, P s → P ((writeNames asm).run s).2) :
    P (lowerAll asm).1 := by
  unfold lowerAll
  split
  next s fatal hend =>
    rw [hend] at hstream
    cases fatal with
    | some e => exact hstream
    | none => exact hnames _ (hclose s hstream)

/-! ## Disciplines that keep the rules -/

namespace Rules

variable {asm : Assembler} {D : Discipline Lowering} {Ok : ModuleId → Lowering → Prop}
  {Fn : OpenFunction → Lowering → Prop} {inst : Instruction} {s0 : Lowering} {α : Type}

/-- What is known in a standing, if the lowering began in `s0` and keeps a discipline. -/
structure Holds (D : Discipline Lowering) (Ok : ModuleId → Lowering → Prop)
    (Fn : OpenFunction → Lowering → Prop) (s0 : Lowering) (c : Standing) (s : Lowering) : Prop where
  grows : D.Grows s0 s
  inv : D.Inv s
  owed : ∀ n ∈ c.owed, Ok n s
  known : ∀ n, .known n ∈ c.facts → Ok n s
  held : ∀ f, c.held = some f → Fn f s

section

variable (R : Rules asm D Ok Fn inst) {c : Standing}
include R

variable {x : Lower α}

theorem turns {d : α → Standing} {Q : α → Lowering → Prop}
    (hx : ∀ s, Holds D Ok Fn s0 c s → D.Runs x s Q)
    (howed : ∀ a s, Q a s → ∀ n ∈ (d a).owed, n ∈ c.owed ∨ Ok n s)
    (hknown : ∀ a s, Q a s → ∀ n, .known n ∈ (d a).facts → .known n ∈ c.facts ∨ Ok n s)
    (hheld : ∀ a s, Q a s → ∀ f, (d a).held = some f → c.held = some f ∨ Fn f s) :
    Turns x (Holds D Ok Fn s0 c) fun a => Holds D Ok Fn s0 (d a) := by
  intro s hs
  obtain ⟨hgrows, hinv, hpost⟩ := hx s hs hs.inv
  refine ⟨D.trans hs.grows hgrows, hinv, fun n hn => ?_, fun n hn => ?_, fun f hf => ?_⟩
  · exact (howed _ _ hpost n hn).elim (fun h => R.mono hgrows (hs.owed n h)) id
  · exact (hknown _ _ hpost n hn).elim (fun h => R.mono hgrows (hs.known n h)) id
  · exact (hheld _ _ hpost f hf).elim (fun h => R.fnMono hgrows (hs.held f h)) id

theorem turns_keeps (hx : D.Keeps x) : Turns x (Holds D Ok Fn s0 c) :=
  R.turns (fun s _ => hx s) (fun _ _ _ _ h => .inl h) (fun _ _ _ _ h => .inl h) fun _ _ _ _ h => .inl h

theorem turns_type {x : Lower ModuleId} (hx : D.Keeps x) :
    Turns x (Holds D Ok Fn s0 c) fun n => Holds D Ok Fn s0 (c.learn [.type n]) :=
  R.turns (fun s _ => hx s) (fun _ _ _ _ h => .inl h)
    (fun _ _ _ _ h => .inl (by simpa using h)) fun _ _ _ _ h => .inl h

theorem turns_pays {owed : List ModuleId} (hx : ∀ s, (∀ n ∈ owed, Ok n s) → D.Runs x s) :
    Turns x (Holds D Ok Fn s0 (c.owing owed)) fun _ => Holds D Ok Fn s0 c :=
  R.turns (fun s hs => hx s fun n hn => hs.owed n (List.mem_append_left _ hn))
    (fun _ _ _ _ h => .inl (List.mem_append_right _ h)) (fun _ _ _ _ h => .inl h) fun _ _ _ _ h => .inl h

theorem turns_pays_one {n : ModuleId} (hx : ∀ {s}, Ok n s → D.Runs x s) :
    Turns x (Holds D Ok Fn s0 (c.owing [n])) fun _ => Holds D Ok Fn s0 c :=
  R.turns_pays fun _ h => hx (h n List.mem_cons_self)

/-- **Rules are steps.** -/
theorem steps (s0 : Lowering) : Steps asm (Holds D Ok Fn s0) inst where
  forget h hs := { hs with known := fun n hn => hs.known n (h _ hn) }
  found _ hs := { hs with known := fun n hn => hs.known n (by simpa using hn) }
  report p := R.turns_keeps (R.report p)
  fresh := R.turns (fun s _ => R.fresh s)
    (fun _ _ hn m hm => (List.mem_cons.mp hm).elim (fun h => .inr (h ▸ hn)) .inl)
    (fun _ _ _ _ h => .inl h) fun _ _ _ _ h => .inl h
  idFor id := R.turns (fun s _ => R.idFor id s) (fun _ _ _ _ h => .inl h)
    (fun _ _ hn m hm => (List.mem_cons.mp hm).elim (fun h => .inr (by cases h; exact hn)) .inl)
    fun _ _ _ _ h => .inl h
  own _ := R.turns (fun s _ => R.idFor inst.id s)
    (fun _ _ hn m hm => (List.mem_cons.mp hm).elim (fun h => .inr (h ▸ hn)) .inl)
    (fun _ _ _ _ h => .inl h) fun _ _ _ _ h => .inl h
  bindId {c n} _ h := (R.turns (d := fun _ => c) (fun _ hs => R.bindId (hs.known n h))
    (fun _ _ _ _ h => .inl h) (fun _ _ _ _ h => .inl h) fun _ _ _ _ h => .inl h).weaken fun _ _ hs => ⟨c, hs⟩
  setPlace p := R.turns_keeps (R.setPlace p)
  addParam hop := R.turns_keeps (R.addParam hop)
  note hop _ hf := R.turns_keeps (R.note hop hf)
  overflow := R.turns_keeps R.overflow
  setStage hop stage := R.turns_keeps (R.setStage hop stage)
  lowerType {c} id s hs := by
    obtain ⟨hgrows, hinv, -⟩ := R.lowerType id s hs.inv
    have hend : Holds D Ok Fn s0 c ((Spirv.lowerType asm id).run.run s).2 :=
      ⟨D.trans hs.grows hgrows, hinv, fun n hn => R.mono hgrows (hs.owed n hn),
        fun n hn => R.mono hgrows (hs.known n hn), fun f hf => R.fnMono hgrows (hs.held f hf)⟩
    change ((Spirv.lowerType asm id).run.run s).1.elim _ _
    cases ((Spirv.lowerType asm id).run.run s).1 with
    | none => exact hend
    | some n => exact { hend with known := fun m hm => hend.known m (by simpa using hm) }
  capability hx := R.turns_keeps (R.capability hx)
  extension hx := R.turns_keeps (R.extension hx)
  intType width signed := R.turns_type (R.intType width signed)
  floatType width := R.turns_type (R.floatType width)
  type hop hplain htakes _ := R.turns_type fun _ => R.type hop hplain htakes fun _ _ => trivial
  newType htakes _ := R.turns_type (R.newType _ htakes)
  constantIn hop htakes _ hsec := by
    refine R.turns (fun s _ => R.constantIn s (hsec.imp (·.1) (·.1)) ?_ hop htakes)
      (fun _ _ _ _ h => .inl h) (fun _ _ hn m hm => ?_) fun _ _ _ _ h => .inl h
    · exact hsec.elim (·.2.2) fun h => by rw [h.1]; exact decide_eq_true hop
    · simp only [List.cons_append, List.nil_append, List.mem_cons, Fact.known.injEq, reduceCtorEq,
        false_or] at hm
      exact hm.elim (fun h => .inr (h ▸ hn)) .inl
  extInstSet := R.turns_keeps R.extInstSet
  remark hsec hop hi hmark := R.turns_keeps (R.remark hsec hop hi hmark)
  global hop hi _ := R.turns_pays_one (R.global hop hi)
  block id := R.turns_keeps (R.block id)
  addEntryPoint hop e := R.turns_keeps (R.addEntryPoint hop e)
  modifyEntryPoint hop i f := R.turns_keeps (R.modifyEntryPoint hop i f)
  compute hop := R.turns_pays fun _ h => R.compute hop fun n hn => h n (Option.mem_toList.mpr hn)
  call hinst hop := R.turns_pays fun _ h => R.call hinst hop fun n hn => h n (Option.mem_toList.mpr hn)
  terminate hop hi := R.turns_keeps (R.terminate hop hi)
  beginBlock := R.turns_pays_one R.beginBlock
  addLocal hlocal hfits hi := R.turns_pays_one (R.addLocal hlocal hfits hi)
  addParameter hinst hop hfits hi := R.turns_pays_one (R.addParameter hinst hop hfits hi)
  openFunction returnsVoid hinst hop hfits hi :=
    R.turns_pays_one (R.openFunction returnsVoid hinst hop hfits hi)
  takeFunction hop := R.turns (fun s _ => R.takeFunction hop s) (fun _ _ _ _ h => .inl h)
    (fun _ _ _ _ h => .inl h) fun _ _ hf f h => .inr (hf f h)
  closeFunction hop := R.turns (fun _ hs => R.closeFunction hop (hs.held _ rfl))
    (fun _ _ _ _ h => .inl h) (fun _ _ _ _ h => .inl h) fun _ _ _ _ h => by cases h
  appendFunction hop hfunction hfits hperm := R.turns_pays fun _ h =>
    R.appendFunction hop hfunction fun i hi => ⟨hfits i hi, fun n hn =>
      h n (hperm.subset (List.mem_filterMap.mpr ⟨i, hi, hn⟩))⟩

omit R in
theorem runs_of_turns {Q : α → Prop} (types : List ModuleId)
    (hx : ∀ s0, Turns x (Holds D Ok Fn s0 { facts := types.map .type })
      fun a s => Q a ∧ Ends (Holds D Ok Fn s0) s) (s : Lowering) : D.Runs x s fun a _ => Q a := by
  intro hs
  have hstart : Holds D Ok Fn s { facts := types.map .type } s :=
    ⟨D.refl s, hs, nofun, fun _ hn => by simp at hn, fun _ hf => by cases hf⟩
  obtain ⟨hpost, c, hc⟩ := hx s s hstart
  exact ⟨hc.grows, hc.inv, hpost⟩

omit R in
theorem keeps_of_turns (types : List ModuleId)
    (hx : ∀ s0, Turns x (Holds D Ok Fn s0 { facts := types.map .type })
      fun _ => Ends (Holds D Ok Fn s0)) : D.Keeps x :=
  runs_of_turns types fun s0 => (hx s0).weaken fun _ _ hs => ⟨trivial, hs⟩

omit R in
theorem attempts_of_turnsOr {x : Attempt α} (types : List ModuleId)
    (hx : ∀ s0, TurnsOr x (Holds D Ok Fn s0 { facts := types.map .type })
      (fun _ => Ends (Holds D Ok Fn s0)) (Ends (Holds D Ok Fn s0))) : D.Attempts x := fun s =>
  Runs.mono (keeps_of_turns types (fun s0 => (hx s0).run) s) fun _ _ _ _ _ _ => trivial

theorem attempts_attempt (i : Nat) : D.Attempts (attempt asm i inst) :=
  attempts_of_turnsOr [] fun s0 => (R.steps s0).finishes_attempt (fun _ => rfl) i

theorem lowerInstruction {s : Lowering} (h : D.Inv s) (i : Nat) :
    D.Grows s (lowerInstruction asm i inst s) ∧ D.Inv (lowerInstruction asm i inst s) := by
  obtain ⟨hgrows, hinv, -⟩ := R.attempts_attempt i s h
  exact ⟨hgrows, hinv⟩

omit R in
theorem lowerFrom (hrules : ∀ inst, Rules asm D Ok Fn inst) (insts : List Instruction) (i : Nat)
    {s : Lowering} (h : D.Inv s) :
    D.Grows s (lowerFrom asm i insts s).1 ∧ D.Inv (lowerFrom asm i insts s).1 := by
  induction insts generalizing i s with
  | nil => exact ⟨D.refl s, h⟩
  | cons inst rest ih =>
    rw [Spirv.lowerFrom]
    split
    · exact ⟨D.refl s, h⟩
    · obtain ⟨hgrows, hinv⟩ := (hrules inst).lowerInstruction h i
      obtain ⟨hgrows', hinv'⟩ := ih (i + 1) hinv
      exact ⟨D.trans hgrows hgrows', hinv'⟩

theorem keeps_closeAll (hop : inst.opcode = .functionEnd) : D.Keeps closeAll :=
  keeps_of_turns [] fun s0 => (R.steps s0).closeAll hop

theorem keeps_writeNames : D.Keeps (writeNames asm) :=
  keeps_of_turns [] fun s0 => (R.steps s0).writeNames.weaken fun _ _ hs => ⟨_, hs⟩

omit R in
/-- **Emission** keeps the discipline from an empty state to the end. -/
theorem lowerAll (hrules : ∀ inst, Rules asm D Ok Fn inst) (h : D.Inv {}) :
    D.Grows {} (lowerAll asm).1 ∧ D.Inv (lowerAll asm).1 := by
  have R := hrules { opcode := .functionEnd }
  have hends : ∀ {x : Lower Unit}, D.Keeps x → ∀ s, D.Grows {} s ∧ D.Inv s →
      D.Grows {} (x.run s).2 ∧ D.Inv (x.run s).2 := by
    intro x hx s hs
    obtain ⟨hgrows, hinv, -⟩ := hx s hs.2
    exact ⟨D.trans hs.1 hgrows, hinv⟩
  exact lowerAll_of (lowerFrom hrules asm.code.toList 0 h) (hends (R.keeps_closeAll rfl))
    (hends R.keeps_writeNames)

end

end Rules

end ShaderIR.Spirv
