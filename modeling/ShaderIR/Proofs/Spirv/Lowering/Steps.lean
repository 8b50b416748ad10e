import ShaderIR.Proofs.Spirv.Lowering.Rules

/-!
# Where a lowering stands

Between two steps of a lowering something is known: which ids are **still to be defined**, which are
those of declared types and constants, whether the id of the instruction itself may still be asked
for.  `Steps` says how each step moves on from such a standing.
-/

namespace ShaderIR.Spirv

open Discipline Spirv.Module
open Lower (ofBuild)

variable {source : Instruction} {type : ModuleId} {operands : List Operand}

/-! ## Standings -/

/-- What is known of an id of the module, once it is known. -/
inductive Fact
  | known (n : ModuleId)
  | type (n : ModuleId)
  | constant (n : ModuleId)

/-- Where the lowering of an instruction stands. -/
structure Standing where
  /-- The id of the instruction may still be asked for in order to define it. -/
  awaited : Bool := true
  /-- Ids that were handed out and are to be defined, the last one first. -/
  owed : List ModuleId := []
  facts : List Fact := []
  held : Option OpenFunction := none

namespace Standing

abbrev learn (c : Standing) (facts : List Fact) : Standing := { c with facts := facts ++ c.facts }

abbrev owing (c : Standing) (owed : List ModuleId) : Standing := { c with owed := owed ++ c.owed }

/-- The id of the instruction was asked for, and is to be defined. -/
abbrev taking (c : Standing) (n : ModuleId) : Standing := owing { c with awaited := false } [n]

end Standing

/-! ## Steps from one state to another -/

/-- From states with `P`, a step leads to answers and states with `Q`. -/
def Turns {α : Type} (x : Lower α) (P : Lowering → Prop) (Q : α → Lowering → Prop := fun _ => P) :
    Prop :=
  ∀ s, P s → Q (x.run s).1 (x.run s).2

def TurnsOr {α : Type} (x : Attempt α) (P : Lowering → Prop) (Q : α → Lowering → Prop)
    (F : Lowering → Prop) : Prop :=
  Turns x.run P fun a s => a.elim (F s) fun v => Q v s

section

variable {α β : Type} {P : Lowering → Prop} {Q Q' : α → Lowering → Prop} {R : β → Lowering → Prop}
  {F F' : Lowering → Prop}

theorem Turns.bind {x : Lower α} {f : α → Lower β} (hx : Turns x P Q)
    (hf : ∀ a, Turns (f a) (Q a) R) : Turns (x >>= f) P R := fun s hs => hf _ _ (hx s hs)

theorem Turns.pure {a : α} (h : ∀ s, P s → Q a s) : Turns (pure a) P Q := h

theorem Turns.pure_bind {a : α} {f : α → Lower β} (h : Turns (f a) P R) :
    Turns (Pure.pure a >>= f) P R := h

theorem Turns.map {x : Lower α} {f : α → β} (hx : Turns x P fun a => R (f a)) :
    Turns (f <$> x) P R := hx

theorem Turns.get_bind {f : Lowering → Lower β} (hf : ∀ s, Turns (f s) P R) :
    Turns (get >>= f) P R := fun s => hf s s

theorem Turns.weaken {x : Lower α} (hx : Turns x P Q) (hQ : ∀ a s, Q a s → Q' a s) :
    Turns x P Q' := fun s hs => hQ _ _ (hx s hs)

theorem Turns.forM {l : List α} {f : α → Lower Unit} (hf : ∀ a, Turns (f a) P) :
    Turns (l.forM f) P := by
  induction l with
  | nil => exact .pure fun _ hs => hs
  | cons a rest ih => exact (hf a).bind fun _ => ih

theorem Turns.forM_option {o : Option α} {f : α → Lower Unit} (hf : ∀ a, Turns (f a) P) :
    Turns (o.forM f) P := by
  cases o with
  | none => exact .pure fun _ hs => hs
  | some a => exact hf a

theorem turns_ofBuild_bind {x : Build α} {f : α → Build β} (hx : Turns (ofBuild x) P Q)
    (hf : ∀ a, Turns (ofBuild (f a)) (Q a) R) : Turns (ofBuild (x >>= f)) P R :=
  hx.bind hf

theorem turns_ofBuild_get_bind {f : Module → Build α} (hf : ∀ m, Turns (ofBuild (f m)) P Q) :
    Turns (ofBuild (get >>= f)) P Q := fun s => hf s.module s

theorem TurnsOr.lift {x : Lower α} (h : Turns x P Q) : TurnsOr (liftM x) P Q F := h

theorem TurnsOr.pure {a : α} (h : ∀ s, P s → Q a s) : TurnsOr (pure a) P Q F := h

variable {x : Attempt α}

theorem TurnsOr.bind {f : α → Attempt β} (hx : TurnsOr x P Q F)
    (hf : ∀ a, TurnsOr (f a) (Q a) R F) : TurnsOr (x >>= f) P R F := by
  unfold TurnsOr
  rw [OptionT.run_bind, Option.elimM]
  refine .bind hx fun a => ?_
  cases a with
  | none => exact fun s hs => hs
  | some a => exact hf a

theorem TurnsOr.get_bind {f : Lowering → Attempt β} (hf : ∀ s, TurnsOr (f s) P R F) :
    TurnsOr (get >>= f) P R F := fun s => hf s s

theorem TurnsOr.weaken (hx : TurnsOr x P Q F) (hQ : ∀ a s, Q a s → Q' a s)
    (hF : ∀ s, F s → F' s) : TurnsOr x P Q' F' := by
  intro s hs
  have hend := hx s hs
  revert hend
  change (x.run.run s).1.elim _ _ → (x.run.run s).1.elim _ _
  cases (x.run.run s).1 with
  | none => exact hF _
  | some a => exact hQ a _

theorem TurnsOr.run (hx : TurnsOr x P (fun _ => F) F) : Turns x.run P fun _ => F := by
  intro s hs
  have hend := hx s hs
  revert hend
  change (x.run.run s).1.elim _ _ → _
  cases (x.run.run s).1 <;> exact id

theorem TurnsOr.orElse {x y : Attempt α} (hx : TurnsOr x P Q F') (hy : TurnsOr y F' Q F) :
    TurnsOr (x <|> y) P Q F := by
  unfold TurnsOr
  rw [OptionT.run_orElse, Option.elimM]
  refine .bind hx fun a => ?_
  cases a with
  | none => exact hy
  | some a => exact fun s hs => hs

theorem TurnsOr.map {f : α → β} (hx : TurnsOr x P (fun a => R (f a)) F) :
    TurnsOr (f <$> x) P R F := hx.bind fun _ => .pure fun _ hs => hs

theorem TurnsOr.mapM {f : β → Attempt α} (l : List β) (hf : ∀ b, TurnsOr (f b) P (fun _ => P) F) :
    TurnsOr (l.mapM f) P (fun _ => P) F := by
  induction l with
  | nil =>
    rw [List.mapM_nil]
    exact .pure fun _ hs => hs
  | cons b rest ih =>
    rw [List.mapM_cons]
    exact (hf b).bind fun _ => ih.bind fun _ => .pure fun _ hs => hs

theorem TurnsOr.forM {f : β → Attempt Unit} (l : List β)
    (hf : ∀ b, TurnsOr (f b) P (fun _ => P) F) : TurnsOr (l.forM f) P (fun _ => P) F := by
  induction l with
  | nil => exact .pure fun _ hs => hs
  | cons b rest ih => exact (hf b).bind fun _ => ih

theorem TurnsOr.forM_option {o : Option β} {f : β → Attempt Unit}
    (hf : ∀ b, o = some b → TurnsOr (f b) P (fun _ => P) F) :
    TurnsOr (o.forM f) P (fun _ => P) F := by
  cases o with
  | none => exact .pure fun _ hs => hs
  | some b => exact hf b rfl

theorem turns_isParam (id : ResultId) : Turns (isParam id) P := fun _ hs => hs

theorem turns_placeOf? (id : ResultId) : Turns (placeOf? id) P := by
  refine (turns_isParam id).bind fun b => ?_
  split
  · exact fun _ hs => hs
  · exact fun _ hs => hs

end

/-- A state in which some lowering may stand. -/
def Ends (K : Standing → Lowering → Prop) (s : Lowering) : Prop := ∃ c, K c s

/-- A lowering that goes on from `c` leads to some standing, also if it gives up. -/
def Finishes (K : Standing → Lowering → Prop) (c : Standing) (x : Attempt Unit) : Prop :=
  TurnsOr x (K c) (fun _ => Ends K) (Ends K)

section

variable {α : Type} {K : Standing → Lowering → Prop} {c : Standing} {c' : α → Standing}

theorem TurnsOr.ends {x : Attempt α} {P : Lowering → Prop} {Q : α → Lowering → Prop}
    (h : TurnsOr x P Q (K c)) : TurnsOr x P Q (Ends K) := h.weaken (fun _ _ hs => hs) fun _ hs => ⟨c, hs⟩

namespace Finishes

variable {f : α → Attempt Unit}

theorem bind {x : Attempt α}
    (hx : TurnsOr x (K c) (fun a => K (c' a)) (Ends K)) (hf : ∀ a, Finishes K (c' a) (f a)) :
    Finishes K c (x >>= f) := TurnsOr.bind hx hf

theorem next {x : Lower α} (hx : Turns x (K c) fun a => K (c' a))
    (hf : ∀ a, Finishes K (c' a) (f a)) : Finishes K c (liftM x >>= f) :=
  TurnsOr.bind (.lift hx) hf

theorem last {x : Lower Unit} {d : Standing} (hx : Turns x (K c) fun _ => K d) :
    Finishes K c (liftM x) := .lift (hx.weaken fun _ _ hs => ⟨d, hs⟩)

theorem pure : Finishes K c (pure ()) := TurnsOr.pure fun _ hs => ⟨c, hs⟩

theorem get_bind {f : Lowering → Attempt Unit} (hf : ∀ s, Finishes K c (f s)) :
    Finishes K c (get >>= f) := TurnsOr.get_bind hf

theorem get_bind_of {f : Lowering → Attempt Unit}
    (hf : ∀ s, ∃ d, (K c s → K d s) ∧ Finishes K d (f s)) : Finishes K c (get >>= f) := by
  intro s hs
  obtain ⟨d, hd, hfinish⟩ := hf s
  exact hfinish s (hd hs)

theorem map_bind {β : Type} {d : Standing} {x : Attempt α} {g : α → β} {f : β → Attempt Unit}
    (hx : TurnsOr x (K c) (fun _ => K d) (Ends K)) (hf : ∀ b, Finishes K d (f b)) :
    Finishes K c ((g <$> x) >>= f) := by
  have hmapped : TurnsOr (g <$> x) (K c) (fun _ => K d) (Ends K) := .map (R := fun _ => K d) hx
  exact .bind hmapped hf

theorem orGiveUp_bind {o : Option α} (h : ∀ a, Finishes K c (f a)) :
    Finishes K c (orGiveUp o >>= f) := by
  cases o with
  | none => exact fun _ hs => ⟨c, hs⟩
  | some a => exact h a

end Finishes

end

/-! ## The steps of lowering -/

/-- The opcodes whose instructions stand for something: types, values, variables, labels and
    functions. -/
def hasResult (op : Opcode) : Bool :=
  op.isType || op.isValue || op.isVar || op == .label || op == .function

/-- **How the steps of lowering `inst` move on.** -/
structure Steps (asm : Assembler) (K : Standing → Lowering → Prop) (inst : Instruction) : Prop where
  forget : ∀ {c facts s}, (∀ f ∈ c.facts, f ∈ facts) → K { c with facts } s → K c s
  found : ∀ {c s} {ns : List ModuleId}, (∀ n ∈ ns, s.module.isConstant n = true) → K c s →
    K (c.learn (ns.map .constant)) s
  report : ∀ {c} p, Turns (report p) (K c)
  -- Ids
  fresh : ∀ {c}, Turns (ofBuild .fresh) (K c) fun n => K (c.owing [n])
  idFor : ∀ {c} id, Turns (idFor id) (K c) fun n => K (c.learn [.known n])
  own : ∀ {c}, c.awaited = true → Turns (Spirv.idFor inst.id) (K c) fun n => K (c.taking n)
  bindId : ∀ {c n}, c.awaited = true → .known n ∈ c.facts → Turns (bindId inst.id n) (K c) fun _ => Ends K
  setPlace : ∀ {c} p, Turns (setPlace inst.id p) (K c)
  addParam : ∀ {c}, inst.opcode = .functionArg →
    Turns (modify fun s => { s with params := s.params.insert inst.id }) (K c)
  note : ∀ {c}, movesInterface inst.opcode → ∀ {f : Lowering → Lowering},
    (∀ s, Lowering.Notes s (f s)) → Turns (modify f) (K c)
  overflow : ∀ {c}, Turns (modify fun s => { s with offsetOverflow := true }) (K c)
  setStage : ∀ {c}, movesStage inst.opcode → ∀ stage, Turns (modify fun s => { s with stage }) (K c)
  -- Declarations
  lowerType : ∀ {c} id, TurnsOr (lowerType asm id) (K c) (fun n => K (c.learn [.type n])) (K c)
  capability : ∀ {c x}, movesBuiltIns inst.opcode ∨ (opens? inst).bind (·.capability?) = some x →
    Turns (ofBuild (.requireCapability x)) (K c)
  extension : ∀ {c x}, (opens? inst).bind (·.extension?) = some x →
    Turns (ofBuild (.requireExtension x)) (K c)
  intType : ∀ {c} width signed,
    Turns (ofBuild (.intType width signed)) (K c) fun n => K (c.learn [.type n])
  floatType : ∀ {c} width, Turns (ofBuild (.floatType width)) (K c) fun n => K (c.learn [.type n])
  type : ∀ {c op operands}, op.role = .type → Inst.capability? { op, operands } = none →
    op.takes operands = true →
    (∀ id ∈ operandIds operands, .type id ∈ c.facts ∨
      op = .typeArray ∧ operands[1]? = some (.id id) ∧ .constant id ∈ c.facts) →
    Turns (ofBuild (.type op operands)) (K c) fun n => K (c.learn [.type n])
  newType : ∀ {c operands}, Op.typeStruct.takes operands = true →
    (∀ id ∈ operandIds operands, .type id ∈ c.facts) →
    Turns (ofBuild (.newType .typeStruct operands)) (K c) fun n => K (c.learn [.type n])
  constantIn : ∀ {c sec type op operands}, op.role = .constant → op.takes operands = true →
    .type type ∈ c.facts → (sec = .types ∧ operandIds operands = [] ∧ sec.admits op = true ∨
      sec = .constants ∧ ∀ id ∈ operandIds operands, .constant id ∈ c.facts) →
    Turns (ofBuild (.constantIn sec type op operands)) (K c) fun n => K (c.learn [.known n, .constant n])
  extInstSet : ∀ {c}, Turns (ofBuild .extInstSet) (K c)
  remark : ∀ {c sec i}, sec.isRemark = true → sec.admits i.op = true → i.result = none →
    movesBuiltIns inst.opcode ∨ i.capability? = none → Turns (ofBuild (.emit sec i)) (K c)
  global : ∀ {c i n}, i.op = .variable → i.result = some n →
    (∀ id ∈ i.uses, .type id ∈ c.facts ∨ .constant id ∈ c.facts) →
    Turns (ofBuild (.emit .globals i)) (K (c.owing [n])) fun _ => K c
  block : ∀ {c} id, Turns (ofBuild (modify fun m => { m with blocks := id :: m.blocks })) (K c)
  addEntryPoint : ∀ {c}, movesInterface inst.opcode → ∀ e, Turns (ofBuild (.addEntryPoint e)) (K c)
  modifyEntryPoint : ∀ {c}, movesInterface inst.opcode → ∀ i f,
    Turns (ofBuild (.modifyEntryPoint i f)) (K c)
  -- Function bodies
  compute : ∀ {c source i}, i.op.computes = true →
    Turns (emit source i) (K (c.owing i.result.toList)) fun _ => K c
  call : ∀ {c source i}, inst.opcode = .call → i.op = .functionCall →
    Turns (emit source i) (K (c.owing i.result.toList)) fun _ => K c
  terminate : ∀ {c source i}, i.op.role = .terminator → i.result = none → Turns (terminate source i) (K c)
  beginBlock : ∀ {c source n}, Turns (beginBlock source n) (K (c.owing [n])) fun _ => K c
  addLocal : ∀ {c i n}, i.IsLocal → i.fits = true → i.result = some n →
    Turns (modifyFunction fun f => { f with locals := f.locals.push i }) (K (c.owing [n])) fun _ => K c
  addParameter : ∀ {c i n}, inst.opcode = .functionArg → i.op = .functionParameter → i.fits = true →
    i.result = some n →
    Turns (modifyFunction fun f => { f with header := f.header.push i }) (K (c.owing [n])) fun _ => K c
  -- Functions
  openFunction : ∀ {c i n} returnsVoid, inst.opcode = .function → i.op = .function →
    i.fits = true → i.result = some n →
    Turns (modify fun s => { s with function := some { source := inst.id, returnsVoid, header := #[i] } })
      (K (c.owing [n])) fun _ => K c
  takeFunction : ∀ {c}, movesFunction inst.opcode → Turns takeFunction (K c) fun f => K { c with held := f }
  closeFunction : ∀ {c : Standing} {f}, movesFunction inst.opcode →
    Turns (closeFunction f) (K { c with held := some f }) fun _ => K { c with held := none }
  appendFunction : ∀ {c owed} {insts : Array Inst}, inst.opcode = .stageEnd → IsFunction insts.toList →
    (∀ i ∈ insts.toList, i.fits = true) → (results insts.toList).Perm owed →
    Turns (ofBuild (modify (·.append insts .functions))) (K (c.owing owed)) fun _ => K c

namespace Steps

variable {asm : Assembler} {K : Standing → Lowering → Prop} {inst : Instruction} {c : Standing} {α : Type}

section

variable (S : Steps asm K inst)
include S

theorem dropped {x : Lower α} {P : Lowering → Prop} {facts : α → List Fact}
    (h : Turns x P fun a => K (c.learn (facts a))) : Turns x P fun _ => K c :=
  h.weaken fun _ _ hs => S.forget (fun _ hf => List.mem_append_right _ hf) hs

/-! ## Types and constants -/

variable {i : Inst} {op : Op}

theorem basicType (hop : op.role = .type) (hplain : Inst.capability? { op, operands } = none)
    (htakes : op.takes operands = true) (hids : operandIds operands = []) :
    Turns (ofBuild (.type op operands)) (K c) fun n => K (c.learn [.type n]) := by
  refine S.type hop hplain htakes fun id hid => ?_
  rw [hids] at hid
  cases hid

theorem typeOf {ids : List ModuleId} (hop : op.role = .type)
    (hplain : Inst.capability? { op, operands } = none) (htakes : op.takes operands = true)
    (hids : operandIds operands = ids) (h : ∀ id ∈ ids, .type id ∈ c.facts) :
    Turns (ofBuild (.type op operands)) (K c) fun n => K (c.learn [.type n]) :=
  S.type hop hplain htakes fun id hid => .inl (h id (hids ▸ hid))

theorem vectorType {component : ModuleId} (h : .type component ∈ c.facts) (lanes : UInt32) :
    Turns (ofBuild (.vectorType component lanes)) (K c) fun n => K (c.learn [.type n]) :=
  S.typeOf rfl rfl rfl rfl (List.forall_mem_singleton.mpr h)

theorem pointerType {pointee : ModuleId} (h : .type pointee ∈ c.facts) (storage : StorageClass) :
    Turns (ofBuild (.pointerType storage pointee)) (K c) fun n => K (c.learn [.type n]) :=
  S.typeOf rfl rfl rfl rfl (List.forall_mem_singleton.mpr h)

theorem functionType {result : ModuleId} {params : List ModuleId} (hresult : .type result ∈ c.facts)
    (hparams : ∀ id ∈ params, .type id ∈ c.facts) :
    Turns (ofBuild (.functionType result params)) (K c) fun n => K (c.learn [.type n]) :=
  S.typeOf rfl rfl (Op.takes_map_id (fun _ => rfl) (result :: params)) (operandIds_map_id _)
    (List.forall_mem_cons.mpr ⟨hresult, hparams⟩)

theorem plainConstant
    (htype : .type type ∈ c.facts) (hop : op.role = .constant) (htakes : op.takes operands = true)
    (hids : operandIds operands = []) : Turns (ofBuild (.constant type op operands)) (K c)
      fun n => K (c.learn [.known n, .constant n]) := by
  refine S.constantIn hop htakes htype (.inr ⟨rfl, fun id hid => ?_⟩)
  rw [hids] at hid
  cases hid

theorem number (htype : .type type ∈ c.facts) (words : List UInt32) :
    Turns (ofBuild (.number type words)) (K c) fun n => K (c.learn [.known n, .constant n]) :=
  S.plainConstant htype rfl (Op.takes_map_literal (fun _ => rfl) words) (operandIds_map_literal words)

theorem null (htype : .type type ∈ c.facts) :
    Turns (ofBuild (.null type)) (K c) fun n => K (c.learn [.known n, .constant n]) :=
  S.plainConstant htype rfl rfl rfl

theorem word (signed : Bool) (w : UInt32) : Turns (ofBuild (.word signed w)) (K c) := by
  refine turns_ofBuild_bind (S.intType 32 signed) fun type => ?_
  refine (S.number List.mem_cons_self [w]).weaken fun n _ hs => ?_
  exact S.forget (fun _ hf => by simp [hf]) hs

/-- The length of an array is a constant that stands in front of it, unless it is known already. -/
theorem arrayType {element : ModuleId} (h : .type element ∈ c.facts) (length : UInt32) :
    Turns (ofBuild (.arrayType element length)) (K c) fun n => K (c.learn [.type n]) := by
  refine turns_ofBuild_bind (S.intType 32 false) fun type => ?_
  refine turns_ofBuild_bind (S.constantIn rfl rfl List.mem_cons_self (.inl ⟨rfl, rfl, rfl⟩))
    fun count => .weaken (S.type rfl rfl rfl fun id hid => ?_) fun n _ hs => ?_
  · change id ∈ [element, count] at hid
    simp only [List.mem_cons, List.not_mem_nil, or_false] at hid
    rcases hid with rfl | rfl
    · exact .inl (by simp [h])
    · exact .inr ⟨rfl, rfl, by simp⟩
  · refine S.forget (fun f hf => ?_) hs
    rcases List.mem_append.mp hf with hf | hf <;> simp [hf]
    exact .inl (List.mem_singleton.mp hf)

theorem markBlock (id : ModuleId) : Turns (ofBuild (.markBlock id)) (K c) := by
  refine turns_ofBuild_get_bind fun m => ?_
  split
  · exact fun _ hs => hs
  · exact turns_ofBuild_bind (S.block id) fun _ => S.remark rfl rfl rfl (.inr rfl)

theorem problem (source : Instruction) (message : String) : Turns (problem source message) (K c) := S.report _

theorem giveUp {Q : α → Lowering → Prop} (source : Instruction) (message : String) :
    TurnsOr (giveUp source message : Attempt α) (K c) Q (K c) :=
  TurnsOr.bind (.lift (S.report _)) fun _ _ hs => hs

theorem requireType (source : Instruction) (id : ResultId) :
    TurnsOr (requireType asm source id) (K c) (fun n => K (c.learn [.type n])) (K c) :=
  (S.lowerType id).orElse (S.giveUp source _)

/-! ## Function bodies -/

theorem idFor_only (id : ResultId) : Turns (Spirv.idFor id) (K c) := S.dropped (S.idFor id)

theorem result {n : ModuleId} (hop : i.op.computes = true)
    (hi : i.result = some n) : Turns (emit source i) (K (c.owing [n])) fun _ => K c := by
  intro s hs
  refine S.compute hop s ?_
  rw [hi]
  exact hs

theorem effect (hop : i.op.computes = true) (hi : i.result = none) :
    Turns (Spirv.emitAnd source i) (K c) := by
  refine .bind (fun s hs => S.compute hop s ?_) fun _ => .pure fun _ hs => hs
  rw [hi]
  exact hs

theorem emitAnd {n : ModuleId} (hop : i.op.computes = true)
    (hi : i.result = some n) : Turns (emitAnd source i) (K (c.owing [n])) fun _ => K c :=
  (S.result hop hi).bind fun _ => .pure fun _ hs => hs

theorem load (source : Instruction) (place : Place) (n : ModuleId) :
    Turns (load source place n) (K (c.owing [n])) fun _ => K c := S.result rfl rfl

theorem store (source : Instruction) (pointer value : ModuleId) :
    Turns (store source pointer value) (K c) := S.effect rfl rfl

theorem value (source : Instruction) (id : ResultId) : Turns (value asm source id) (K c) := by
  unfold Spirv.value
  extract_lets fallback
  have hfallback : ∀ u, Turns (fallback u) (K c) := fun _ => S.idFor_only id
  split
  · refine (turns_placeOf? id).bind fun place => ?_
    split
    · refine S.fresh.bind fun n => (S.load source _ n).bind fun written => ?_
      split
      · exact .pure fun _ hs => hs
      · exact hfallback ()
    · exact hfallback ()
  · exact hfallback ()

theorem read (source : Instruction) (id : ResultId) :
    TurnsOr (liftM (Spirv.value asm source id)) (K c) (fun _ => K c) (Ends K) :=
  TurnsOr.lift (S.value source id)

theorem values (insts : List Instruction) :
    TurnsOr (insts.mapM fun arg => liftM (Spirv.value asm arg arg.refs.fst)) (K c) (fun _ =>
      K c) (Ends K) :=
  TurnsOr.mapM insts fun arg => S.read arg _

/-! ## Variables -/

/-- A variable needs a declared type, and a declared constant if it starts with one. -/
theorem declareVariable {id pointee : ModuleId} {storage : StorageClass}
    {init : Option ModuleId} (hpointee : .type pointee ∈ c.facts)
    (hinit : ∀ n ∈ init.toList, .constant n ∈ c.facts) :
    TurnsOr (declareVariable source id storage pointee init) (K (c.owing [id])) (fun _ =>
      K c) (Ends K) := by
  refine .bind (.lift (S.pointerType (c := c.owing [id]) hpointee storage)) fun pointer => ?_
  extract_lets i place define
  have hplace : ∀ u, TurnsOr (place u) (K (c.learn [.type pointer])) (fun _ => K c) (Ends K) :=
    fun _ => .pure fun _ hs => S.forget (fun _ hf => List.mem_append_right _ hf) hs
  split
  next hstorage =>
    -- A variable of a function goes into its body, away from the declarations.
    have hlocal : i.IsLocal := ⟨rfl, by rw [← hstorage]; rfl⟩
    have hdefine : ∀ u, TurnsOr (define u) (K ((c.learn [.type pointer]).owing [id])) (fun _ => K c)
        (Ends K) := fun _ =>
      TurnsOr.bind (.lift (S.addLocal hlocal (Rules.fits_variable ..) rfl)) hplace
    refine .get_bind fun s => ?_
    split
    · exact .bind (S.giveUp source _).ends hdefine
    · exact hdefine ()
  next =>
    refine .bind (.lift (S.global (c := c.learn [.type pointer]) rfl rfl fun n hn => ?_)) hplace
    change n ∈ pointer :: operandIds (init.toList.map .id) at hn
    rw [operandIds_map_id] at hn
    rcases List.mem_cons.mp hn with rfl | hn
    · exact .inl List.mem_cons_self
    · exact .inr (List.mem_append_right _ (hinit n hn))

theorem addInterface (hop : movesInterface inst.opcode) (var : ModuleId) :
    Turns (addInterface var) (K c) := by
  refine .get_bind fun s => ?_
  split
  · exact S.modifyEntryPoint hop _ _
  · exact fun _ hs => hs

/-! ## Built-ins -/

theorem builtInType (shape : BuiltInShape) :
    Turns (ofBuild (builtInType shape)) (K c) fun n => K (c.learn [.type n]) := by
  have hscalar : Turns (ofBuild (builtInScalarType shape.scalar)) (K c)
      fun n => K (c.learn [.type n]) := by
    unfold builtInScalarType
    split
    · exact S.basicType rfl rfl rfl rfl
    · exact S.intType 32 true
    · exact S.intType 32 false
    · exact S.floatType 32
  refine turns_ofBuild_bind hscalar fun scalar => ?_
  split
  · exact fun _ hs => hs
  · refine (S.vectorType List.mem_cons_self _).weaken fun n _ hs => S.forget (fun f hf => ?_) hs
    rcases List.mem_append.mp hf with hf | hf <;> simp [hf]
    exact .inl (List.mem_singleton.mp hf)

theorem plainVariable {var pointer : ModuleId} {storage : UInt32} (h : .type pointer ∈ c.facts) :
    Turns (ofBuild (.emit .globals
      { op := .variable, resultType := some pointer, result := some var,
        operands := [.literal storage] })) (K (c.owing [var])) fun _ => K c :=
  S.global rfl rfl fun _ hn => .inl ((List.mem_singleton.mp hn).symm ▸ h)

theorem builtInPlace (hop : movesBuiltIns inst.opcode) (stage : ShaderStage) (b : BuiltIn) :
    Turns (builtInPlace stage b) (K c) := by
  refine .bind (S.builtInType _) fun pointee => ?_
  refine .get_bind fun s => ?_
  split
  · exact fun _ hs => S.forget (fun _ hf => List.mem_append_right _ hf) hs
  · refine .bind (.forM_option fun x => S.capability (.inl hop)) fun _ => ?_
    refine .bind S.fresh fun var => ?_
    refine .bind (S.pointerType List.mem_cons_self _) fun pointer => ?_
    refine .bind (S.plainVariable (c := (c.learn [.type pointee]).learn [.type pointer])
      List.mem_cons_self) fun _ => ?_
    refine .bind (S.remark rfl rfl rfl (.inl hop)) fun _ => ?_
    refine .bind (S.remark rfl rfl rfl (.inr rfl)) fun _ => ?_
    have hmoves : movesInterface inst.opcode := .inr (.inr (.inr hop))
    refine .bind (S.note hmoves fun _ => ⟨_, _, _, _, rfl⟩) fun _ => ?_
    refine .bind (S.addInterface hmoves var) fun _ => .pure fun _ hs => ?_
    exact S.forget (fun _ hf => by simp [hf]) hs

theorem perVertexBlock (hop : movesInterface inst.opcode) : Turns perVertexBlock (K c) := by
  refine .get_bind fun s => ?_
  split
  next var _ => exact (S.addInterface hop var).bind fun _ => .pure fun _ hs => hs
  next =>
    refine .bind (S.floatType 32) fun float => ?_
    refine .bind (S.vectorType List.mem_cons_self 4) fun position => ?_
    refine .bind (S.arrayType (show Fact.type float ∈ _ by simp) 1) fun distances => ?_
    refine .bind (S.newType rfl fun id hid => ?_) fun block => ?_
    · change id ∈ [position, float, distances, distances] at hid
      simp only [List.mem_cons, List.not_mem_nil, or_false] at hid
      rcases hid with rfl | rfl | rfl | rfl <;> simp
    iterate 2 refine .bind (S.remark rfl rfl rfl (.inr rfl)) fun _ => ?_
    refine .bind (.forM fun e =>
      Turns.bind (S.remark rfl rfl rfl (.inr rfl)) fun _ => S.remark rfl rfl rfl (.inr rfl)) fun _ => ?_
    refine .bind (S.pointerType List.mem_cons_self _) fun pointer => ?_
    refine .bind S.fresh fun var => ?_
    refine .bind (S.plainVariable List.mem_cons_self) fun _ => ?_
    refine .bind (S.note hop fun _ => ⟨_, _, _, _, rfl⟩) fun _ => ?_
    refine .bind (S.addInterface hop var) fun _ => .pure fun _ hs => ?_
    exact S.forget (fun _ hf => by simp [hf]) hs

theorem fragColorOutput (hop : movesInterface inst.opcode)
    (h : .type type ∈ c.facts) : Turns (fragColorOutput type) (K c) := by
  refine .get_bind fun s => ?_
  split
  next var _ => exact (S.addInterface hop var).bind fun _ => .pure fun _ hs => hs
  next =>
    refine .bind (S.pointerType h _) fun pointer => ?_
    refine .bind S.fresh fun var => ?_
    refine .bind (S.plainVariable List.mem_cons_self) fun _ => ?_
    iterate 2 refine .bind (S.remark rfl rfl rfl (.inr rfl)) fun _ => ?_
    refine .bind (S.note hop fun _ => ⟨_, _, _, _, rfl⟩) fun _ => ?_
    refine .bind (S.addInterface hop var) fun _ => .pure fun _ hs => ?_
    exact S.forget (fun _ hf => List.mem_append_right _ hf) hs

end

end Steps

end ShaderIR.Spirv
