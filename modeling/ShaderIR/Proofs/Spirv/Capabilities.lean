import ShaderIR.Proofs.Spirv.BinaryLayout
import ShaderIR.Proofs.Spirv.Lowering.Positions

/-!
# Capabilities

**The capabilities of a module are those that something in it or in its stream calls for, and no
others.**  The two never part for longer than one type, or one variable of a built-in, takes.
-/

namespace ShaderIR.Spirv

open Discipline
open Lower (ofBuild)
open Operation (runAll)

/-! ## What calls for a capability -/

variable {m : Module}

/-- The capabilities that a module calls for: that of all shaders, and those of its types and marks.
    -/
def Module.uses (m : Module) : List Capability :=
  .shader :: (m.types.toList ++ m.annotations.toList).filterMap Inst.capability?

def Opens (asm : Assembler) (stage : ShaderStage) : Prop := ∃ inst ∈ asm.code.toList, opens? inst = some stage

theorem capability?_info (b : BuiltIn) : builtInCapability? b.info.code = b.info.capability := by
  cases b <;> rfl

theorem capability?_of_role {i : Inst} (htype : i.op.role ≠ .type)
    (hmark : i.op.role ≠ .decoration) :
    i.capability? = none := by
  unfold Inst.capability?
  split <;> simp_all [Op.role]

variable {i : Inst} {c : Capability} {sec : Section} {op : Op} {operands : List Operand}

theorem Module.mem_uses_emit : c ∈ (m.emit sec i).uses ↔
    c ∈ m.uses ∨ i.fits = true ∧ (sec = .types ∨ sec = .annotations) ∧ i.capability? = some c := by
  unfold emit
  cases i.fits with
  | false => simp [uses]
  | true =>
    cases sec <;> simp [uses, append]
    · grind
    · grind

structure Needs where
  capabilities : List Capability
  extensions : List Extension
  uses : List Capability
  typeIds : Table (Op × List Operand) ModuleId

def Module.needs (m : Module) : Needs := ⟨m.capabilities, m.extensions, m.uses, m.typeIds⟩

/-- What a module declares is called for in it, or by `A` and `E`, and nothing is missing. -/
structure Needs.Covered (A : Capability → Prop) (E : Extension → Prop) (v : Needs) : Prop where
  needed : ∀ c ∈ v.capabilities, c ∈ v.uses ∨ A c
  uses : v.uses ⊆ v.capabilities
  known : ∀ e ∈ v.typeIds.entries, ∀ c, Inst.capability? { op := e.1.1, operands := e.1.2 } = some c → c ∈ v.uses
  allowed : ∀ e ∈ v.extensions, E e

def covering (A : Capability → Prop) (E : Extension → Prop) : Discipline Lowering where
  Inv s := s.module.needs.Covered A E
  Grows s s' := s.module.capabilities ⊆ s'.module.capabilities ∧ s.module.extensions ⊆ s'.module.extensions ∧
    s.module.uses ⊆ s'.module.uses
  refl _ := ⟨fun _ h => h, fun _ h => h, fun _ h => h⟩
  trans h h' := ⟨fun _ k => h'.1 (h.1 k), fun _ k => h'.2.1 (h.2.1 k), fun _ k => h'.2.2 (h.2.2 k)⟩

/-! ## Steps -/

section

variable {A : Capability → Prop} {E : Extension → Prop} {α : Type} {s : Lowering}

theorem covering_apart {x : Lower α} (h : ∀ s, (x.run s).2.module.needs = s.module.needs) :
    (covering A E).Keeps x := by
  intro s hs
  obtain ⟨hcapabilities, hextensions, huses, -⟩ := Needs.mk.inj (h s)
  have hinv : (x.run s).2.module.needs.Covered A E := h s ▸ hs
  exact ⟨⟨hcapabilities ▸ fun _ h => h, hextensions ▸ fun _ h => h, huses ▸ fun _ h => h⟩, hinv, trivial⟩

theorem covering_fresh : (covering A E).Keeps (ofBuild .fresh) := covering_apart fun _ => rfl

theorem covering_write (hi : ∀ c, i.capability? = some c → c ∈ s.module.capabilities) :
    (covering A E).Runs (ofBuild (.emit sec i)) s := by
  intro hs
  have hneeds : (s.module.emit sec i).needs = { s.module.needs with uses := (s.module.emit sec i).uses } := by
    unfold Module.emit
    split
    · cases sec <;> rfl
    · rfl
  obtain ⟨hcapabilities, hextensions, -, -⟩ := Needs.mk.inj hneeds
  have hmore : s.module.uses ⊆ (s.module.emit sec i).uses := fun c hc => Module.mem_uses_emit.mpr (.inl hc)
  refine ⟨⟨hcapabilities ▸ fun _ h => h, hextensions ▸ fun _ h => h, hmore⟩, ?_, trivial⟩
  change (s.module.emit sec i).needs.Covered A E
  rw [hneeds]
  refine ⟨fun c hc => (hs.needed c hc).imp_left (hmore ·), fun c hc => ?_, fun e he c hc =>
    hmore (hs.known e he c hc), hs.allowed⟩
  exact (Module.mem_uses_emit.mp hc).elim (hs.uses ·) fun h => hi c h.2.2

theorem covering_emit (hi : i.capability? = none) : (covering A E).Keeps (ofBuild (.emit sec i)) := fun _ =>
  covering_write fun c hc => by rw [hi] at hc; cases hc

theorem covering_capability (hc : A c) (s : Lowering) :
    (covering A E).Runs (ofBuild (.requireCapability c)) s fun _ s' => c ∈ s'.module.capabilities := fun hs => by
  refine ⟨⟨fun _ h => List.mem_insert_of_mem h, fun _ h => h, fun _ h => h⟩,
    ⟨fun d hd => ?_, fun d hd => ?_, hs.known, hs.allowed⟩, List.mem_insert_self⟩
  · exact (List.mem_insert_iff.mp hd).elim (fun h => .inr (h ▸ hc)) (hs.needed d)
  · exact List.mem_insert_of_mem (hs.uses hd)

theorem covering_extension {e : Extension} (he : E e) (s : Lowering) :
    (covering A E).Runs (ofBuild (.requireExtension e)) s fun _ s' => e ∈ s'.module.extensions := fun hs => by
  refine ⟨⟨fun _ h => h, fun _ h => List.mem_insert_of_mem h, fun _ h => h⟩,
    { hs with allowed := fun d hd => ?_ }, List.mem_insert_self⟩
  exact (List.mem_insert_iff.mp hd).elim (fun h => h ▸ he) (hs.allowed d)

theorem covering_settle {x : Lower α} {P : Capability → Prop}
    (hx : (covering (fun c => A c ∨ P c) E).Runs x s fun _ s' => ∀ c, P c → c ∈ s'.module.uses) :
    (covering A E).Runs x s := by
  intro hs
  obtain ⟨hgains, hend, huses⟩ := hx { hs with needed := fun c hc => (hs.needed c hc).imp_right .inl }
  refine ⟨hgains, { hend with needed := fun c hc => ?_ }, trivial⟩
  rcases hend.needed c hc with hc | hc | hc
  · exact .inl hc
  · exact .inr hc
  · exact .inl (huses c hc)

section

variable (hi : ∀ c, Inst.capability? { op, operands } = some c →
  c ∈ s.module.capabilities ∧ ∀ n, Inst.fits { op, result := some n, operands } = true)
include hi

theorem covering_newType : (covering A E).Runs (ofBuild (.newType op operands)) s fun _ s' =>
      ∀ c, Inst.capability? { op, operands } = some c → c ∈ s'.module.uses := by
  intro hs
  have hwrite : (covering A E).Runs (ofBuild (.emit .types { op, result := some s.module.nextId, operands }))
    ((ofBuild .fresh).run s).2 := covering_write fun c hc => (hi c hc).1
  obtain ⟨hgains, hinv, -⟩ := hwrite hs
  exact ⟨hgains, hinv, fun c hc => Module.mem_uses_emit.mpr (.inr ⟨(hi c hc).2 _, .inl rfl, hc⟩)⟩

theorem covering_type : (covering A E).Runs (ofBuild (.type op operands)) s fun _ s' =>
      ∀ c, Inst.capability? { op, operands } = some c → c ∈ s'.module.uses := by
  refine runs_ofBuild_get_bind ?_
  split
  next n hn => exact fun hs => ⟨(covering A E).refl s, hs, hs.known _ (Table.mem_of_get? hn)⟩
  next =>
    refine runs_ofBuild_bind (covering_newType hi) fun n s1 _ huses hs => ?_
    refine ⟨(covering A E).refl s1, { hs with known := fun e he => ?_ }, huses⟩
    rcases Table.mem_insert he with rfl | he
    · exact huses
    · exact hs.known e he

end

theorem covering_plainType (h : Inst.capability? { op, operands } = none) :
    (covering A E).Keeps (ofBuild (.type op operands)) := fun _ =>
  (covering_type fun c hc => by rw [h] at hc; cases hc).weaken

theorem covering_number {o : Option Capability} (ho : Inst.capability? { op, operands } = o)
    (hfits : ∀ n, Inst.fits { op, result := some n, operands } = true) :
    (covering A E).Keeps (ofBuild do
      o.forM .requireCapability
      .type op operands) := by
  refine fun s => covering_settle (P := fun c => o = some c) (runs_ofBuild_bind
    (Q := fun _ s' => ∀ c, o = some c → c ∈ s'.module.capabilities) ?_ fun _ s1 _ hcaps => ?_)
  · cases o with
    | none => exact .pure nofun
    | some c => exact (covering_capability (.inr rfl) s).mono fun _ _ _ h d hd => by cases hd; exact h
  · rw [← ho] at hcaps ⊢
    exact covering_type fun c hc => ⟨hcaps c hc, hfits⟩

theorem covering_constantIn {type : ModuleId} (hop : op.role = .constant) :
    (covering A E).Keeps (ofBuild (.constantIn sec type op operands)) := by
  refine keeps_ofBuild_get_bind fun m => ?_
  split
  · exact keeps_ofBuild_pure _
  · refine keeps_ofBuild_bind covering_fresh fun n => ?_
    refine keeps_ofBuild_bind (covering_emit (capability?_of_role (by simp [hop]) (by simp [hop]))) fun _ => ?_
    exact keeps_ofBuild_bind (covering_apart fun _ => rfl) fun _ => keeps_ofBuild_pure n

theorem covering_idFor (id : ResultId) : (covering A E).Keeps (idFor id) :=
  keeps_idFor_of covering_fresh fun _ => covering_apart fun _ => rfl

theorem bodyRules_covering : BodyRules (covering A E) where
  report _ := covering_apart fun _ => rfl
  fresh := covering_fresh
  function _ := covering_apart fun _ => rfl
  append _ := covering_apart fun _ => rfl

theorem typeRules_covering (asm : Assembler) : TypeRules asm (covering A E) where
  carry _ _ := trivial
  intType width signed := covering_number rfl fun _ => rfl
  floatType width := covering_number rfl fun _ => rfl
  type _ hplain _ _ := covering_plainType hplain _
  arrayType {element _} length _ := keeps_ofBuild_bind (covering_number rfl fun _ => rfl)
    (fun type => keeps_ofBuild_bind (covering_constantIn rfl) fun _ => covering_plainType rfl) _
  known _ _ := trivial
  newType _ _ := (covering_newType (by intro c hc; cases hc)).weaken
  debug hop _ := covering_emit (capability?_of_role (by simp_all [Section.admits]) (by simp_all [Section.admits]))
  note _ _ _ _ := covering_apart (fun _ => rfl) _

/-- **Instructions that read no built-in** ask for the capability of the stage that they open. -/
theorem rules_covering (asm : Assembler) {inst : Instruction} (hop : ¬ movesBuiltIns inst.opcode)
    (hasked : ∀ c, (opens? inst).bind (·.capability?) = some c → A c)
    (hallowed : ∀ e, (opens? inst).bind (·.extension?) = some e → E e) :
    Rules asm (covering A E) (fun _ _ => True) (fun _ _ => True) inst where
  toFlowRules := bodyRules_covering.flowRules inst
  toFormRules := (typeRules_covering asm).toFormRules
  mono _ _ := trivial
  fnMono _ _ := trivial
  report _ := covering_apart fun _ => rfl
  fresh := covering_fresh
  idFor := covering_idFor
  bindId _ := covering_apart (fun _ => rfl) _
  setPlace _ := covering_apart fun _ => rfl
  addParam _ := covering_apart fun _ => rfl
  note _ _ h := covering_apart fun s => by
    obtain ⟨_, _, _, _, hs⟩ := h s
    rw [show (modify _ : Lower Unit).run s = ((), _) from rfl, hs]
  overflow := covering_apart fun _ => rfl
  setStage _ _ := covering_apart fun _ => rfl
  lowerType id := (typeRules_covering asm).attempts_lowerTypeAt _ [] id
  capability hc s := (covering_capability (hasked _ (hc.resolve_left hop)) s).weaken
  extension he s := (covering_extension (hallowed _ he) s).weaken
  newType _ _ _ := (covering_newType (by intro c hc; cases hc)).weaken
  constantIn s _ _ hrole _ := covering_constantIn hrole s
  extInstSet := keeps_ofBuild_extInstSet covering_fresh
    (fun _ hi => covering_emit (capability?_of_role (by rw [hi]; nofun) (by rw [hi]; nofun))) fun _ =>
      covering_apart fun _ => rfl
  remark _ _ _ hi := covering_emit (hi.resolve_left hop)
  global hi _ _ := covering_emit (capability?_of_role (by rw [hi]; nofun) (by rw [hi]; nofun)) _
  block _ := covering_apart fun _ => rfl
  addEntryPoint _ _ := covering_apart fun _ => rfl
  modifyEntryPoint _ _ _ := covering_apart fun _ => rfl

/-! ## Built-ins and stages -/

/-- **The variable of a built-in** is marked as such, and the mark calls for the capability. -/
theorem covering_builtInPlace (stage : ShaderStage) (b : BuiltIn) :
    (covering A E).Keeps (builtInPlace stage b) := by
  have R : Rules {} (covering A E) _ _ { opcode := .stageEnd } :=
    rules_covering {} (by simp [movesBuiltIns]) (fun _ h => by cases h) fun _ h => by cases h
  have htype : (covering A E).Keeps (ofBuild (builtInType b.info.shape)) :=
    Rules.keeps_of_turns [] fun s0 => ((R.steps s0).builtInType _).weaken fun _ _ hs => ⟨_, hs⟩
  refine htype.bind fun pointee => .get_bind fun _ => ?_
  split
  · exact .pure _
  · let P c := b.info.capability = some c
    refine fun s => covering_settle (P := P) ?_
    refine .bind (Q := fun _ s' => ∀ c, P c → c ∈ s'.module.capabilities) ?_ fun _ s1 _ hcaps => ?_
    · unfold P
      cases b.info.capability with
      | none => exact .pure fun _ h => by cases h
      | some c => exact (covering_capability (.inr rfl) s).mono fun _ _ _ h d hd => by cases hd; exact h
    refine (covering_fresh s1).bind fun var s2 h2 _ => ?_
    refine (covering_plainType rfl s2).bind fun pointer s3 h3 _ => ?_
    refine (covering_emit rfl s3).bind fun _ s4 h4 _ => ?_
    let mark : Inst :=
      { op := .decorate,
        operands := [.id var, .literal Decoration.builtIn.code, .literal b.info.code] }
    have hmark : mark.capability? = b.info.capability := capability?_info b
    refine .bind (Q := fun _ s' => ∀ c, P c → c ∈ s'.module.uses) (fun hs => ?_) fun _ s5 _ huses => ?_
    · have hwrite : (covering (fun c => A c ∨ P c) E).Runs (ofBuild (.emit .annotations mark)) s4 :=
        covering_write fun c hc => h4.1 (h3.1 (h2.1 (hcaps c (hmark.symm.trans hc))))
      obtain ⟨hgains, hinv, -⟩ := hwrite hs
      exact ⟨hgains, hinv, fun c hc => Module.mem_uses_emit.mpr (.inr ⟨rfl, .inr rfl, hmark.trans hc⟩)⟩
    have hrest : ∀ {x : Lower Place}, (covering (fun c => A c ∨ P c) E).Keeps x →
        (covering (fun c => A c ∨ P c) E).Runs x s5 fun _ s' => ∀ c, P c → c ∈ s'.module.uses := fun hx =>
      (hx s5).mono fun _ _ h _ c hc => h.2.2 (huses c hc)
    refine hrest ((covering_emit rfl).bind fun _ => .bind (covering_apart fun _ => rfl) fun _ => ?_)
    refine .bind (.get_bind fun s => ?_) fun _ => .pure _
    split
    · exact covering_apart fun _ => rfl
    · exact .pure _

variable {asm : Assembler} {inst : Instruction} (hasked : ∀ c, (opens? inst).bind (·.capability?) = some c → A c)
  (hallowed : ∀ e, (opens? inst).bind (·.extension?) = some e → E e)
include hasked hallowed

theorem covering_attempt (i : Nat) : (covering A E).Attempts (attempt asm i inst) := by
  by_cases hop : movesBuiltIns inst.opcode
  · -- Apart from the variable, reading a built-in is like any other lowering.
    have R : Rules asm (covering A E) _ _ { inst with opcode := .stageEnd } :=
      rules_covering asm (by simp [movesBuiltIns]) nofun nofun
    have hplace : ∀ {s0} stage b, Turns (builtInPlace stage b) (Rules.Holds _ _ _ s0 {}) := fun stage b =>
      R.turns_keeps (covering_builtInPlace stage b)
    have hlane : ∀ b, (covering A E).Attempts (invocationLane asm inst b) := fun b =>
      Rules.attempts_of_turnsOr [] fun s0 =>
        (((R.steps s0).lane inst rfl 0).joint_invocationLane (by rfl) b (hplace · b)).1
    unfold attempt
    rcases hop with hop | hop | hop <;> rw [hop]
    · exact Rules.attempts_of_turnsOr [] fun s0 =>
        (((R.steps s0).lane inst rfl 0).joint_builtInValue (by rfl) (.inl (.inr rfl)) hplace).1
    · exact hlane _
    · exact hlane _
  · exact (rules_covering asm hop hasked hallowed).attempts_attempt i

omit hasked hallowed in
theorem runs_forM_bind {D : Discipline Lowering} {β : Type} {o : Option β} {f : β → Lower Unit}
    {k : Unit → Attempt Unit} {P : β → Lowering → Prop} {R : Option Unit → Lowering → Prop}
    (hf : ∀ b, o = some b → D.Runs (f b) s fun _ s' => P b s')
    (hk : ∀ s', D.Grows s s' → (∀ b, o = some b → P b s') → D.Runs (k ()).run s' R) :
    D.Runs ((o.forM fun b => (liftM (f b) : Attempt Unit)) >>= k).run s R := by
  cases o with
  | none => exact hk s (D.refl s) nofun
  | some b => exact .lift_bind (hf b rfl) fun _ s' h hb => hk s' h fun d hd => by cases hd; exact hb

def Module.Serves (m : Module) (stage : ShaderStage) : Prop :=
  (∀ c, stage.capability? = some c → c ∈ m.capabilities) ∧ ∀ e, stage.extension? = some e → e ∈ m.extensions

theorem covering_beginStage {stage : ShaderStage} (hstage : opens? inst = some stage) (i : Nat)
    (s : Lowering) :
    (covering A E).Runs (attempt asm i inst).run s fun _ s' => s'.module.Serves stage := by
  rw [hstage] at hasked hallowed
  obtain ⟨hop, hcode⟩ : inst.opcode = .stageBegin ∧ _ = some stage := by simpa [opens?] using hstage
  unfold attempt
  rw [hop]
  unfold beginStage
  extract_lets code vars
  rw [hcode]
  refine .read_bind ?_
  extract_lets enter start
  have henter : (covering A E).Attempts (enter ()) :=
    (Attempts.mapM fun id => .lift (covering_idFor id)).bind fun _ =>
      (Attempts.lift (covering_apart fun _ => rfl)).bind fun _ => .lift (covering_apart fun _ => rfl)
  have hstart : ∀ s1, (covering A E).Runs (start ()).run s1 fun _ s' => s'.module.Serves stage := by
    intro s1
    refine runs_forM_bind (fun c hc => covering_capability (hasked c hc) s1) fun s2 _ hcapability => ?_
    refine runs_forM_bind (fun e he => covering_extension (hallowed e he) s2) fun s3 h3 hextension => ?_
    have hserves : ∀ {x : Attempt Unit}, (covering A E).Attempts x →
        (covering A E).Runs x.run s3 fun _ s' => s'.module.Serves stage := fun hx =>
      Runs.mono (hx s3) fun _ _ h _ =>
        ⟨fun c hc => h.1 (h3.1 (hcapability c hc)), fun e he => h.2.1 (hextension e he)⟩
    split
    · exact hserves ((Attempts.lift (covering_apart fun _ => rfl)).bind fun _ => henter)
    · exact hserves henter
  split
  · exact .lift_bind (covering_apart (fun _ => rfl) s) fun _ s1 _ _ => hstart s1
  · exact hstart s

end

/-! ## Streams -/

section

variable {asm : Assembler}

def covers (asm : Assembler) : Discipline Lowering :=
  covering (fun c => ∃ stage, Opens asm stage ∧ stage.capability? = some c)
    fun e => ∃ stage, Opens asm stage ∧ stage.extension? = some e

theorem exists_opens {β : Type} {f : ShaderStage → Option β} {b : β} {inst : Instruction} {k : Nat}
    (hinst : asm.code[k]? = some inst) (h : (opens? inst).bind f = some b) :
    ∃ stage, Opens asm stage ∧ f stage = some b := by
  obtain ⟨stage, hstage, hb⟩ := Option.bind_eq_some_iff.mp h
  exact ⟨stage, ⟨inst, Assembler.mem_code hinst, hstage⟩, hb⟩

theorem lowers_covers (asm : Assembler) : Lowers asm (covers asm) := by
  intro k inst s hinst hs
  obtain ⟨hgrows, hinv, -⟩ := covering_attempt (fun _ => exists_opens hinst) (fun _ => exists_opens hinst) k s hs
  exact ⟨hgrows, hinv⟩

theorem covers_empty (asm : Assembler) : (covers asm).Inv {} :=
  ⟨fun _ => .inl, fun _ h => h, List.forall_mem_nil _, List.forall_mem_nil _⟩

theorem covers_lowerAll (hfatal : (lowerAll asm).2 = none) {k : Nat} (hk : k ≤ asm.code.size) :
    (covers asm).Grows (stateAt asm k) (lowerAll asm).1 ∧ (covers asm).Inv (lowerAll asm).1 :=
  (lowers_covers asm).lowerAll (rules_covering asm (by simp [movesBuiltIns]) nofun nofun)
    (covers_empty asm) hfatal hk

theorem serves_of_opens (hfatal : (lowerAll asm).2 = none) {stage : ShaderStage}
    (h : Opens asm stage) :
    (lowerAll asm).1.module.Serves stage := by
  obtain ⟨inst, hmem, hstage⟩ := h
  obtain ⟨k, hk⟩ := List.getElem?_of_mem hmem
  rw [Array.getElem?_toList] at hk
  obtain ⟨-, -, hopened⟩ := covering_beginStage (fun _ => exists_opens hk) (fun _ => exists_opens hk) hstage k _
    ((lowers_covers asm).inv_stateAt (covers_empty asm) k)
  have hgains := (covers_lowerAll hfatal (Assembler.lt_size_code hk)).1
  rw [stateAt_succ hk] at hgains
  exact ⟨fun c hc => hgains.1 (hopened.1 c hc), fun e he => hgains.2.1 (hopened.2 e he)⟩

theorem Module.Framed.ne_of_mem_body (h : m.Framed) (hi : i ∈ m.body) :
    i.op ≠ .capability ∧ i.op ≠ .extension := by
  rcases Module.mem_body.mp hi with ⟨sec, hi⟩ | rfl | ⟨-, e, -, rfl⟩
  · by_cases hsec : sec = .functions
    · subst hsec
      have hrole := h.isInFunction i hi
      constructor <;> intro hop <;> rw [hop] at hrole <;> cases hrole
    · have hadmits := (h.sections sec hsec i hi).1
      constructor <;> intro hop <;> rw [hop] at hadmits <;> cases sec <;> cases hadmits
  · decide
  · exact ⟨Op.noConfusion, Op.noConfusion⟩

/-- Apart from types and annotations, nothing calls for a capability. -/
theorem Module.Framed.mem_uses (h : m.Framed) :
    c ∈ m.uses ↔ c = .shader ∨ ∃ i ∈ m.body, i.capability? = some c := by
  rw [uses, List.mem_cons, List.mem_filterMap]
  refine or_congr_right (exists_congr fun i => and_congr_left fun hc => ?_)
  have hrole : i.op.role = .type ∨ i.op.role = .decoration := by
    by_contra hnot
    obtain ⟨htype, hmark⟩ := not_or.mp hnot
    rw [capability?_of_role htype hmark] at hc
    cases hc
  rw [List.mem_append, Module.mem_body]
  constructor
  · rintro (hi | hi)
    · exact .inl ⟨.types, hi⟩
    · exact .inl ⟨.annotations, hi⟩
  · rintro (⟨sec, hi⟩ | rfl | ⟨-, e, -, rfl⟩)
    · cases sec with
      | types => exact .inl hi
      | annotations => exact .inr hi
      | functions =>
        have hfunction := h.isInFunction i hi
        rcases hrole with hrole | hrole <;> rw [hrole] at hfunction <;> cases hfunction
      | _ =>
        have hadmits := (h.sections _ (by decide) i hi).1
        rcases hrole with hrole | hrole <;> simp [Section.admits, hrole] at hadmits
    · rcases hrole with hrole | hrole <;> cases hrole
    · rcases hrole with hrole | hrole <;> cases hrole

/-! ## What the format prescribes -/

/-- A type of a number of `width` bits is declared. -/
def DeclaresNumber (insts : List Inst) (op : Op) (width : UInt32) : Prop :=
  ∃ i ∈ insts, i.op = op ∧ i.operands.head? = some (.literal width)

/-- A variable is marked as the built-in with the given number. -/
def MarksBuiltIn (insts : List Inst) (code : UInt32) : Prop :=
  ∃ i ∈ insts, i.op = .decorate ∧ ∃ var, i.operands = [.id var, .literal 11, .literal code]

/-- **What calls for a capability**: widths of numbers other than 32 bits, stages, and built-ins. -/
def CallsFor (asm : Assembler) (insts : List Inst) : Capability → Prop
  | .shader => True
  | .int8 => DeclaresNumber insts .typeInt 8
  | .int16 => DeclaresNumber insts .typeInt 16
  | .int64 => DeclaresNumber insts .typeInt 64
  | .float16 => DeclaresNumber insts .typeFloat 16
  | .float64 => DeclaresNumber insts .typeFloat 64
  -- `PrimitiveId`
  | .geometry => Opens asm .geometry ∨ MarksBuiltIn insts 7
  -- `TessCoord` and `PatchVertices`
  | .tessellation =>
    Opens asm .tessControl ∨ Opens asm .tessEval ∨ MarksBuiltIn insts 13 ∨ MarksBuiltIn insts 14
  -- `SampleId` and `SamplePosition`
  | .sampleRateShading => MarksBuiltIn insts 18 ∨ MarksBuiltIn insts 19
  | .meshShading => Opens asm .task ∨ Opens asm .mesh
  | .rayTracing =>
    ∃ stage ∈ [ShaderStage.rayGen, .rayClosestHit, .rayAnyHit, .rayIntersect, .rayMiss],
      Opens asm stage

theorem exists_capability? {insts : List Inst} : (∃ i ∈ insts, i.capability? = some c) ↔
    (∃ width, DeclaresNumber insts .typeInt width ∧ Build.intCapability? width = some c) ∨
    (∃ width, DeclaresNumber insts .typeFloat width ∧ Build.floatCapability? width = some c) ∨
    ∃ code, MarksBuiltIn insts code ∧ builtInCapability? code = some c := by
  constructor
  · rintro ⟨i, hi, hc⟩
    unfold Inst.capability? at hc
    split at hc
    next width _ hop hoperands =>
      exact .inl ⟨width, ⟨i, hi, hop, by rw [hoperands]; rfl⟩, hc⟩
    next width _ hop hoperands =>
      exact .inr (.inl ⟨width, ⟨i, hi, hop, by rw [hoperands]; rfl⟩, hc⟩)
    next var mark code hop hoperands =>
      split at hc
      next hmark =>
        rw [hmark] at hoperands
        exact .inr (.inr ⟨code, ⟨i, hi, hop, var, hoperands⟩, hc⟩)
      next => cases hc
    next => cases hc
  · rintro (⟨width, ⟨i, hi, hop, hwidth⟩, hc⟩ | ⟨width, ⟨i, hi, hop, hwidth⟩, hc⟩ |
      ⟨code, ⟨i, hi, hop, var, hoperands⟩, hc⟩)
    · obtain ⟨rest, hoperands⟩ := List.head?_eq_some_iff.mp hwidth
      exact ⟨i, hi, by rw [Inst.capability?, hop, hoperands]; exact hc⟩
    · obtain ⟨rest, hoperands⟩ := List.head?_eq_some_iff.mp hwidth
      exact ⟨i, hi, by rw [Inst.capability?, hop, hoperands]; exact hc⟩
    · exact ⟨i, hi, by rw [Inst.capability?, hop, hoperands]; exact hc⟩

theorem intCapability?_eq_some_iff {width : UInt32} : Build.intCapability? width = some c ↔
    width = 8 ∧ c = .int8 ∨ width = 16 ∧ c = .int16 ∨ width = 64 ∧ c = .int64 := by
  unfold Build.intCapability?
  split_ifs <;> simp_all [eq_comm]

theorem floatCapability?_eq_some_iff {width : UInt32} : Build.floatCapability? width = some c ↔
    width = 16 ∧ c = .float16 ∨ width = 64 ∧ c = .float64 := by
  unfold Build.floatCapability?
  split_ifs <;> simp_all [eq_comm]

theorem builtInCapability?_eq_some_iff {code : UInt32} : builtInCapability? code = some c ↔
    code = 7 ∧ c = .geometry ∨ (code = 13 ∨ code = 14) ∧ c = .tessellation ∨
      (code = 18 ∨ code = 19) ∧ c = .sampleRateShading := by
  unfold builtInCapability?
  split_ifs with hgeometry htessellation hsample
  · simp [hgeometry, eq_comm]
  · rcases htessellation with rfl | rfl <;> simp [eq_comm]
  · rcases hsample with rfl | rfl <;> simp [eq_comm]
  · simp [hgeometry, htessellation, hsample]

/-- The tables of the emission are those of the format. -/
theorem callsFor_iff {insts : List Inst} : CallsFor asm insts c ↔
    (c = .shader ∨ ∃ i ∈ insts, i.capability? = some c) ∨
      ∃ stage, Opens asm stage ∧ stage.capability? = some c := by
  have hstage : (∃ stage, Opens asm stage ∧ stage.capability? = some c) ↔
      c = .geometry ∧ Opens asm .geometry ∨
      c = .tessellation ∧ (Opens asm .tessControl ∨ Opens asm .tessEval) ∨
      c = .meshShading ∧ (Opens asm .task ∨ Opens asm .mesh) ∨
      c = .rayTracing ∧ ∃ stage ∈ [ShaderStage.rayGen, .rayClosestHit, .rayAnyHit, .rayIntersect,
        .rayMiss], Opens asm stage := by
    constructor
    · rintro ⟨stage, hopens, hc⟩
      cases stage <;> cases hc <;> simp [hopens]
    · rintro (⟨rfl, h⟩ | ⟨rfl, h | h⟩ | ⟨rfl, h | h⟩ | ⟨rfl, stage, hstage, h⟩)
      iterate 5 exact ⟨_, h, rfl⟩
      have hray : ∀ stage ∈ [ShaderStage.rayGen, .rayClosestHit, .rayAnyHit, .rayIntersect, .rayMiss],
          stage.capability? = some .rayTracing := by decide
      exact ⟨stage, h, hray stage hstage⟩
  have hcodes : ∀ a b, (∃ code, MarksBuiltIn insts code ∧ (code = a ∨ code = b)) ↔
      MarksBuiltIn insts a ∨ MarksBuiltIn insts b := fun a b => by simp [and_or_left, exists_or]
  rw [exists_capability?, hstage]
  simp only [intCapability?_eq_some_iff, floatCapability?_eq_some_iff,
    builtInCapability?_eq_some_iff]
  cases c with
  | geometry => simp [CallsFor, or_comm]
  | tessellation => simp [CallsFor, hcodes, or_comm, or_assoc, or_left_comm]
  | sampleRateShading => simp [CallsFor, hcodes]
  | _ => simp [CallsFor]

/-! ## Emission -/

/-- **A module declares exactly the capabilities that it needs**, once each and in the order of
    their numbers, at the start of its words; an extension is declared together with its capability.
    -/
theorem capabilities_exact {major minor : UInt8} {e : Emission}
    (h : emitModule asm major minor = .ok e) (hfatal : e.fatal = none) :
    let m := (lowerAll asm).1.module
    ∃ (capabilities : List Capability) (extensions : List Extension),
      splitWords (e.words.drop 5) = some (capabilities.map (fun c => [0x20011, c.code]) ++
        (extensions.map (·.inst) ++ m.body).map Inst.words) ∧
      (∀ i ∈ m.body, i.op ≠ .capability ∧ i.op ≠ .extension) ∧
      (capabilities.map (·.code)).Pairwise (· < ·) ∧
      (∀ c, c ∈ capabilities ↔ CallsFor asm m.body c) ∧
      (.meshShader ∈ extensions ↔ .meshShading ∈ capabilities) ∧
      (.rayTracing ∈ extensions ↔ .rayTracing ∈ capabilities) := by
  intro m
  have hstop := snd_lowerAll_of_fatal_none h hfatal
  have hframed : m.Framed := framed_lowerAll asm
  obtain ⟨-, hcovered⟩ := covers_lowerAll hstop (Nat.le_refl _)
  have hcapabilities : ∀ c, c ∈ m.capabilities ↔ CallsFor asm m.body c := by
    intro c
    rw [callsFor_iff, ← hframed.mem_uses]
    refine ⟨hcovered.needed c, fun hc => ?_⟩
    rcases hc with hc | ⟨stage, hopens, hc⟩
    · exact hcovered.uses hc
    · exact (serves_of_opens hstop hopens).1 c hc
  have hextensions : ∀ e, e ∈ m.extensions ↔ ∃ stage, Opens asm stage ∧ stage.extension? = some e :=
    fun e => ⟨hcovered.allowed e, fun ⟨stage, hopens, he⟩ => (serves_of_opens hstop hopens).2 e he⟩
  have hmem : ∀ c, c ∈ Capability.all.filter (m.capabilities.contains ·) ↔ CallsFor asm m.body c := by
    intro c
    rw [List.mem_filter, List.contains_iff_mem, hcapabilities]
    exact and_iff_right (by cases c <;> decide)
  refine ⟨_, Extension.all.filter (m.extensions.contains ·), ?_, fun i => hframed.ne_of_mem_body,
    ?_, hmem, ?_, ?_⟩
  · rw [(words_of_fatal_none h hfatal).1, Module.drop_words,
      splitWords_flatMap_words fun i hi => (hframed.sound_instructions i hi).1,
      Module.instructions_eq_body, List.map_append, List.map_map]
    have hinst : ∀ c : Capability, c.inst.words = [0x20011, c.code] := fun c => by
      cases c <;> decide
    exact congrArg (fun l => some (l ++ _)) (List.map_congr_left fun c _ => hinst c)
  · have hall : (Capability.all.map (·.code)).Pairwise (· < ·) := by decide
    exact hall.sublist (List.filter_sublist.map _)
  · rw [hmem, List.mem_filter, List.contains_iff_mem, hextensions]
    refine (and_iff_right (by decide)).trans ⟨fun ⟨stage, hopens, he⟩ => ?_, fun hc => ?_⟩
    · cases stage <;> cases he <;> simp [CallsFor, hopens]
    · rcases hc with hopens | hopens <;> exact ⟨_, hopens, rfl⟩
  · rw [hmem, List.mem_filter, List.contains_iff_mem, hextensions]
    refine (and_iff_right (by decide)).trans ⟨fun ⟨stage, hopens, he⟩ => ?_, fun hc => ?_⟩
    · cases stage <;> cases he <;> simp [CallsFor, hopens]
    · obtain ⟨stage, hstage, hopens⟩ := hc
      have hray : ∀ stage ∈ [ShaderStage.rayGen, .rayClosestHit, .rayAnyHit, .rayIntersect, .rayMiss],
          stage.extension? = some .rayTracing := by decide
      exact ⟨stage, hopens, hray stage hstage⟩

def sampleRun : List Operation :=
  [.pushType { opcode := .voidType }, .pushType { opcode := .sintType, operands := ⟨8, 0, 0⟩ },
    .pushType { opcode := .sintType, operands := ⟨32, 0, 0⟩ },
    .pushNew { opcode := .stageBegin, operands := ⟨2, 0, 0⟩ },
    .pushNew { opcode := .function, refs := ⟨⟨1⟩, .void, .void⟩ },
    .pushNew { opcode := .builtIn, operands := ⟨11, 0, 0⟩, resultType := ⟨3⟩ },
    .push { opcode := .functionEnd, refs := ⟨⟨5⟩, .void, .void⟩ },
    .push { opcode := .stageEnd, refs := ⟨⟨5⟩, .void, .void⟩ }]

/-- A type of eight bits and the number of a sample call for one capability each. -/
theorem capabilities_exact_sampleRun :
    ∃ e, emitModule (runAll sampleRun) 1 5 = .ok e ∧ e.isClean = true ∧
      (e.words.drop 5).take 6 = [0x20011, 1, 0x20011, 35, 0x20011, 39] ∧
      ∃ (capabilities : List Capability) (rest : List (List UInt32)),
        splitWords (e.words.drop 5) = some (capabilities.map (fun c => [0x20011, c.code]) ++ rest) ∧
        .int8 ∈ capabilities ∧ .sampleRateShading ∈ capabilities ∧ .int16 ∉ capabilities := by
  have hrun : (emitModule (runAll sampleRun) 1 5).toOption.map
      (fun e => (e.isClean, (e.words.drop 5).take 6)) =
        some (true, [0x20011, 1, 0x20011, 35, 0x20011, 39]) := by decide +kernel
  have huses : (lowerAll (runAll sampleRun)).1.module.body.filterMap Inst.capability? =
      [.sampleRateShading, .int8] := by decide +kernel
  have hcalls : ∀ c, CallsFor (runAll sampleRun)
      (lowerAll (runAll sampleRun)).1.module.body c ↔ (c = .shader ∨ c ∈ [.sampleRateShading, .int8]) ∨
      ∃ stage, Opens (runAll sampleRun) stage ∧ stage.capability? = some c := by
    intro c
    rw [callsFor_iff, ← List.mem_filterMap, huses]
  obtain ⟨e, h, hrun⟩ := exists_emission hrun
  obtain ⟨hclean, hwords⟩ := Prod.mk.inj hrun
  obtain ⟨capabilities, extensions, hsplit, -, -, hmem, -⟩ :=
    capabilities_exact h (fatal_of_isClean hclean)
  refine ⟨e, h, hclean, hwords, capabilities, _, hsplit, ?_, ?_, ?_⟩
  · exact (hmem _).mpr ((hcalls _).mpr (.inl (by decide)))
  · exact (hmem _).mpr ((hcalls _).mpr (.inl (by decide)))
  · intro hint
    rcases (hcalls _).mp ((hmem _).mp hint) with hc | ⟨stage, -, hc⟩
    · revert hc; decide
    · cases stage <;> cases hc

end

end ShaderIR.Spirv
