import ShaderIR.Proofs.Assembler.Runs
import ShaderIR.Proofs.Spirv.Lowering.Positions

/-!
# Declarations and the order of a module

A reader of a module meets every type, constant and variable after the ids that it uses, **with one
exception**: an array type whose length was asked for as a value before.  Constants are shared, so
the length then stands among the constants, behind the array.
-/

namespace ShaderIR.Spirv

open Discipline Spirv.Module
open Operation (runAll)

section

/-- Declarations stay in order while a stream is lowered, and types are declared. -/
def lowering : Discipline Lowering where
  Inv s := s.module.Ordered ∧ ∀ e ∈ s.typeIds.entries, s.module.IsType e.2
  Grows s s' := s.module.Extends s'.module
  refl s := Extends.refl s.module
  trans := Extends.trans

variable {α : Type} {s : Lowering}

/-! ## Steps on the module, and steps apart from it -/

variable {b : Build α}

theorem runs_ofBuild {Q : α → Module → Prop} (h : declaring.Runs b s.module Q) :
    lowering.Runs (Lower.ofBuild b) s fun a s' => Q a s'.module := by
  rintro ⟨hord, htypes⟩
  obtain ⟨hext, hord', hpost⟩ := h hord
  exact ⟨hext, ⟨hord', fun e he => (htypes e he).extends hext⟩, hpost⟩

theorem keeps_onModule (h : declaring.Keeps b) : lowering.Keeps (onModule b) :=
  fun s => runs_ofBuild (h s.module)

variable {x : Lower α}

theorem keeps_apart (h : ∀ s, (x.run s).2.module = s.module ∧ (x.run s).2.typeIds = s.typeIds) :
    lowering.Keeps x := by
  rintro s ⟨hord, htypes⟩
  obtain ⟨hmodule, htypeIds⟩ := h s
  change s.module.Extends (x.run s).2.module ∧ ((x.run s).2.module.Ordered ∧
    ∀ e ∈ (x.run s).2.typeIds.entries, (x.run s).2.module.IsType e.2) ∧ True
  rw [hmodule, htypeIds]
  exact ⟨Extends.refl _, ⟨hord, htypes⟩, trivial⟩

theorem keeps_idFor (id : ResultId) : lowering.Keeps (idFor id) :=
  keeps_idFor_of (keeps_onModule Build.keeps_fresh) fun _ => keeps_apart fun _ => ⟨rfl, rfl⟩

theorem typeRules_lowering (asm : Assembler) :
    TypeRules asm lowering fun n s => s.module.IsType n where
  carry hgrows h := h.extends hgrows
  intType width signed _ := runs_ofBuild (Build.runs_intType width signed)
  floatType width _ := runs_ofBuild (Build.runs_floatType width)
  type _ _ _ hids := runs_ofBuild (Build.runs_type fun id hid => .inl (hids id hid))
  arrayType length h := runs_ofBuild (Build.runs_arrayType h length)
  known hs hid := hs.2 _ (Table.mem_of_get? hid)
  newType _ hids := runs_ofBuild (Build.runs_newType fun id hid => .inl (hids id hid))
  debug _ hi := keeps_onModule (Build.keeps_remark rfl hi)
  note _ _ _ hn := by
    rintro ⟨hord, htypes⟩
    refine ⟨Extends.refl _, ⟨hord, fun e he => ?_⟩, trivial⟩
    rcases Table.mem_insert he with rfl | he
    · exact hn
    · exact htypes e he

theorem bodyRules_lowering : BodyRules lowering where
  report _ := keeps_apart fun _ => ⟨rfl, rfl⟩
  fresh := keeps_onModule Build.keeps_fresh
  function _ := keeps_apart fun _ => ⟨rfl, rfl⟩
  append _ := keeps_onModule (Build.keeps_aside fun _ => ⟨_, _, _, _, _, rfl⟩)

/-! ## The steps of lowering -/

def Fact.Holds (m : Module) : Fact → Prop
  | .known _ => True
  | .type n => m.IsType n
  | .constant n => m.IsDeclared n

theorem Fact.Holds.extends {m m' : Module} {f : Fact} (h : f.Holds m) (hext : m.Extends m') :
    f.Holds m' := by
  cases f with
  | known n => trivial
  | type n => exact IsType.extends h hext
  | constant n => exact IsDeclared.extends h hext

def InOrder (c : Standing) (s : Lowering) : Prop :=
  lowering.Inv s ∧ ∀ f ∈ c.facts, f.Holds s.module

variable {c : Standing}

theorem inOrder_turns {l : α → List Fact} {Q : α → Lowering → Prop}
    (hx : ∀ s, (∀ f ∈ c.facts, f.Holds s.module) → lowering.Runs x s Q)
    (hfacts : ∀ a s, Q a s → ∀ f ∈ l a, f.Holds s.module) :
    Turns x (InOrder c) fun a => InOrder (c.learn (l a)) := by
  rintro s ⟨hinv, hs⟩
  obtain ⟨hext, hinv', hpost⟩ := hx s hs hinv
  refine ⟨hinv', fun f hf => ?_⟩
  rcases List.mem_append.mp hf with hf | hf
  · exact hfacts _ _ hpost f hf
  · exact (hs f hf).extends hext

theorem inOrder_keeps (hx : lowering.Keeps x) : Turns x (InOrder c) :=
  inOrder_turns (l := fun _ => []) (fun s _ => hx s) fun _ _ _ _ hf => absurd hf List.not_mem_nil

theorem inOrder_type {b : Build ModuleId}
    (h : ∀ m : Module, (∀ f ∈ c.facts, f.Holds m) → declaring.Runs b m fun n m' => m'.IsType n) :
    Turns (Lower.ofBuild b) (InOrder c) fun n => InOrder (c.learn [.type n]) :=
  inOrder_turns (fun s hs => runs_ofBuild (h s.module hs)) fun _ _ hn _ hf => by
    rw [List.mem_singleton.mp hf]
    exact hn

theorem inOrder_apart (h : ∀ s, (x.run s).2.module = s.module ∧ (x.run s).2.typeIds = s.typeIds) :
    Turns x (InOrder c) := inOrder_keeps (keeps_apart h)

theorem inOrder_aside (h : ∀ m, ∃ capabilities extensions entryPoints functions blocks,
    (b.run m).2 = { m with capabilities, extensions, entryPoints, functions, blocks }) :
    Turns (Lower.ofBuild b) (InOrder c) :=
  inOrder_keeps (keeps_onModule (Build.keeps_aside h))

theorem isDeclared_of_isConstant {m : Module} (hm : m.Ordered) {id : ModuleId}
    (h : m.isConstant id = true) : m.IsDeclared id := by
  intro hover
  obtain ⟨e, he, heq⟩ := List.any_eq_true.mp h
  rw [← eq_of_beq heq]
  exact (hm hover).constantIds e he

/-- **Lowering keeps the declarations in order**: what a declaration is made of was declared before.
    -/
theorem steps_inOrder (asm : Assembler) (inst : Instruction) : Steps asm InOrder inst where
  forget h hs := ⟨hs.1, fun f hf => hs.2 f (h f hf)⟩
  found h hs := by
    refine ⟨hs.1, fun f hf => (List.mem_append.mp hf).elim (fun hf => ?_) (hs.2 f)⟩
    obtain ⟨n, hn, rfl⟩ := List.mem_map.mp hf
    exact isDeclared_of_isConstant hs.1.1 (h n hn)
  report _ := inOrder_apart fun _ => ⟨rfl, rfl⟩
  fresh := inOrder_keeps (keeps_onModule Build.keeps_fresh)
  idFor id := inOrder_turns (fun s _ => keeps_idFor id s) fun _ _ _ f hf => by
    rw [List.mem_singleton.mp hf]
    trivial
  own _ := inOrder_keeps (keeps_idFor inst.id)
  bindId {c _} _ _ := (inOrder_apart fun _ => ⟨rfl, rfl⟩).weaken fun _ _ hs => ⟨c, hs⟩
  setPlace _ := inOrder_apart fun _ => ⟨rfl, rfl⟩
  addParam _ := inOrder_apart fun _ => ⟨rfl, rfl⟩
  note _ _ h := inOrder_keeps fun s => by
    obtain ⟨_, _, _, _, heq⟩ := h s
    refine .modify fun hs => ?_
    rw [heq]
    exact ⟨Extends.refl _, hs, trivial⟩
  overflow := inOrder_apart fun _ => ⟨rfl, rfl⟩
  setStage _ _ := inOrder_apart fun _ => ⟨rfl, rfl⟩
  lowerType {c} id s hs := by
    obtain ⟨hext, hinv, hpost⟩ := (typeRules_lowering asm).tries_lowerTypeAt _ [] id s hs.1
    have hfacts : ∀ f ∈ c.facts, f.Holds ((lowerType asm id).run.run s).2.module := fun f hf =>
      (hs.2 f hf).extends hext
    change ((lowerType asm id).run.run s).1.elim _ _
    cases hrun : ((lowerType asm id).run.run s).1 with
    | none => exact ⟨hinv, hfacts⟩
    | some n => exact ⟨hinv, List.forall_mem_cons.mpr ⟨(hpost n hrun).2, hfacts⟩⟩
  capability _ := inOrder_aside fun _ => ⟨_, _, _, _, _, rfl⟩
  extension _ := inOrder_aside fun _ => ⟨_, _, _, _, _, rfl⟩
  intType width signed := inOrder_type fun _ _ => Build.runs_intType width signed
  floatType width := inOrder_type fun _ _ => Build.runs_floatType width
  type _ _ _ huses := inOrder_type fun _ hs => Build.runs_type fun id hid => (huses id hid).imp (hs _) fun h =>
    ⟨h.1, h.2.1, hs (.constant id) h.2.2⟩
  newType _ huses := inOrder_type fun _ hs => Build.runs_newType fun id hid => .inl (hs _ (huses id hid))
  constantIn _ _ htype hsec := inOrder_turns
    (fun _ hs => runs_ofBuild (Build.runs_constantIn (hs _ htype) (hsec.imp (fun h => ⟨h.1, h.2.1⟩)
      fun h => ⟨h.1, fun id hid => hs (.constant id) (h.2 id hid)⟩))) fun _ _ hn f hf => by
      simp only [List.mem_cons, List.not_mem_nil, or_false] at hf
      rcases hf with rfl | rfl
      · trivial
      · exact hn
  extInstSet := inOrder_keeps (keeps_onModule Build.keeps_extInstSet)
  remark hsec _ hi _ := inOrder_keeps (keeps_onModule (Build.keeps_remark hsec hi))
  global _ _ huses := inOrder_turns (l := fun _ => [])
    (fun s hs => runs_ofBuild (Q := fun _ _ => True) fun hm => by
      obtain ⟨hext, hord⟩ := emit_globals _ hm fun id hid =>
        (huses id hid).elim (fun h => IsType.isDeclared (hs _ h)) (hs _)
      exact ⟨hext, hord, trivial⟩)
    fun _ _ _ _ hf => absurd hf List.not_mem_nil
  block _ := inOrder_aside fun _ => ⟨_, _, _, _, _, rfl⟩
  addEntryPoint _ _ := inOrder_aside fun _ => ⟨_, _, _, _, _, rfl⟩
  modifyEntryPoint _ _ _ := inOrder_aside fun _ => ⟨_, _, _, _, _, rfl⟩
  compute _ := inOrder_keeps (bodyRules_lowering.editRules.keeps_emit trivial _)
  call _ _ := inOrder_keeps (bodyRules_lowering.editRules.keeps_emit trivial _)
  terminate _ _ := inOrder_keeps (bodyRules_lowering.editRules.keeps_terminate trivial _)
  beginBlock := inOrder_keeps (bodyRules_lowering.editRules.keeps_beginBlock trivial _)
  addLocal _ _ _ := inOrder_apart fun _ => ⟨rfl, rfl⟩
  addParameter _ _ _ _ := inOrder_apart fun _ => ⟨rfl, rfl⟩
  openFunction _ _ _ _ _ := inOrder_apart fun _ => ⟨rfl, rfl⟩
  takeFunction _ := inOrder_apart fun _ => ⟨rfl, rfl⟩
  closeFunction _ := inOrder_keeps (bodyRules_lowering.keeps_closeFunction _)
  appendFunction _ _ _ _ := inOrder_aside fun _ => ⟨_, _, _, _, _, rfl⟩

end

/-! ## Whole streams -/

section

variable (asm : Assembler)

theorem inv_lowerInstruction {s : Lowering} (h : lowering.Inv s) (i : Nat) (inst : Instruction) :
    lowering.Inv (lowerInstruction asm i inst s) := by
  have hstart : InOrder {} s := ⟨h, nofun⟩
  obtain ⟨_, hend⟩ := ((steps_inOrder asm inst).finishes_attempt (fun _ => rfl) i).run s hstart
  exact hend.1

theorem inv_lowerFrom (insts : List Instruction) (i : Nat) {s : Lowering} (h : lowering.Inv s) :
    lowering.Inv (lowerFrom asm i insts s).1 := by
  induction insts generalizing i s with
  | nil => exact h
  | cons inst rest ih =>
    rw [lowerFrom]
    split
    · exact h
    · exact ih (i + 1) (inv_lowerInstruction asm h i inst)

theorem inv_lowerAll : lowering.Inv (lowerAll asm).1 := by
  have hempty : lowering.Inv {} := ⟨fun _ => settled_empty, nofun⟩
  have S := steps_inOrder asm { opcode := .functionEnd }
  have hends : ∀ {x : Lower Unit}, Turns x (InOrder {}) (fun _ => Ends InOrder) →
      ∀ s, lowering.Inv s → lowering.Inv (x.run s).2 := by
    intro x hx s hs
    obtain ⟨_, hend⟩ := hx s ⟨hs, nofun⟩
    exact hend.1
  exact lowerAll_of (inv_lowerFrom asm asm.code.toList 0 hempty) (hends (S.closeAll rfl))
    (hends (S.writeNames.weaken fun _ _ hs => ⟨_, hs⟩))

end

/-! ## The order of the sections -/

namespace Module

variable {m : Module}

theorem Settled.results_preamble (h : m.Settled) :
    results m.preamble = results m.imports.toList := by
  have hsilent := h.silent
  rw [results_append, results_append] at hsilent
  rw [Module.results_preamble, List.append_assoc, List.append_assoc,
    ← List.append_assoc (results m.executionModes.toList), hsilent, List.append_nil]

theorem Settled.uses_types (h : m.Settled) :
    UsesOk (fun before inst id => id ∈ results (m.preamble ++ before) ↔ ¬ m.LateLength inst id)
      m.types.toList := by
  intro before inst after hsplit id hid
  constructor
  · intro hbefore hlate
    -- A late length is the result of a constant, and no constant shares its id with a type.
    refine h.apart id hlate.2.2 ?_
    rw [results_append, h.results_preamble, List.mem_append] at hbefore
    rw [hsplit, results_append, results_append, List.mem_append, List.mem_append]
    exact hbefore.imp_right Or.inl
  · intro hlate
    have hbefore := (h.types before inst after hsplit id hid).resolve_right hlate
    rw [results_append]
    exact List.mem_append_right _ hbefore

theorem Settled.uses_constants (h : m.Settled) :
    UsesOk (fun before _ id => id ∈ results (m.preamble ++ m.types.toList ++ before))
      m.constants.toList := by
  refine h.constants.mono fun before inst id hid => ?_
  rw [List.append_assoc, results_append]
  exact List.mem_append_right _ hid

theorem Settled.uses_globals (h : m.Settled) : UsesOk (fun before _ id =>
        id ∈ results (m.preamble ++ m.types.toList ++ m.constants.toList ++ before))
      m.globals.toList := by
  intro before inst after hsplit id hid
  have hinst : inst ∈ m.globals.toList := hsplit ▸ List.mem_append_right _ List.mem_cons_self
  have hdeclared := h.globals inst hinst id hid
  rw [List.append_assoc m.preamble, results_append, results_append]
  exact List.mem_append_left _ (List.mem_append_right _ hdeclared)

/-- Every id that a type, a constant or a variable uses is the result of an earlier instruction. -/
structure DeclaredFirst (m : Module) : Prop where
  types : UsesOk (fun before _ id => id ∈ results (m.preamble ++ before)) m.types.toList
  constants : UsesOk (fun before _ id => id ∈ results (m.preamble ++ m.types.toList ++ before))
    m.constants.toList
  globals : UsesOk (fun before _ id =>
      id ∈ results (m.preamble ++ m.types.toList ++ m.constants.toList ++ before))
    m.globals.toList

theorem LateLength.mem_uses {inst : Inst} {id : ModuleId} (h : m.LateLength inst id) :
    id ∈ inst.uses := by
  have hmem : Operand.id id ∈ inst.operands := List.mem_of_getElem? h.2.1
  exact List.mem_append_right _ (List.mem_filterMap.mpr ⟨_, hmem, rfl⟩)

theorem Settled.declaredFirst_iff (h : m.Settled) :
    m.DeclaredFirst ↔ ∀ inst ∈ m.types.toList, ∀ id, ¬ m.LateLength inst id := by
  constructor
  · intro hfirst inst hinst id hlate
    obtain ⟨before, after, hsplit⟩ := List.append_of_mem hinst
    have hid := hlate.mem_uses
    exact (h.uses_types before inst after hsplit id hid).mp
      (hfirst.types before inst after hsplit id hid) hlate
  · intro hnone
    refine ⟨fun before inst after hsplit id hid => ?_, h.uses_constants, h.uses_globals⟩
    have hinst : inst ∈ m.types.toList := hsplit ▸ List.mem_append_right _ List.mem_cons_self
    exact (h.uses_types before inst after hsplit id hid).mpr (hnone inst hinst id)

end Module

/-! ## Where a late length comes from -/

def sparing : Discipline Module where
  Inv _ := True
  Grows m m' := m'.constants = m.constants
  refl _ := rfl
  trans h1 h2 := h2.trans h1

namespace Build

theorem sparing_modify {f : Module → Module} (h : ∀ m, (f m).constants = m.constants) :
    sparing.Keeps (modify f : Build Unit) := fun m _ => ⟨h m, trivial, trivial⟩

theorem sparing_fresh : sparing.Keeps fresh := fun _ _ => ⟨rfl, trivial, trivial⟩

theorem sparing_emit (inst : Inst) : sparing.Keeps (emit .types inst) := by
  refine sparing_modify fun m => ?_
  unfold Module.emit
  split <;> rfl

theorem sparing_type (op : Op) (operands : List Operand) : sparing.Keeps (type op operands) := by
  refine .get_bind fun m => ?_
  split
  · exact .pure _
  · have hnew : sparing.Keeps (newType op operands) :=
      sparing_fresh.bind fun id => (sparing_emit _).bind fun _ => .pure id
    exact hnew.bind fun id => (sparing_modify fun _ => rfl).bind fun _ => .pure id

theorem sparing_constantIn (type : ModuleId) (op : Op) (operands : List Operand) :
    sparing.Keeps (constantIn .types type op operands) := by
  refine .get_bind fun m => ?_
  split
  · exact .pure _
  · refine sparing_fresh.bind fun id => (sparing_emit _).bind fun _ => ?_
    exact (sparing_modify fun _ => rfl).bind fun _ => .pure id

/-- The length of an array type is either new, and then in front of it, or stood among the constants
    before the array was asked for. -/
theorem constants_arrayType (m : Module) (element : ModuleId) (length : UInt32) :
    ((arrayType element length).run m).2.constants = m.constants := by
  have hcapability : ∀ c, sparing.Keeps (requireCapability c) := fun c => sparing_modify fun _ => rfl
  have hint : sparing.Keeps (intType 32 false) :=
    (Keeps.forM_option hcapability).bind fun _ => sparing_type _ _
  have harray : sparing.Keeps (arrayType element length) :=
    hint.bind fun _ => (sparing_constantIn _ _ _).bind fun _ => sparing_type _ _
  exact (harray m trivial).1

end Build

/-! ## Emission -/

/-- **Declarations precede their uses, late lengths apart.**  In a clean emission all uses in types,
    constants and module variables are of earlier results if and only if no array type has its
    length among the constants, and such a length stood there before the array was asked for. -/
theorem declaredFirst_iff_of_isClean {asm : Assembler} {major minor : UInt8} {e : Emission}
    (h : emitModule asm major minor = .ok e) (hclean : e.isClean = true) :
    let m := (lowerAll asm).1.module
    e.words = m.header (versionWord major minor) ++
        (m.preamble ++ m.types.toList ++ m.constants.toList ++ m.globals.toList
          ++ m.functions.toList).flatMap Inst.words ∧
      (m.DeclaredFirst ↔ ∀ inst ∈ m.types.toList, ∀ id, ¬ m.LateLength inst id) ∧
      UsesOk (fun before inst id => id ∈ results (m.preamble ++ before) ↔ ¬ m.LateLength inst id)
        m.types.toList ∧ UsesOk (fun before _ id => id ∈ results (m.preamble ++ m.types.toList ++ before))
        m.constants.toList ∧ UsesOk (fun before _ id =>
          id ∈ results (m.preamble ++ m.types.toList ++ m.constants.toList ++ before))
        m.globals.toList ∧
      ∀ m0 element length, ((Build.arrayType element length).run m0).2.constants = m0.constants := by
  intro m
  obtain ⟨-, -, hover, -⟩ := (isClean_iff h).mp hclean
  have hwords := (words_of_fatal_none h (fatal_of_isClean hclean)).1
  have hsettled : m.Settled := (inv_lowerAll asm).1 hover
  refine ⟨?_, hsettled.declaredFirst_iff, hsettled.uses_types, hsettled.uses_constants,
    hsettled.uses_globals, Build.constants_arrayType⟩
  rw [hwords, Module.words, instructions]

def lateLengthRun : List Operation :=
  [.pushType { opcode := .uintType, operands := ⟨32, 0, 0⟩ },
    .pushValue { opcode := .intLit, operands := ⟨4, 0, 0⟩ } ⟨1⟩,
    .pushType { opcode := .floatType, operands := ⟨32, 0, 0⟩ },
    .pushType { opcode := .arrayType, operands := ⟨4, 0, 0⟩, refs := ⟨⟨3⟩, .void, .void⟩ }]

theorem not_declaredFirst_lateLengthRun :
    ∃ e, emitModule (runAll lateLengthRun) 1 5 = .ok e ∧ e.isClean = true ∧
      e.words = [magic, 0x10500, generator, 5, 0, 131089, 1, 196622, 0, 1,
        262165, 1, 32, 0, 196630, 3, 32, 262172, 4, 3, 2, 262187, 1, 2, 4] ∧
      ¬ (lowerAll (runAll lateLengthRun)).1.module.DeclaredFirst := by
  have hrun : (emitModule (runAll lateLengthRun) 1 5).toOption = some
      { words := [magic, 0x10500, generator, 5, 0, 131089, 1, 196622, 0, 1,
          262165, 1, 32, 0, 196630, 3, 32, 262172, 4, 3, 2, 262187, 1, 2, 4] } := by
    decide +kernel
  have hlate : ∃ inst ∈ (lowerAll (runAll lateLengthRun)).1.module.types.toList,
      inst.op = .typeArray ∧ inst.operands[1]? = some (.id 2) ∧
        2 ∈ results (lowerAll (runAll lateLengthRun)).1.module.constants.toList := by
    decide +kernel
  cases h : emitModule (runAll lateLengthRun) 1 5 with
  | error e => rw [h] at hrun; cases hrun
  | ok e =>
    rw [h] at hrun
    cases hrun
    refine ⟨_, rfl, rfl, rfl, fun hfirst => ?_⟩
    obtain ⟨inst, hinst, hlength⟩ := hlate
    exact (declaredFirst_iff_of_isClean h rfl).2.1.mp hfirst inst hinst 2 hlength

end ShaderIR.Spirv
