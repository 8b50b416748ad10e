import ShaderIR.Proofs.Spirv.DeclarationOrder
import ShaderIR.Proofs.Spirv.Shaping

/-!
# Reading a module back

A module is a header and a row of instructions, each of which states its length in the high half of
its first word.  **Reading by these lengths alone finds exactly the instructions that were
written**, and their operations come in the order that the format prescribes.
-/

namespace ShaderIR.Spirv

open Spirv.Module
open Operation (runAll)

/-! ## Control flow -/

/-- **Every emitted function is a control-flow skeleton**: a function instruction, its parameters,
    at least one block and the end of the function, with its variables directly behind the label of
    its first block.  -/
theorem functions_areFunctions {asm : Assembler} {major minor : UInt8} {e : Emission}
    (h : emitModule asm major minor = .ok e) (hfatal : e.fatal = none) :
    let m := (lowerAll asm).1.module
    ∃ functions : List (List Inst), (∀ f ∈ functions, IsFunction f) ∧ m.functions.toList = functions.flatten ∧
        e.words = m.header (versionWord major minor) ++
          (m.preamble ++ m.types.toList ++ m.constants.toList ++ m.globals.toList).flatMap Inst.words
            ++ functions.flatten.flatMap Inst.words := by
  intro m
  obtain ⟨functions, hflatten, hfunctions⟩ := (framed_lowerAll asm).functions
  refine ⟨functions, hfunctions, hflatten, ?_⟩
  rw [(words_of_fatal_none h hfatal).1, Module.words, instructions, ← hflatten, List.flatMap_append]
  exact (List.append_assoc _ _ _).symm

def trailingRun : List Operation :=
  [.pushType { opcode := .voidType }, .pushType { opcode := .floatType, operands := ⟨32, 0, 0⟩ },
    .pushNew { opcode := .function, refs := ⟨⟨1⟩, .void, .void⟩ }, .push { opcode := .ret },
    .pushNew { opcode := .localVar, refs := ⟨⟨2⟩, .void, .void⟩ }, .push { opcode := .discard }]

/-- What stands behind the return is a block of its own, and the variable is in the first block. -/
theorem functions_areFunctions_trailingRun :
    ∃ e, emitModule (runAll trailingRun) 1 5 = .ok e ∧ e.fatal = none ∧ e.problems.length = 1 ∧
      ∃ functions : List (List Inst),
        (∀ f ∈ functions, IsFunction f) ∧ functions.flatten.map (·.op) =
          [.function, .label, .variable, .ret, .label, .kill, .functionEnd] := by
  have hrun : (emitModule (runAll trailingRun) 1 5).toOption.map
      (fun e => (e.fatal, e.problems.length)) = some (none, 1) := by decide +kernel
  have hops : (lowerAll (runAll trailingRun)).1.module.functions.toList.map (·.op) =
      [.function, .label, .variable, .ret, .label, .kill, .functionEnd] := by decide +kernel
  obtain ⟨e, h, hrun⟩ := exists_emission hrun
  obtain ⟨hfatal, hproblems⟩ := Prod.mk.inj hrun
  obtain ⟨functions, hfunctions, hflatten, -⟩ := functions_areFunctions h hfatal
  refine ⟨e, h, hfatal, hproblems, functions, hfunctions, ?_⟩
  rw [← hflatten]
  exact hops

/-! ## Reading by length -/

def wordCount (w : UInt32) : Nat := w.toNat / 0x10000

def opNumber (w : UInt32) : Nat := w.toNat % 0x10000

/-- Splits words into instructions.  There is no result if an instruction has no words or more words
    than are left. -/
def splitWords : List UInt32 → Option (List (List UInt32))
  | [] => some []
  | w :: rest =>
    if wordCount w = 0 ∨ rest.length + 1 < wordCount w then none
    else
      (splitWords (rest.drop (wordCount w - 1))).map ((w :: rest.take (wordCount w - 1)) :: ·)
termination_by ws => ws.length
decreasing_by
  rw [List.length_drop, List.length_cons]
  omega

theorem toNat_headerWord {count code : Nat} (hcount : count < 0x10000) (hcode : code < 0x10000) :
    (headerWord count code).toNat = count * 0x10000 + code := by
  have hlt : count * 0x10000 + code < 2 ^ 32 := by omega
  unfold headerWord
  exact UInt32.toNat_ofNat_of_lt' hlt

theorem Op.code_lt (op : Op) : op.code < 0x10000 := by
  cases op <;> decide

variable {inst : Inst}

theorem Inst.length_words (inst : Inst) : inst.words.length = inst.operandWords.length + 1 := rfl

theorem Inst.header_words (h : inst.fits = true) :
    ∃ w, inst.words = w :: inst.operandWords ∧ wordCount w = inst.words.length ∧
      opNumber w = inst.op.code := by
  have hlength : inst.operandWords.length ≤ maxOperandWords := of_decide_eq_true h
  have hcode := inst.op.code_lt
  refine ⟨_, rfl, ?_, ?_⟩
  · unfold wordCount
    rw [toNat_headerWord (by unfold maxOperandWords at hlength; omega) hcode, inst.length_words]
    omega
  · unfold opNumber
    rw [toNat_headerWord (by unfold maxOperandWords at hlength; omega) hcode]
    omega

/-- **The cut behind the first instruction of a body**: the length in its first word is where the
    second one begins. -/
theorem OpenFunction.cut_body {f : OpenFunction} (h : ∀ i ∈ f.body.toList, i.fits = true) :
    let ws := f.body.toList.flatMap Inst.words
    let n := ws.head?.elim 0 wordCount
    ws.take n = (f.body.toList.take 1).flatMap Inst.words ∧
      ws.drop n = (f.body.toList.drop 1).flatMap Inst.words := by
  revert h
  cases f.body.toList with
  | nil => exact fun _ => ⟨rfl, rfl⟩
  | cons i rest =>
    intro h
    obtain ⟨w, hwords, hcount, -⟩ := i.header_words (h i List.mem_cons_self)
    have hhead : ((i :: rest).flatMap Inst.words).head?.elim 0 wordCount = i.words.length := by
      rw [← hcount, List.flatMap_cons, hwords]
      rfl
    dsimp only
    rw [hhead, List.flatMap_cons, List.take_left, List.drop_left]
    exact ⟨(List.append_nil _).symm, rfl⟩

theorem splitWords_words_append (h : inst.fits = true) (rest : List UInt32) :
    splitWords (inst.words ++ rest) = (splitWords rest).map (inst.words :: ·) := by
  obtain ⟨w, hwords, hcount, -⟩ := inst.header_words h
  rw [Inst.length_words] at hcount
  have hgood : ¬ (wordCount w = 0 ∨ (inst.operandWords ++ rest).length + 1 < wordCount w) := by
    rw [hcount, List.length_append]
    omega
  rw [hwords, List.cons_append, splitWords, if_neg hgood, hcount, Nat.add_sub_cancel,
    List.take_left, List.drop_left]

/-- **Reading by length finds the instructions that were written.** -/
theorem splitWords_flatMap_words {insts : List Inst} (h : ∀ inst ∈ insts, inst.fits = true) :
    splitWords (insts.flatMap Inst.words) = some (insts.map Inst.words) := by
  induction insts with
  | nil => rw [List.flatMap_nil, splitWords]; rfl
  | cons inst rest ih =>
    obtain ⟨hfits, hrest⟩ := List.forall_mem_cons.mp h
    rw [List.flatMap_cons, splitWords_words_append hfits, ih hrest]
    rfl

/-! ## The order of the operations -/

def InRole (role : Role) (ops : List Op) : Prop := ∀ op ∈ ops, op.role = role

/-- **The order of the operations in a module.**  There is at least one capability, and exactly one
    memory model; a length of an array is a constant among the types. -/
def LaidOut (ops : List Op) : Prop :=
  ∃ capabilities extensions libraries entryPoints modes names annotations types constants globals
      functions : List Op,
    ops = capabilities ++ extensions ++ libraries ++ [.memoryModel] ++ entryPoints ++ modes ++ names
        ++ annotations ++ types ++ constants ++ globals ++ functions ∧
      capabilities ≠ [] ∧ InRole .capability capabilities ∧ InRole .extension extensions ∧
      InRole .library libraries ∧ InRole .entryPoint entryPoints ∧ InRole .executionMode modes ∧
      InRole .debugName names ∧ InRole .decoration annotations ∧
      (∀ op ∈ types, op.role = .type ∨ op = .constant) ∧ InRole .constant constants ∧
      InRole .variable globals ∧ ∀ op ∈ functions, op.role.isInFunction = true

namespace Module

variable {m : Module}

theorem Framed.isInFunction (h : m.Framed) :
    ∀ i ∈ m.functions.toList, i.op.role.isInFunction = true := by
  obtain ⟨fs, hflatten, hfs⟩ := h.functions
  intro i hi
  rw [hflatten] at hi
  obtain ⟨f, hf, hi⟩ := List.mem_flatten.mp hi
  exact (hfs f hf).isInFunction i hi

theorem fits_extension (e : Extension) : e.inst.fits = true := by
  cases e <;> decide

/-- What follows the capabilities and extensions of a module. -/
def body (m : Module) : List Inst :=
  m.imports.toList ++ [memoryModel] ++ (m.entryPoints.toList.map (·.inst)).filter (·.fits)
    ++ m.executionModes.toList ++ m.debug.toList ++ m.annotations.toList ++ m.types.toList
    ++ m.constants.toList ++ m.globals.toList ++ m.functions.toList

theorem instructions_eq_body (m : Module) :
    m.instructions = (Capability.all.filter (m.capabilities.contains ·)).map (·.inst) ++
      ((Extension.all.filter (m.extensions.contains ·)).map (·.inst) ++ m.body) := by
  simp only [instructions, preamble, body, List.append_assoc]

theorem mem_body : inst ∈ m.body ↔ (∃ sec, inst ∈ (m.contents sec).toList) ∨ inst = memoryModel ∨
    inst.fits = true ∧ ∃ e ∈ m.entryPoints.toList, e.inst = inst := by
  simp only [body, List.mem_append, List.mem_singleton, List.mem_filter, List.mem_map]
  constructor
  · rintro (((((((((h | h) | ⟨h, hfits⟩) | h) | h) | h) | h) | h) | h) | h)
    · exact .inl ⟨.imports, h⟩
    · exact .inr (.inl h)
    · exact .inr (.inr ⟨hfits, h⟩)
    · exact .inl ⟨.executionModes, h⟩
    · exact .inl ⟨.debug, h⟩
    · exact .inl ⟨.annotations, h⟩
    · exact .inl ⟨.types, h⟩
    · exact .inl ⟨.constants, h⟩
    · exact .inl ⟨.globals, h⟩
    · exact .inl ⟨.functions, h⟩
  · rintro (⟨sec, h⟩ | h | ⟨hfits, h⟩)
    · cases sec <;> simp only [contents] at h <;> simp only [h, true_or, or_true]
    · simp only [h, true_or, or_true]
    · simp only [h, hfits, and_self, true_or, or_true]

theorem mem_instructions_of_mem_body (h : inst ∈ m.body) : inst ∈ m.instructions := by
  rw [instructions_eq_body]
  exact List.mem_append_right _ (List.mem_append_right _ h)

theorem Framed.sound_instructions (h : m.Framed) : ∀ i ∈ m.instructions, i.Sound m.bound := by
  intro i hi
  rw [instructions_eq_body, List.mem_append, List.mem_append, mem_body] at hi
  rcases hi with hi | hi | ⟨sec, hi⟩ | rfl | ⟨hfits, e, -, rfl⟩
  · obtain ⟨c, -, rfl⟩ := List.mem_map.mp hi
    exact sound_of_result_none rfl rfl
  · obtain ⟨e, -, rfl⟩ := List.mem_map.mp hi
    exact sound_of_result_none (fits_extension e) rfl
  · by_cases hsec : sec = .functions
    · subst hsec
      exact h.bodies i hi
    · exact (h.sections sec hsec i hi).2
  · exact sound_of_result_none rfl rfl
  · exact sound_of_result_none hfits rfl

theorem drop_words (m : Module) (version : UInt32) :
    (m.words version).drop 5 = m.instructions.flatMap Inst.words := by
  show (m.words version).drop (m.header version).length = _
  rw [words, List.drop_left]

end Module

/-! ## Emission -/

end ShaderIR.Spirv
