import ShaderIR.Proofs.Assembler.Definitions
import ShaderIR.Proofs.Spirv.BinaryLayout
import ShaderIR.Proofs.Spirv.Ledger

/-!
# Every id is defined once

Each instruction settles its own id, and no id is settled twice.  So **no two instructions of a
module define the same id**, although literals and reads of parameters stand for something that is
already there.
-/

namespace ShaderIR.Spirv

open Discipline Spirv.Module
open Operation (runAll)

variable {s : Lowering}

variable {Awaits : ResultId → Prop} {owed : List ModuleId} {asm : Assembler} {inst : Instruction}

/-! ## Whole streams -/

theorem Balanced.clear {Left : ResultId → Prop} {c : Standing}
    (h : Balanced Awaits Left inst c s) (hleft : ∀ y, Left y → Awaits y) : Ledger Left [] s := by
  refine (h.2.mono fun y hy => ?_).forgive (List.nil_sublist _)
  split
  · exact hleft y hy
  · exact hy

theorem Balanced.lowerInstruction {Left : ResultId → Prop} {c : Standing}
    (h : Balanced Awaits Left inst c s) (hc : hasResult inst.opcode = true → c.awaited = true)
    (hleft : ∀ y, Left y → Awaits y) (i : Nat) :
    Ledger Left [] (lowerInstruction asm i inst s) := by
  obtain ⟨d, hend⟩ := ((steps_ledger asm).finishes_attempt hc i).run s h
  exact hend.clear hleft

/-- The ids that no instruction in front of position `i` defines. -/
def UndefinedBefore (asm : Assembler) (i : Nat) (id : ResultId) : Prop :=
  ∀ j < i, ¬ asm.DefinesAt j id

theorem Ledger.lowerInstruction {i : Nat} (h : Ledger (UndefinedBefore asm i) [] s)
    (hi : asm.code[i]? = some inst) (hsingle : asm.SinglyDefined)
    (hid : hasResult inst.opcode = true → inst.id.isVoid = false) :
    Ledger (UndefinedBefore asm (i + 1)) [] (lowerInstruction asm i inst s) := by
  have hbefore : ∀ y, UndefinedBefore asm (i + 1) y → UndefinedBefore asm i y :=
    fun y hy j hj => hy j (Nat.lt_succ_of_lt hj)
  cases hop : hasResult inst.opcode with
  | false =>
    have hstart : Balanced (UndefinedBefore asm i) (UndefinedBefore asm i) inst { awaited := false } s :=
      ⟨nofun, h⟩
    exact (hstart.lowerInstruction (by rw [hop]; nofun) (fun _ hy => hy) i).mono hbefore
  | true =>
    have hdefines : asm.DefinesAt i inst.id := ⟨by simpa [ResultId.isVoid] using hid hop, inst, hi, rfl⟩
    have hown : UndefinedBefore asm i inst.id := fun j hj hdef =>
      Nat.lt_irrefl _ (hsingle j i _ hdef hdefines ▸ hj)
    have hstart : Balanced (UndefinedBefore asm i) (Without (UndefinedBefore asm i) inst.id) inst {} s :=
      ⟨fun _ => ⟨hown, rfl⟩, h⟩
    refine (hstart.lowerInstruction (fun _ => rfl) (fun _ hy => hy.1) i).mono fun y hy =>
      ⟨hbefore y hy, ?_⟩
    rintro rfl
    exact hy i (Nat.lt_succ_self i) hdefines

theorem Ledger.lowerFrom (hsingle : asm.SinglyDefined)
    (hids : ∀ inst ∈ asm.code.toList, hasResult inst.opcode = true → inst.id.isVoid = false)
    (insts : List Instruction) (i : Nat) (hinsts : insts = asm.code.toList.drop i)
    (h : Ledger (UndefinedBefore asm i) [] s) :
    ∃ j, Ledger (UndefinedBefore asm j) [] (lowerFrom asm i insts s).1 := by
  induction insts generalizing i s with
  | nil => exact ⟨i, h⟩
  | cons inst rest ih =>
    have hget : asm.code.toList[i]? = some inst := by
      rw [← List.head?_drop, ← hinsts, List.head?_cons]
    have hrest : rest = asm.code.toList.drop (i + 1) := by
      rw [← List.tail_drop, ← hinsts, List.tail_cons]
    rw [Spirv.lowerFrom]
    split
    · exact ⟨i, h⟩
    · refine ih (i + 1) hrest (h.lowerInstruction (by simpa using hget) hsingle ?_)
      exact hids inst (List.mem_of_getElem? hget)

theorem nodup_defined_lowerAll (hsingle : asm.SinglyDefined)
    (hids : ∀ inst ∈ asm.code.toList, hasResult inst.opcode = true → inst.id.isVoid = false) :
    (lowerAll asm).1.defined.Nodup := by
  have hempty : Ledger (UndefinedBefore asm 0) [] {} :=
    { nodup := List.nodup_nil
      below := nofun
      reserved := fun y n _ hn => by cases hn
      apart := fun y z n _ _ hn => by cases hn }
  obtain ⟨j, hstream⟩ := Ledger.lowerFrom hsingle hids asm.code.toList 0 rfl hempty
  -- What ends a stream takes up no id of it.
  let last : Instruction := { opcode := .functionEnd }
  have hends : ∀ {x : Lower Unit}, (∀ Awaits, Turns x (Balanced Awaits Awaits last { awaited := false })
      fun _ => Ends (Balanced Awaits Awaits last)) →
      ∀ s, (∃ Awaits, Ledger Awaits [] s) → ∃ Awaits, Ledger Awaits [] (x.run s).2 := by
    rintro x hx s ⟨Awaits, hs⟩
    obtain ⟨c, hend⟩ := hx Awaits s ⟨nofun, hs⟩
    exact ⟨Awaits, hend.clear fun _ hy => hy⟩
  obtain ⟨_, hall⟩ := lowerAll_of ⟨_, hstream⟩ (hends fun _ => (steps_ledger asm).closeAll rfl)
    (hends fun _ => (steps_ledger asm).writeNames.weaken fun _ _ hs => ⟨_, hs⟩)
  exact hall.nodup

/-! ## The emitted module -/

/-- **A module is in single-assignment form.**  If no two instructions of the stream define the same
    id, and all that stand for something define one, then no two instructions of the module define
    the same id, and every id is below the bound of the header. -/
theorem nodup_results_instructions {asm : Assembler} {major minor : UInt8} {e : Emission}
    (hsingle : asm.SinglyDefined)
    (hids : ∀ inst ∈ asm.code.toList, hasResult inst.opcode = true → inst.id.isVoid = false)
    (h : emitModule asm major minor = .ok e) (hfatal : e.fatal = none) :
    let m := (lowerAll asm).1.module
    splitWords (e.words.drop 5) = some (m.instructions.map Inst.words) ∧ (results m.instructions).Nodup ∧
        ∃ bound, e.words[3]? = some bound ∧ ∀ n ∈ results m.instructions, 1 ≤ n ∧ n < bound.toNat := by
  intro m
  obtain ⟨hwords, hbound⟩ := words_of_fatal_none h hfatal
  have hsound := (framed_lowerAll asm).sound_instructions
  have hdrop : e.words.drop 5 = m.instructions.flatMap Inst.words := by rw [hwords, drop_words]
  refine ⟨?_, ?_, m.bound.toUInt32, by rw [hwords]; rfl, fun n hn => ?_⟩
  · rw [hdrop]
    exact splitWords_flatMap_words fun i hi => (hsound i hi).1
  · have hall := nodup_defined_lowerAll hsingle hids
    exact m.results_instructions.symm.nodup (hall.sublist (List.sublist_append_right _ _))
  · obtain ⟨i, hi, hresult⟩ := List.mem_filterMap.mp hn
    have hvalue : m.bound.toUInt32.toNat = m.bound := UInt32.toNat_ofNat_of_lt' hbound
    rw [hvalue]
    exact (hsound i hi).2 n hresult

def entryRun : List Operation :=
  [.pushType { opcode := .floatType, operands := ⟨32, 0, 0⟩ },
    .pushType { opcode := .vectorType, operands := ⟨4, 0, 0⟩, refs := ⟨⟨1⟩, .void, .void⟩ },
    .pushNew { opcode := .stageBegin, operands := ⟨1, 0, 0⟩ },
    .pushNew { opcode := .function, operands := ⟨1, 0, 0⟩, refs := ⟨⟨2⟩, .void, .void⟩ },
    .pushNew { opcode := .functionArg, refs := ⟨⟨1⟩, .void, .void⟩ }, .create .label,
    .push { opcode := .jump, refs := ⟨⟨6⟩, .void, .void⟩ }, .push { opcode := .label, id := ⟨6⟩ },
    .pushNew { opcode := .readVar, refs := ⟨⟨5⟩, .void, .void⟩, resultType := ⟨1⟩ },
    .pushNew { opcode := .null, resultType := ⟨1⟩ }, .pushNew
      { opcode := .binary, operands := ⟨1, 0, 0⟩, refs := ⟨⟨7⟩, ⟨8⟩, .void⟩, resultType := ⟨1⟩ },
    .pushNew { opcode := .construct, operands := ⟨1, 0, 0⟩, resultType := ⟨2⟩ },
    .push { opcode := .constructArg, refs := ⟨⟨9⟩, .void, .void⟩ },
    .push { opcode := .retValue, refs := ⟨⟨10⟩, .void, .void⟩ },
    .push { opcode := .functionEnd, refs := ⟨⟨4⟩, .void, .void⟩ },
    .push { opcode := .stageEnd, refs := ⟨⟨4⟩, .void, .void⟩ }]

/-- The ids of types, constants, the output block, both functions, the parameter, labels and the
    body are all different. -/
theorem nodup_results_instructions_entryRun :
    ∃ e, emitModule (runAll entryRun) 1 5 = .ok e ∧ e.fatal = none ∧
      results (lowerAll (runAll entryRun)).1.module.instructions =
        [1, 2, 3, 4, 12, 16, 17, 18, 19, 20, 22, 24, 9, 23, 21, 5, 6, 8, 7, 10, 11, 13, 14, 15,
          25] ∧
      (results (lowerAll (runAll entryRun)).1.module.instructions).Nodup ∧
      e.words[3]? = some 26 := by
  have hrun : (emitModule (runAll entryRun) 1 5).toOption.map
      (fun e => (e.fatal, e.words[3]?)) = some (none, some 26) := by decide +kernel
  have hresults : results (lowerAll (runAll entryRun)).1.module.instructions =
      [1, 2, 3, 4, 12, 16, 17, 18, 19, 20, 22, 24, 9, 23, 21, 5, 6, 8, 7, 10, 11, 13, 14, 15, 25] := by
    decide +kernel
  obtain ⟨e, h, hrun⟩ := exists_emission hrun
  obtain ⟨hfatal, hbound⟩ := Prod.mk.inj hrun
  obtain ⟨-, hnodup, -⟩ := nodup_results_instructions
    (Assembler.single_of_pairwise (by decide +kernel)) (by decide +kernel) h hfatal
  exact ⟨e, h, hfatal, hresults, hnodup, hbound⟩

end ShaderIR.Spirv
