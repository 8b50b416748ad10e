import ShaderIR.Proofs.Assembler.UseCounts

/-!
# Replacing is substitution

`replace` rewrites the slots one by one and moves the count as a whole.  Where the counts are right
the two agree: **the number it returns is the count it moves**, and nothing but the slots and the
two counts changes.
-/

namespace ShaderIR.Assembler

open Operation (runAll)

variable {asm : Assembler}

theorem foldl_slots_count (asm : Assembler) (id : ResultId) :
    asm.code.foldl (fun n inst => n + inst.slots.count id) 0 = asm.slotCount id := by
  have hfold : ∀ (insts : List Instruction) (n : Nat),
      insts.foldl (fun n inst => n + inst.slots.count id) n = n + slotsIn insts id := by
    intro insts
    induction insts with
    | nil => exact fun _ => rfl
    | cons inst rest ih =>
      intro n
      rw [List.foldl_cons, ih, slotsIn_cons, Nat.add_assoc]
  rw [← Array.foldl_toList, hfold, Nat.zero_add, slotCount]

/-- **Replacing puts `new` in every slot that held `old`**, returns the count of `old` and adds it
    to that of `new`, unless that is void; nothing else changes. Ids that are not known are refused
    with one problem, and an id is not replaced by itself. -/
theorem replace_substitutes
    (hexact : ∀ id, asm.isAllocated id = true → asm.useCount id = asm.slotCount id)
    (old new : ResultId) :
    (asm.isAllocated old = true → new.isVoid = true ∨ asm.isAllocated new = true → old ≠ new →
      ∃ after, asm.replace old new = (asm.useCount old, after) ∧
        after = { asm with
          code := asm.code.map fun inst => { inst with
            refs := inst.refs.map fun id => if id = old then new else id
            resultType := if inst.resultType = old then new else inst.resultType }
          ids := after.ids } ∧
        (∀ id, after.useCount id =
          if id = old then 0
          else if id = new ∧ new.index ≠ 0 then asm.useCount new + asm.useCount old
          else asm.useCount id) ∧
        ∀ k : Nat, (after.ids[k]?).map (fun e => (e.opcode, e.definition)) =
          (asm.ids[k]?).map fun e => (e.opcode, e.definition)) ∧
    (¬ (asm.isAllocated old = true ∧ (new.isVoid = true ∨ asm.isAllocated new = true)) →
      ∃ e, asm.replace old new = (0, asm.report e)) ∧
    (asm.isAllocated old = true → asm.replace old old = (0, asm)) := by
  refine ⟨fun hold hnew hne => ?_, fun hunknown => ?_, fun hold => ?_⟩
  · have hlt := (isAllocated_iff.mp hold).2
    have hnewLt : new.index < asm.ids.size := by
      rcases hnew with hv | ha
      · rw [ResultId.isVoid_iff] at hv
        omega
      · exact (isAllocated_iff.mp ha).2
    refine ⟨{ asm with code := _, ids := asm.movedCounts old new }, ?_, rfl,
      fun id => useCount_moved asm hne hlt hnewLt id _, getElem?_movedCounts asm old new⟩
    rw [replace_of_known hold hnew hne, foldl_slots_count, ← hexact old hold]
    rfl
  · unfold replace
    split
    · exact ⟨_, rfl⟩
    split
    · exact ⟨_, rfl⟩
    next hold =>
    split
    · exact ⟨_, rfl⟩
    next hnew =>
      -- Both ids are known here.
      refine absurd ⟨by simpa using hold, ?_⟩ hunknown
      cases hv : new.isVoid with
      | true => exact .inl rfl
      | false => exact .inr (by simpa [hv] using hnew)
  · have hv : ¬ old.isVoid = true := fun hv => (isAllocated_iff.mp hold).1 (ResultId.isVoid_iff.mp hv)
    rw [replace, if_neg hv, if_neg (by simp [hold]), if_neg (by simp [hold]), if_pos rfl]

def doublingRun : List Operation :=
  [.pushType { opcode := .floatType, operands := ⟨32, 0, 0⟩ },
    .pushValue { opcode := .zero } ⟨1⟩, .pushValue { opcode := .null } ⟨1⟩,
    .pushValue { opcode := .binary, operands := ⟨1, 0, 0⟩, refs := ⟨⟨2⟩, ⟨2⟩, .void⟩ } ⟨1⟩]

theorem replace_substitutes_doublingRun : ∃ after,
    (runAll doublingRun).replace ⟨2⟩ ⟨3⟩ = (2, after) ∧ after.useCount ⟨2⟩ = 0 ∧
      after.useCount ⟨3⟩ = 2 := by
  have hexact : Exact (runAll doublingRun) := exact_of_reached (.runAll (by decide +kernel))
  obtain ⟨after, hreplace, -, hcounts, -⟩ := (replace_substitutes hexact.useCount_eq ⟨2⟩ ⟨3⟩).1 (by decide +kernel)
    (.inr (by decide +kernel)) (by decide)
  have hold : (runAll doublingRun).useCount ⟨2⟩ = 2 := by decide +kernel
  have hnew : (runAll doublingRun).useCount ⟨3⟩ = 0 := by decide +kernel
  refine ⟨after, hreplace.trans (by rw [hold]), hcounts ⟨2⟩, ?_⟩
  rw [hcounts ⟨3⟩, hold, hnew]
  rfl

end ShaderIR.Assembler
