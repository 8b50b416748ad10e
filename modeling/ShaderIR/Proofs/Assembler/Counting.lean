import ShaderIR.Proofs.Assembler.Runs

/-!
# Counting the slots of a stream

`useCount` is a number kept beside the stream; `slotCount` counts the slots of the stream itself.
That the two agree survives building, as long as what is pushed refers to allocated ids only, and
`replace`.
-/

namespace ShaderIR

variable {old new : ResultId}

/-! ## Counting slots -/

def slotsIn (insts : List Instruction) (id : ResultId) : Nat :=
  (insts.flatMap Instruction.slots).count id

@[simp] theorem slotsIn_nil (id : ResultId) : slotsIn [] id = 0 := rfl

@[simp] theorem slotsIn_cons (inst : Instruction) (insts : List Instruction) (id : ResultId) :
    slotsIn (inst :: insts) id = inst.slots.count id + slotsIn insts id := by
  rw [slotsIn, List.flatMap_cons, List.count_append, slotsIn]

@[simp] theorem slotsIn_append (l1 l2 : List Instruction) (id : ResultId) :
    slotsIn (l1 ++ l2) id = slotsIn l1 id + slotsIn l2 id := by
  rw [slotsIn, List.flatMap_append, List.count_append, slotsIn, slotsIn]

theorem slotsIn_eq_zero {insts : List Instruction} {id : ResultId} :
    slotsIn insts id = 0 ↔ ∀ inst ∈ insts, id ∉ inst.slots := by
  induction insts with
  | nil => simp
  | cons inst rest ih =>
    rw [slotsIn_cons, Nat.add_eq_zero_iff, ih, List.count_eq_zero, List.forall_mem_cons]

namespace Assembler

def slotCount (asm : Assembler) (id : ResultId) : Nat := slotsIn asm.code.toList id

/-- The counts of allocated ids are right, and the stream refers to nothing else. -/
structure Exact (asm : Assembler) : Prop where
  nonempty : 0 < asm.ids.size
  known : ∀ inst ∈ asm.code.toList, ∀ r ∈ inst.slots, r.index < asm.ids.size
  useCount_eq : ∀ id, asm.isAllocated id = true → asm.useCount id = asm.slotCount id

theorem slotCount_push (asm : Assembler) (inst : Instruction) (id : ResultId) :
    (asm.push inst).slotCount id = asm.slotCount id + inst.slots.count id := by
  rw [slotCount, code_push, Array.toList_push, slotsIn_append, slotsIn_cons, slotsIn_nil,
    Nat.add_zero, slotCount]

theorem exact_empty : Exact .empty where
  nonempty := by decide
  known := by intro inst h; cases h
  useCount_eq := by
    intro id h
    rw [isAllocated_iff] at h
    have hsize : Assembler.empty.ids.size = 1 := rfl
    omega

/-! ## Building -/

theorem Exact.same {a b : Assembler} (hcode : b.code = a.code) (hids : b.ids = a.ids)
    (h : Exact a) : Exact b where
  nonempty := by rw [hids]; exact h.nonempty
  known := by rw [hcode, hids]; exact h.known
  useCount_eq := by
    intro id hid
    have ha := h.useCount_eq id (by rwa [isAllocated_iff, hids, ← isAllocated_iff] at hid)
    simp only [useCount, slotCount, hcode, hids] at ha ⊢
    exact ha

variable {asm : Assembler}

theorem Exact.create (h : Exact asm) (op : Opcode) : Exact (asm.create op).2 where
  nonempty := by rw [ids_create, Array.size_push]; omega
  known := by
    intro inst hi r hr
    have := h.known inst hi r hr
    rw [ids_create, Array.size_push]
    omega
  useCount_eq := by
    intro id hid
    rw [isAllocated_iff, ids_create, Array.size_push] at hid
    have hslots : (asm.create op).2.slotCount id = asm.slotCount id := rfl
    by_cases hnew : id.index = asm.ids.size
    · -- The new id: its count starts at zero, and no slot can hold it yet.
      have hcount : (asm.create op).2.useCount id = 0 := by
        simp [useCount, hnew]
      have hzero : asm.slotCount id = 0 := by
        refine slotsIn_eq_zero.mpr fun inst hi hr => ?_
        have := h.known inst hi id hr
        omega
      rw [hcount, hslots, hzero]
    · have hcount : (asm.create op).2.useCount id = asm.useCount id := by
        rw [useCount, ids_create, Array.getElem?_push, if_neg hnew, useCount]
      rw [hcount, hslots]
      exact h.useCount_eq id (isAllocated_iff.mpr ⟨hid.1, by omega⟩)

theorem Exact.push (h : Exact asm) {inst : Instruction}
    (hrefs : Appended.RefsKnown ⟨inst, asm.ids.size⟩) : Exact (asm.push inst) where
  nonempty := by rw [size_ids_push]; exact h.nonempty
  known := by
    intro i hi r hr
    rw [size_ids_push]
    rw [code_push, Array.toList_push, List.mem_append, List.mem_singleton] at hi
    rcases hi with hi | rfl
    · exact h.known i hi r hr
    · rcases hrefs r hr with hv | hlt
      · rw [ResultId.isVoid_iff] at hv
        rw [hv]
        exact h.nonempty
      · exact hlt
  useCount_eq := by
    intro id hid
    rw [isAllocated_iff, size_ids_push, ← isAllocated_iff] at hid
    rw [useCount_push asm inst hid, slotCount_push, h.useCount_eq id hid]

theorem Exact.builds {a b : Assembler} (hb : Builds Appended.RefsKnown a b) (h : Exact a) :
    Exact b :=
  hb.preserves (fun _ _ hcode hids h => h.same hcode hids) (fun _ op h => h.create op)
    (fun _ _ hrefs h => h.push hrefs) h

/-! ## Replacing -/

theorem count_map_replace (hne : old ≠ new) (l : List ResultId) (id : ResultId) :
    (l.map fun r => if r = old then new else r).count id
      = if id = old then 0 else if id = new then l.count new + l.count old else l.count id := by
  induction l with
  | nil => simp
  | cons r rest ih =>
    -- Whether the head is moved, and whether the id asked for is one of the two that matter.
    rw [List.map_cons, List.count_cons, ih]
    by_cases hold : r = old
    · subst hold
      by_cases hid : id = r
      · simp [hid, hne.symm]
      · by_cases hnew : id = new
        · simp [hnew, hne.symm, List.count_cons_of_ne hne]; omega
        · simp [hid, hnew, Ne.symm hnew, List.count_cons_of_ne (Ne.symm hid)]
    · by_cases hid : id = old
      · simp [hid, hold]
      · by_cases hnew : id = new
        · subst hnew
          simp [hold, hid, List.count_cons, List.count_cons_of_ne hold]; omega
        · simp [hold, hid, hnew, List.count_cons]

theorem slotsIn_replace (hne : old ≠ new) (insts : List Instruction) (id : ResultId) :
    slotsIn (insts.map (·.mapSlots fun r => if r = old then new else r)) id = if id = old then 0
        else if id = new then slotsIn insts new + slotsIn insts old else slotsIn insts id := by
  induction insts with
  | nil => simp
  | cons inst rest ih =>
    rw [List.map_cons, slotsIn_cons, ih, Instruction.slots_mapSlots, count_map_replace hne]
    split
    · rfl
    · split
      · rw [slotsIn_cons, slotsIn_cons]; omega
      · rw [slotsIn_cons]

theorem useCount_moved (asm : Assembler) (hne : old ≠ new)
    (hold : old.index < asm.ids.size) (hnew : new.index < asm.ids.size) (id : ResultId)
    (code : Array Instruction) :
    ({ asm with code, ids := asm.movedCounts old new } : Assembler).useCount id
      = if id = old then 0
        else if id = new ∧ new.index ≠ 0 then asm.useCount new + asm.useCount old
        else asm.useCount id := by
  have hidx : ∀ {a b : ResultId}, a ≠ b → ¬a.index = b.index :=
    fun h he => h (ResultId.ext_index he)
  have hentry : ∀ {r : ResultId} (h : r.index < asm.ids.size),
      asm.ids[r.index]? = some asm.ids[r.index] := fun h => Array.getElem?_eq_getElem h
  by_cases hid : id = old
  · -- The old id: raising the count of the new one does not touch it, since they differ.
    subst hid
    rw [if_pos rfl, useCount, movedCounts]
    split
    · simp [Array.getElem?_modify, hentry hold]
    · simp [Array.getElem?_modify, hidx hne.symm, hentry hold]
  · rw [if_neg hid, useCount, movedCounts]
    cases hv : new.isVoid with
    | true =>
      rw [ResultId.isVoid_iff] at hv
      have hno : ¬(id = new ∧ new.index ≠ 0) := fun h => h.2 hv
      rw [if_neg hno, if_pos rfl, Array.getElem?_modify, if_neg (hidx (Ne.symm hid)), useCount]
    | false =>
      rw [ResultId.isVoid_eq_false] at hv
      simp only [Bool.false_eq_true, if_false]
      by_cases hin : id = new
      · subst hin
        rw [if_pos ⟨rfl, hv⟩]
        simp [Array.getElem?_modify, hidx hne, hentry hnew, useCount]
      · have hno : ¬(id = new ∧ new.index ≠ 0) := fun h => hin h.1
        rw [if_neg hno, Array.getElem?_modify, if_neg (hidx (Ne.symm hin)), Array.getElem?_modify,
          if_neg (hidx (Ne.symm hid)), useCount]

theorem Exact.replace (h : Exact asm) (old new : ResultId) : Exact (asm.replace old new).2 := by
  rcases replace_cases asm old new with ⟨hcode, hids⟩ | ⟨hold, hnew, hne, heq⟩
  · exact h.same hcode hids
  · have hlt := (isAllocated_iff.mp hold).2
    have hnewLt : new.index < asm.ids.size := by
      have hpos := h.nonempty
      rcases hnew with hv | ha
      · rw [ResultId.isVoid_iff] at hv
        omega
      · exact (isAllocated_iff.mp ha).2
    rw [heq]
    refine ⟨?_, ?_, ?_⟩
    · rw [size_movedCounts]
      exact h.nonempty
    · intro inst hi r hr
      rw [size_movedCounts]
      rw [Array.toList_map, List.mem_map] at hi
      obtain ⟨inst, hi, rfl⟩ := hi
      rw [Instruction.slots_mapSlots, List.mem_map] at hr
      obtain ⟨r, hr, rfl⟩ := hr
      split
      · exact hnewLt
      · exact h.known inst hi r hr
    · intro id hid
      rw [isAllocated_iff, size_movedCounts, ← isAllocated_iff] at hid
      have hnz := (isAllocated_iff.mp hid).1
      rw [useCount_moved asm hne hlt hnewLt, slotCount, Array.toList_map, slotsIn_replace hne]
      -- Both sides have the same three cases: the old id, the new one and all others.
      split
      next => rfl
      next =>
        by_cases hin : id = new
        · subst hin
          rw [if_pos ⟨rfl, hnz⟩, if_pos rfl, h.useCount_eq id hid, h.useCount_eq old hold]
          rfl
        · rw [if_neg fun hn => hin hn.1, if_neg hin, h.useCount_eq id hid]
          rfl

end Assembler

end ShaderIR
