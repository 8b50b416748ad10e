import ShaderIR.Proofs.Assembler.Definitions

/-!
# Use counts over whole runs

Dead code removal leaves exact counts: an id that lives on has the slots of the instructions that
are left, under its new number.  So the count of every id is right in every state that a run
reaches.
-/

namespace ShaderIR

open Operation (runAll)

namespace Assembler

variable {id : ResultId}

/-! ## What dead code removal leaves -/

/-- The number that an id gets when dead code is removed; void if it dies. -/
def newId (asm : Assembler) (id : ResultId) : ResultId :=
  (Renumbering.ofDead asm.sweep.dead).apply id

/-- An id of the table that dead code removal keeps.  Void is one of them. -/
def Kept (asm : Assembler) (id : ResultId) : Prop :=
  id.index < asm.ids.size ∧ asm.sweep.marked id = false

section

variable {asm : Assembler}

theorem newId_of_kept (hid : asm.Kept id) : asm.newId id = ⟨rank asm.sweep.dead id.index⟩ := by
  have hshape := traced_sweep asm
  rw [newId, Renumbering.apply_ofDead hshape.void_alive, if_pos]
  rw [hshape.size_dead]
  exact hid

theorem kept_void (h : 0 < asm.ids.size) : asm.Kept .void := ⟨h, (traced_sweep asm).void_alive⟩

theorem kept_of_newId (hid : (asm.newId id).index ≠ 0) : asm.Kept id := by
  have hshape := traced_sweep asm
  rw [newId, Renumbering.apply_ofDead hshape.void_alive] at hid
  split at hid
  next hlive =>
    rw [hshape.size_dead] at hlive
    exact hlive
  next => exact absurd rfl hid

theorem newId_void (asm : Assembler) : asm.newId .void = .void := by
  by_cases hz : (asm.newId .void).index = 0
  · exact ResultId.ext_index hz
  · exact newId_of_kept (kept_of_newId hz)

theorem newId_lt_newId {a b : ResultId} (ha : asm.Kept a) (hb : asm.Kept b)
    (hlt : a.index < b.index) : (asm.newId a).index < (asm.newId b).index := by
  rw [newId_of_kept ha, newId_of_kept hb]
  exact rank_lt_rank ha.2 hlt

theorem newId_inj {a b : ResultId} (ha : asm.Kept a) (hb : asm.Kept b)
    (heq : asm.newId a = asm.newId b) : a = b := by
  rw [newId_of_kept ha, newId_of_kept hb, ResultId.mk.injEq] at heq
  exact ResultId.ext_index (rank_inj ha.2 hb.2 heq)

theorem code_flatten (asm : Assembler) : asm.flatten.2.code.toList
      = (survivors asm.sweep.removed asm.code).map (Instruction.rename asm.newId) := by
  have hcode := code_applyRenumbering asm.sweep.asm (.ofDead asm.sweep.dead) asm.sweep.removed
  rw [show asm.sweep.asm.code = asm.code by rw [(traced_sweep asm).frame]] at hcode
  exact hcode

theorem getElem?_code_flatten {i : Nat} {x : Instruction} (hx : asm.code[i]? = some x)
    (hi : flagged asm.sweep.removed i = false) :
    asm.flatten.2.code[rank asm.sweep.removed i]? = some (x.rename asm.newId) := by
  have hlt := lt_size_code hx
  rw [← Array.getElem?_toList, code_flatten, List.getElem?_map, getElem?_survivors_rank hlt hi, hx]
  rfl

theorem size_code_flatten (asm : Assembler) :
    asm.flatten.2.code.size = rank asm.sweep.removed asm.code.size := by
  rw [← Array.length_toList, code_flatten, List.length_map, length_survivors]

theorem exists_of_code_flatten {j : Nat} {y : Instruction} (hy : asm.flatten.2.code[j]? = some y) :
    ∃ i x, asm.code[i]? = some x ∧ flagged asm.sweep.removed i = false ∧
      rank asm.sweep.removed i = j ∧ y = x.rename asm.newId := by
  have hlt := lt_size_code hy
  rw [size_code_flatten] at hlt
  obtain ⟨i, hi, hleft, rfl⟩ := exists_rank_eq hlt
  have hx := Array.getElem?_eq_getElem hi
  refine ⟨i, _, hx, hleft, rfl, ?_⟩
  rw [getElem?_code_flatten hx hleft, Option.some.injEq] at hy
  exact hy.symm

theorem kept_of_mem_slots (h : Exact asm) {inst : Instruction}
    (hinst : inst ∈ survivors asm.sweep.removed asm.code) {r : ResultId} (hr : r ∈ inst.slots) :
    asm.Kept r := by
  obtain ⟨i, hi, -⟩ := mem_survivors.mp hinst
  have hmem : inst ∈ asm.code.toList := mem_code hi
  have hlt := h.known inst hmem r hr
  by_cases hz : r.index = 0
  · rw [ResultId.eq_void hz]
    exact kept_void h.nonempty
  · -- A marked id has no slot in what is left.
    refine ⟨hlt, ?_⟩
    rw [Bool.eq_false_iff]
    intro hm
    exact ((marked_sweep_iff h (isAllocated_iff.mpr ⟨hz, hlt⟩)).mp hm).2 inst hinst hr

theorem size_ids_flatten (asm : Assembler) :
    asm.flatten.2.ids.size = rank asm.sweep.dead asm.ids.size := by
  have hshape := traced_sweep asm
  rw [← hshape.size_ids]
  exact size_ids_applyRenumbering hshape.void_alive (hshape.size_dead.trans hshape.size_ids.symm)

theorem newId_lt_size (hid : asm.Kept id) : (asm.newId id).index < asm.flatten.2.ids.size := by
  rw [size_ids_flatten, newId_of_kept hid]
  exact rank_lt_rank hid.2 hid.1

theorem exists_newId_eq (hid : id.index < asm.flatten.2.ids.size) :
    ∃ old, asm.Kept old ∧ asm.newId old = id := by
  rw [size_ids_flatten] at hid
  obtain ⟨k, hk, hlive, hrank⟩ := exists_rank_eq hid
  have hkept : asm.Kept ⟨k⟩ := ⟨hk, hlive⟩
  refine ⟨⟨k⟩, hkept, ?_⟩
  rw [newId_of_kept hkept]
  exact ResultId.ext_index hrank

theorem newId_ne_zero (hid : asm.Kept id) (hz : id.index ≠ 0) : (asm.newId id).index ≠ 0 := by
  have hvoid : asm.Kept .void := kept_void (Nat.zero_lt_of_lt hid.1)
  have hlt := newId_lt_newId hvoid hid (Nat.pos_of_ne_zero hz)
  omega

theorem getElem?_ids_flatten (hid : asm.Kept id) (hz : id.index ≠ 0) :
    ∃ e d, asm.sweep.asm.ids[id.index]? = some e ∧
      asm.flatten.2.ids[(asm.newId id).index]? = some { e with definition := d } ∧
      DefinedIn asm.flatten.2.code.toList (asm.newId id).index d := by
  have hshape := traced_sweep asm
  have hlt : id.index < asm.sweep.asm.ids.size := by rw [hshape.size_ids]; exact hid.1
  have he := Array.getElem?_eq_getElem hlt
  obtain ⟨d, hd, hdef⟩ := getElem?_ids_applyRenumbering asm.sweep.removed hshape.void_alive
    (hshape.size_dead.trans hshape.size_ids.symm) hid.2 he
  have hne := newId_ne_zero hid hz
  rw [newId_of_kept hid] at hne ⊢
  rw [if_neg hne] at hdef
  exact ⟨_, d, he, hd, hdef⟩

theorem useCount_flatten (h : Exact asm) (hid : asm.Kept id) (hz : id.index ≠ 0) :
    asm.flatten.2.useCount (asm.newId id) = slotsIn (survivors asm.sweep.removed asm.code) id := by
  obtain ⟨total, hsound⟩ := sound_sweep h
  obtain ⟨e, d, he, hd, -⟩ := getElem?_ids_flatten hid hz
  have huse := hsound.useCount_eq id (isAllocated_iff.mpr ⟨hz, hid.1⟩)
  rw [List.count_nil, Nat.add_zero] at huse
  rw [← huse, useCount, useCount, hd, he]
  rfl

end

/-! ## Exact counts -/

theorem slotsIn_rename {f : ResultId → ResultId} {insts : List Instruction}
    (hinj : ∀ inst ∈ insts, ∀ r ∈ inst.slots, f r = f id → r = id) :
    slotsIn (insts.map (Instruction.rename f)) (f id) = slotsIn insts id := by
  induction insts with
  | nil => rfl
  | cons inst rest ih =>
    have hcount : (inst.slots.map f).count (f id) = inst.slots.count id := by
      rw [List.count, List.countP_map, List.count]
      refine List.countP_congr fun r hr => ?_
      rw [Function.comp_apply, beq_iff_eq, beq_iff_eq]
      exact ⟨hinj inst List.mem_cons_self r hr, fun he => he ▸ rfl⟩
    rw [List.map_cons, slotsIn_cons, slotsIn_cons, Instruction.slots_rename, hcount,
      ih fun i hi => hinj i (List.mem_cons_of_mem _ hi)]

/-- **Dead code removal leaves exact counts.** -/
theorem Exact.flatten {asm : Assembler} (h : Exact asm) : Exact asm.flatten.2 where
  nonempty := by
    have hlt := newId_lt_size (kept_void h.nonempty)
    omega
  known := by
    intro inst hinst r hr
    rw [code_flatten asm, List.mem_map] at hinst
    obtain ⟨old, hold, rfl⟩ := hinst
    rw [Instruction.slots_rename, List.mem_map] at hr
    obtain ⟨r, hr, rfl⟩ := hr
    exact newId_lt_size (kept_of_mem_slots h hold hr)
  useCount_eq := by
    intro id hid
    obtain ⟨hz, hlt⟩ := isAllocated_iff.mp hid
    obtain ⟨old, hkept, rfl⟩ := exists_newId_eq hlt
    have hold : old.index ≠ 0 := by
      intro hzero
      rw [ResultId.eq_void hzero, newId_void asm] at hz
      exact hz rfl
    rw [useCount_flatten h hkept hold, slotCount, code_flatten asm, slotsIn_rename]
    intro inst hinst r hr heq
    exact newId_inj (kept_of_mem_slots h hinst hr) hkept heq

theorem exact_of_reached {asm : Assembler} (h : Reached Appended.RefsKnown asm) : Exact asm :=
  h.invariant (fun _ hrefs _ => hrefs) exact_empty (fun _ _ hb ha => ha.builds hb)
    (fun _ old new ha => ha.replace old new) fun _ ha => ha.flatten

/-- Over every run that pushes only instructions that refer to void or to ids allocated by then, the
    use count of an allocated id is the number of slots of the stream that hold it. -/
theorem useCount_eq_slotCount {asm : Assembler} (h : Reached Appended.RefsKnown asm)
    {id : ResultId} (hid : asm.isAllocated id = true) : asm.useCount id = asm.slotCount id :=
  (exact_of_reached h).useCount_eq id hid

def literalRun : List Operation :=
  [.pushNew { opcode := .sintType, operands := ⟨32, 0, 0⟩ },
    .pushValue { opcode := .intLit, operands := ⟨7, 0, 0⟩ } ⟨1⟩,
    .pushValue { opcode := .intLit, operands := ⟨8, 0, 0⟩ } ⟨1⟩,
    .push { opcode := .retValue, refs := ⟨⟨3⟩, .void, .void⟩ }, .flatten]

theorem useCount_eq_slotCount_literalRun : (runAll literalRun).isAllocated ⟨2⟩ = true ∧
      (runAll literalRun).useCount ⟨2⟩ = (runAll literalRun).slotCount ⟨2⟩ := by
  have hrun : Reached Appended.RefsKnown (runAll literalRun) := .runAll (by decide +kernel)
  have hid : (runAll literalRun).isAllocated ⟨2⟩ = true := by decide +kernel
  exact ⟨hid, useCount_eq_slotCount hrun hid⟩

end Assembler

end ShaderIR
