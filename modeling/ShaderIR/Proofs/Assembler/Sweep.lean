import ShaderIR.Proofs.Assembler.Counting

/-!
# The search for dead code

`Sweep.Sound` is what holds while instructions are removed: the count of every id is the number of
its slots in the instructions that are left, apart from slots that are gone but still owed a
release.  At the end nothing is owed, so the ids marked dead are the least set that is closed under
dying.
-/

namespace ShaderIR

variable {id : ResultId} {i : Nat} {flags : Array Bool}

/-! ## Instructions that are left -/

def flagged (flags : Array Bool) (i : Nat) : Bool := flags.getD i false

theorem flagged_eq (flags : Array Bool) (i : Nat) : flagged flags i = (flags[i]?).getD false :=
  Array.getD_eq_getD_getElem?

theorem lt_size_of_flagged (h : flagged flags i = true) : i < flags.size := by
  rw [flagged_eq] at h
  cases hi : flags[i]? with
  | none => rw [hi] at h; cases h
  | some b => exact (Array.getElem?_eq_some_iff.mp hi).1

theorem flagged_set (flags : Array Bool) (i j : Nat) :
    flagged (flags.setIfInBounds i true) j = (flagged flags j || (i == j && i < flags.size)) := by
  rw [flagged_eq, flagged_eq, Array.getElem?_setIfInBounds]
  by_cases hij : i = j
  · subst hij
    by_cases hlt : i < flags.size
    · simp [hlt]
    · simp [hlt]
  · simp [hij]

theorem flagged_set_iff (hlt : i < flags.size) (j : Nat) :
    flagged (flags.setIfInBounds i true) j = true ↔ flagged flags j = true ∨ j = i := by
  rw [flagged_set, Bool.or_eq_true, Bool.and_eq_true, beq_iff_eq]
  constructor
  · rintro (hj | ⟨hj, -⟩)
    · exact .inl hj
    · exact .inr hj.symm
  · rintro (hj | rfl)
    · exact .inl hj
    · exact .inr ⟨rfl, by simpa using hlt⟩

theorem count_true_set (hlt : i < flags.size) (h : flagged flags i = false) :
    (flags.setIfInBounds i true).toList.count true = flags.toList.count true + 1 := by
  have hlen : i < flags.toList.length := by rw [Array.length_toList]; exact hlt
  have hold : flags.toList[i] = false := by
    rw [flagged_eq, Array.getElem?_eq_getElem hlt, Option.getD_some] at h
    rw [Array.getElem_toList, h]
  rw [Array.toList_setIfInBounds, List.count_set hlen, hold]
  simp

def survivors {α : Type} (removed : Array Bool) (values : Array α) : List α :=
  (values.toList.zipIdx.filter fun e => !flagged removed e.2).map (·.1)

theorem mem_survivors {α : Type} {removed : Array Bool} {values : Array α} {v : α} :
    v ∈ survivors removed values ↔ ∃ i, values[i]? = some v ∧ flagged removed i = false := by
  simp only [survivors, List.mem_map, List.mem_filter, Prod.exists, List.mem_zipIdx_iff_getElem?,
    Array.getElem?_toList, Bool.not_eq_true']
  constructor
  · rintro ⟨a, i, ⟨hi, hr⟩, rfl⟩
    exact ⟨i, hi, hr⟩
  · rintro ⟨i, hi, hr⟩
    exact ⟨v, i, ⟨hi, hr⟩, rfl⟩

theorem survivors_replicate (n : Nat) (code : Array Instruction) :
    survivors (.replicate n false) code = code.toList := by
  have hkeep : ∀ e ∈ code.toList.zipIdx, (!flagged (.replicate n false) e.2) = true := by
    intro e _
    rw [flagged_eq, Array.getElem?_replicate]
    split <;> rfl
  rw [survivors, List.filter_eq_self.mpr hkeep, List.zipIdx_map_fst]

theorem slotsIn_survivors_set {removed : Array Bool} {code : Array Instruction}
    {inst : Instruction} (hi : code[i]? = some inst) (hsize : removed.size = code.size)
    (hr : flagged removed i = false) (id : ResultId) : slotsIn (survivors removed code) id
      = slotsIn (survivors (removed.setIfInBounds i true) code) id + inst.slots.count id := by
  have hlt : i < code.size := (Array.getElem?_eq_some_iff.mp hi).1
  -- Split the stream at the instruction; on both sides the flags are the same as before.
  obtain ⟨l1, l2, hcode, hlen⟩ : ∃ l1 l2, code.toList = l1 ++ inst :: l2 ∧ l1.length = i := by
    have hget : code.toList[i]? = some inst := by rw [Array.getElem?_toList]; exact hi
    refine ⟨code.toList.take i, code.toList.drop (i + 1), ?_, ?_⟩
    · have hdrop := List.drop_eq_getElem?_toList_append (l := code.toList) (i := i)
      rw [hget] at hdrop
      rw [← List.singleton_append, ← show (some inst).toList = [inst] from rfl, ← hdrop, List.take_append_drop]
    · rw [List.length_take, Array.length_toList]; omega
  have hleft : ∀ e ∈ l1.zipIdx, (!flagged removed e.2) = (!flagged (removed.setIfInBounds i true) e.2) := by
    rintro ⟨a, j⟩ he
    have hj : j < l1.length := by
      rw [List.mem_zipIdx_iff_getElem?] at he
      exact (List.getElem?_eq_some_iff.mp he).1
    have hne : (i == j) = false := by rw [beq_eq_false_iff_ne]; omega
    rw [flagged_set, hne, Bool.false_and, Bool.or_false]
  have hright : ∀ e ∈ l2.zipIdx (i + 1),
      (!flagged removed e.2) = (!flagged (removed.setIfInBounds i true) e.2) := by
    rintro ⟨a, j⟩ he
    have hj : i + 1 ≤ j := (List.mem_zipIdx he).1
    have hne : (i == j) = false := by rw [beq_eq_false_iff_ne]; omega
    rw [flagged_set, hne, Bool.false_and, Bool.or_false]
  have hset : flagged (removed.setIfInBounds i true) i = true := by
    have hlt' : i < removed.size := by omega
    rw [flagged_set]
    simp [hlt']
  have hzip : code.toList.zipIdx = l1.zipIdx ++ (inst, i) :: l2.zipIdx (i + 1) := by
    rw [hcode, List.zipIdx_append, List.zipIdx_cons, hlen, Nat.zero_add]
  simp only [survivors, hzip, List.filter_append, List.filter_cons, hr, hset, Bool.not_false,
    Bool.not_true, if_true, Bool.false_eq_true, if_false, List.map_append, List.map_cons,
    slotsIn_append, slotsIn_cons, List.filter_congr hleft, List.filter_congr hright]
  omega

namespace Assembler

/-! ## What dying means -/

def mayDrop (asm : Assembler) (id : ResultId) : Bool :=
  (asm.definingInstruction? id).all (·.opcode.isPure)

theorem isDead_iff {asm : Assembler} : asm.isDead id = true ↔
      id.index < asm.ids.size ∧ asm.useCount id = 0 ∧ asm.mayDrop id = true := by
  simp [isDead, mayDrop, and_assoc]

/-- A set of ids that contains every id whose definition may be dropped and whose slots all lie in
instructions that are removed with ids of the set. -/
def DyingClosed (asm : Assembler) (D : ResultId → Prop) : Prop :=
  ∀ id, asm.isAllocated id = true → asm.mayDrop id = true →
    (∀ j inst, asm.code[j]? = some inst → id ∈ inst.slots → ∃ d, D d ∧ j ∈ Sweep.doomed asm d) → D id

namespace Sweep

def marked (s : Sweep) (id : ResultId) : Bool := flagged s.dead id.index

/-! ## The invariant -/

/-- What holds while the dead code of `asm` is removed.  `done` ids have been worked off, and the
ids in `owed` stood in slots that are gone but have not been released. -/
structure Sound (asm : Assembler) (done : Nat) (owed : List ResultId) (s : Sweep) : Prop where
  frame : s.asm = { asm with ids := s.asm.ids }
  entries : ∀ k : Nat, (s.asm.ids[k]?).map (fun e => (e.opcode, e.definition))
    = (asm.ids[k]?).map fun e => (e.opcode, e.definition)
  size_dead : s.dead.size = asm.ids.size
  size_removed : s.removed.size = asm.code.size
  useCount_eq : ∀ id, asm.isAllocated id = true →
    s.asm.useCount id = slotsIn (survivors s.removed asm.code) id + owed.count id
  void_alive : flagged s.dead 0 = false
  marked_iff : ∀ id, asm.isAllocated id = true →
    (s.marked id = true ↔ s.asm.useCount id = 0 ∧ asm.mayDrop id = true)
  pending_marked : ∀ id ∈ s.pending, s.marked id = true
  tally : s.dead.toList.count true = done + s.pending.length
  removed_cause : ∀ i, flagged s.removed i = true → ∃ id, s.marked id = true ∧ i ∈ doomed asm id
  least : ∀ D, asm.DyingClosed D → ∀ id, s.marked id = true → D id

section

variable {asm : Assembler} {done : Nat} {owed : List ResultId} {s : Sweep}

theorem Sound.code_eq (h : Sound asm done owed s) : s.asm.code = asm.code := by rw [h.frame]

theorem Sound.size_ids (h : Sound asm done owed s) : s.asm.ids.size = asm.ids.size := by
  have hnone : ∀ k : Nat, s.asm.ids[k]? = none ↔ asm.ids[k]? = none := by
    intro k
    rw [← Option.map_eq_none_iff (f := fun e : IdEntry => (e.opcode, e.definition)), h.entries k,
      Option.map_eq_none_iff]
  simp only [Array.getElem?_eq_none_iff] at hnone
  have h1 := (hnone asm.ids.size).mpr (Nat.le_refl _)
  have h2 := (hnone s.asm.ids.size).mp (Nat.le_refl _)
  omega

theorem Sound.definition?_eq (h : Sound asm done owed s) (id : ResultId) :
    s.asm.definition? id = asm.definition? id := by
  have hk := congrArg (fun o => o.bind fun e => e.2) (h.entries id.index)
  simpa only [Option.bind_map, Function.comp_def, definition?] using hk

theorem Sound.isAllocated_of_marked (h : Sound asm done owed s)
    (hm : s.marked id = true) : asm.isAllocated id = true := by
  have hlt := lt_size_of_flagged hm
  rw [h.size_dead] at hlt
  refine isAllocated_iff.mpr ⟨fun hz => ?_, hlt⟩
  have hvoid := h.void_alive
  rw [marked, hz, hvoid] at hm
  cases hm

end

theorem doomed_congr {a b : Assembler} (hcode : b.code = a.code)
    (hdef : b.definition? id = a.definition? id) : doomed b id = doomed a id := by
  simp only [doomed, hdef, hcode, trailersAfter]

theorem mayDrop_congr {a b : Assembler} (hcode : b.code = a.code)
    (hdef : b.definition? id = a.definition? id) : b.mayDrop id = a.mayDrop id := by
  simp only [mayDrop, definingInstruction?, hdef, hcode]

/-! ## The start -/

theorem flagged_start (asm : Assembler) (i : Nat) :
    flagged (start asm).dead i = (i != 0 && asm.isDead ⟨i⟩) := by
  rw [flagged_eq]
  simp only [start, List.getElem?_toArray, List.getElem?_map]
  by_cases hlt : i < asm.ids.size
  · rw [List.getElem?_range hlt]
    rfl
  · have hnone : (List.range asm.ids.size)[i]? = none := by simpa using hlt
    have hdead : asm.isDead ⟨i⟩ = false := by simp [isDead, hlt]
    rw [hnone, hdead, Bool.and_false]
    rfl

theorem flagged_removed_start (asm : Assembler) (i : Nat) :
    flagged (start asm).removed i = false := by
  rw [flagged_eq]
  simp only [start, Array.getElem?_replicate]
  split <;> rfl

theorem length_filter_zipIdx (l : List Bool) : (l.zipIdx.filter (·.1)).length = l.count true := by
  have hcount : l.count true = ((l.zipIdx).map (·.1)).countP (· == true) := by
    rw [List.zipIdx_map_fst, List.count]
  rw [hcount, List.countP_map, ← List.countP_eq_length_filter]
  refine List.countP_congr fun e _ => ?_
  simp

theorem sound_start {asm : Assembler} (hexact : Exact asm) : Sound asm 0 [] (start asm) where
  frame := rfl
  entries := fun _ => rfl
  size_dead := by simp [start]
  size_removed := by simp [start]
  useCount_eq := by
    intro id hid
    have hall : survivors (start asm).removed asm.code = asm.code.toList := survivors_replicate _ _
    rw [hall, List.count_nil, Nat.add_zero]
    exact hexact.useCount_eq id hid
  void_alive := by rw [flagged_start]; rfl
  marked_iff := by
    intro id hid
    rw [isAllocated_iff] at hid
    rw [marked, flagged_start, Bool.and_eq_true, isDead_iff]
    simp [hid, start]
  pending_marked := by
    intro id hid
    simp only [start, List.mem_reverse, List.mem_map, List.mem_filter, Prod.exists,
      List.mem_zipIdx_iff_getElem?] at hid
    obtain ⟨b, i, ⟨hi, hb⟩, rfl⟩ := hid
    subst hb
    rw [marked, flagged_eq]
    simp only [start, List.getElem?_toArray, hi, Option.getD_some]
  tally := by
    simp only [start, List.length_reverse, List.length_map, Nat.zero_add]
    exact (length_filter_zipIdx _).symm
  removed_cause := by
    intro i hi
    rw [flagged_removed_start] at hi
    cases hi
  least := by
    intro D hD id hid
    rw [marked, flagged_start, Bool.and_eq_true, isDead_iff] at hid
    obtain ⟨hnz, hlt, hcount, hdrop⟩ := hid
    have halloc : asm.isAllocated id = true :=
      isAllocated_iff.mpr ⟨by simpa using hnz, hlt⟩
    refine hD id halloc hdrop fun j inst hj hslot => ?_
    -- Nothing holds an id whose count is zero from the start.
    have hzero : asm.slotCount id = 0 := (hexact.useCount_eq id halloc).symm.trans hcount
    have hmem : inst ∈ asm.code.toList := List.mem_of_getElem? (by rwa [Array.getElem?_toList])
    exact absurd hslot (slotsIn_eq_zero.mp hzero inst hmem)

/-! ## Releasing and dropping -/

/-- What a step of the removal keeps: flags stay set, and an id that is marked anew is pending. -/
structure Grows (s s' : Sweep) : Prop where
  removed : ∀ i, flagged s.removed i = true → flagged s'.removed i = true
  marked : ∀ id, s.marked id = true → s'.marked id = true
  pending : ∀ id ∈ s.pending, id ∈ s'.pending
  fresh : ∀ id, s'.marked id = true → s.marked id = true ∨ id ∈ s'.pending

theorem Grows.refl (s : Sweep) : Grows s s :=
  ⟨fun _ h => h, fun _ h => h, fun _ h => h, fun _ h => .inl h⟩

theorem Grows.trans {s1 s2 s3 : Sweep} (h₁ : Grows s1 s2) (h₂ : Grows s2 s3) : Grows s1 s3 where
  removed := fun i h => h₂.removed i (h₁.removed i h)
  marked := fun id h => h₂.marked id (h₁.marked id h)
  pending := fun id h => h₂.pending id (h₁.pending id h)
  fresh := by
    intro id h
    rcases h₂.fresh id h with h | h
    · exact (h₁.fresh id h).imp_right (h₂.pending id)
    · exact .inr h

theorem grows_release (s : Sweep) (id : ResultId) : Grows s (s.release id) := by
  unfold release
  split
  · dsimp only
    split
    · refine ⟨fun _ h => h, fun x h => ?_, fun x h => List.mem_cons_of_mem _ h, fun x h => ?_⟩
      · simp only [Sweep.marked] at h ⊢
        rw [flagged_set, h, Bool.true_or]
      · simp only [Sweep.marked] at h ⊢
        rw [flagged_set, Bool.or_eq_true, Bool.and_eq_true, beq_iff_eq] at h
        rcases h with h | ⟨h, -⟩
        · exact .inl h
        · -- What is marked anew is put in front of the list.
          rw [← ResultId.ext_index h]
          exact .inr List.mem_cons_self
    · exact ⟨fun _ h => h, fun _ h => h, fun _ h => h, fun _ h => .inl h⟩
  · exact Grows.refl s

theorem grows_foldl_release (l : List ResultId) (s : Sweep) : Grows s (l.foldl release s) := by
  induction l generalizing s with
  | nil => exact Grows.refl s
  | cons id rest ih => exact (grows_release s id).trans (ih _)

theorem grows_drop (s : Sweep) (i : Nat) : Grows s (s.drop i) := by
  unfold drop
  split
  · exact Grows.refl s
  · split
    · exact Grows.refl s
    · refine Grows.trans ?_ (grows_foldl_release _ _)
      refine ⟨fun j h => ?_, fun _ h => h, fun _ h => h, fun _ h => .inl h⟩
      rw [flagged_set, h, Bool.true_or]

theorem grows_foldl_drop (l : List Nat) (s : Sweep) : Grows s (l.foldl drop s) := by
  induction l generalizing s with
  | nil => exact Grows.refl s
  | cons i rest ih => exact (grows_drop s i).trans (ih _)

section

variable {asm : Assembler} {done : Nat} {owed : List ResultId} {s : Sweep}

def lowered (s : Sweep) (id : ResultId) : Assembler :=
  { s.asm with ids := s.asm.ids.modify id.index fun e => { e with uses := e.uses - 1 } }

theorem useCount_lowered (s : Sweep) (id x : ResultId) :
    (s.lowered id).useCount x = if x = id then s.asm.useCount x - 1 else s.asm.useCount x := by
  simp only [useCount, lowered, Array.getElem?_modify]
  by_cases hx : x = id
  · subst hx
    rw [if_pos rfl, if_pos rfl]
    cases s.asm.ids[x.index]? with
    | none => rfl
    | some e => rfl
  · rw [if_neg (fun h => hx (ResultId.ext_index h.symm)), if_neg hx]

theorem entries_lowered (s : Sweep) (id : ResultId) (k : Nat) :
    ((s.lowered id).ids[k]?).map (fun e => (e.opcode, e.definition))
      = (s.asm.ids[k]?).map fun e => (e.opcode, e.definition) := by
  simp only [lowered, Array.getElem?_modify]
  split
  · rw [Option.map_map]
    rfl
  · rfl

theorem Sound.useCount_lowered (h : Sound asm done (id :: owed) s) {x : ResultId}
    (hx : asm.isAllocated x = true) :
    (s.lowered id).useCount x = slotsIn (survivors s.removed asm.code) x + owed.count x := by
  have hcount := h.useCount_eq x hx
  rw [Sweep.useCount_lowered]
  by_cases hxi : x = id
  · subst hxi
    rw [List.count_cons_self] at hcount
    rw [if_pos rfl, hcount]
    omega
  · rw [List.count_cons_of_ne (Ne.symm hxi)] at hcount
    rw [if_neg hxi, hcount]

theorem Sound.alive_of_owed (h : Sound asm done (id :: owed) s)
    (hid : asm.isAllocated id = true) : s.marked id = false := by
  rw [Bool.eq_false_iff]
  intro hm
  have hzero := ((h.marked_iff id hid).mp hm).1
  have hcount := h.useCount_eq id hid
  rw [List.count_cons_self] at hcount
  omega

theorem Sound.frame_lowered (h : Sound asm done owed s) (id : ResultId) :
    s.lowered id = { asm with ids := (s.lowered id).ids } := by
  rw [lowered, h.frame]

theorem Sound.entries_lowered (h : Sound asm done owed s) (id : ResultId) (k : Nat) :
    ((s.lowered id).ids[k]?).map (fun e => (e.opcode, e.definition))
      = (asm.ids[k]?).map fun e => (e.opcode, e.definition) :=
  (Sweep.entries_lowered s id k).trans (h.entries k)

theorem Sound.release_eq (h : Sound asm done (id :: owed) s) (hid : asm.isAllocated id = true) :
    s.release id =
      if (s.lowered id).useCount id = 0 ∧ asm.mayDrop id = true then
        { s with
          asm := s.lowered id, dead := s.dead.setIfInBounds id.index true,
          pending := id :: s.pending }
      else { s with asm := s.lowered id } := by
  have hlt : id.index < s.asm.ids.size := by
    rw [h.size_ids]; exact (isAllocated_iff.mp hid).2
  have hdrop : (s.lowered id).mayDrop id = asm.mayDrop id := by
    refine mayDrop_congr (by rw [h.frame_lowered id]) ?_
    have hk := congrArg (fun o => o.bind fun e => e.2) (h.entries_lowered id id.index)
    simpa only [Option.bind_map, Function.comp_def, definition?] using hk
  have hdead : (!s.dead.getD id.index false && (s.lowered id).isDead id) = true ↔
      (s.lowered id).useCount id = 0 ∧ asm.mayDrop id = true := by
    have hflag : s.dead.getD id.index false = false := h.alive_of_owed hid
    have hsize : id.index < (s.lowered id).ids.size := by simpa [lowered] using hlt
    rw [hflag, Bool.not_false, Bool.true_and, isDead_iff, hdrop]
    simp [hsize]
  simp only [Sweep.release, if_pos hlt]
  exact ite_congr (propext hdead) (fun _ => rfl) fun _ => rfl

/-- **One release.**  The id whose last slot goes is marked and becomes pending. -/
theorem Sound.release (h : Sound asm done (id :: owed) s)
    (hid : asm.isAllocated id = true) : Sound asm done owed (s.release id) := by
  have halive := h.alive_of_owed hid
  have hmarkedOther : ∀ x, asm.isAllocated x = true → x ≠ id →
      (s.marked x = true ↔ (s.lowered id).useCount x = 0 ∧ asm.mayDrop x = true) := by
    intro x hx hne
    rw [Sweep.useCount_lowered, if_neg hne]
    exact h.marked_iff x hx
  rw [h.release_eq hid]
  split
  next hdies =>
    have hlt : id.index < s.dead.size := by rw [h.size_dead]; exact (isAllocated_iff.mp hid).2
    have hmarked : ∀ x : ResultId,
        flagged (s.dead.setIfInBounds id.index true) x.index = true ↔ s.marked x = true ∨ x = id := by
      intro x
      rw [flagged_set_iff hlt]
      exact or_congr_right ⟨ResultId.ext_index, fun hx => hx ▸ rfl⟩
    refine
      { frame := h.frame_lowered id, entries := h.entries_lowered id,
        size_removed := h.size_removed, size_dead := ?_,
        useCount_eq := fun x hx => h.useCount_lowered hx, void_alive := ?_, marked_iff := ?_,
        pending_marked := ?_, tally := ?_, removed_cause := ?_, least := ?_ }
    · rw [Array.size_setIfInBounds, h.size_dead]
    · have hne : (id.index == 0) = false := by
        rw [beq_eq_false_iff_ne]; exact (isAllocated_iff.mp hid).1
      rw [flagged_set, h.void_alive, hne]
      rfl
    · intro x hx
      rw [Sweep.marked, hmarked]
      by_cases hxi : x = id
      · subst hxi
        exact ⟨fun _ => hdies, fun _ => .inr rfl⟩
      · rw [← hmarkedOther x hx hxi]
        exact ⟨fun h => h.resolve_right hxi, .inl⟩
    · intro x hx
      rw [Sweep.marked, hmarked]
      rcases List.mem_cons.mp hx with rfl | hx
      · exact .inr rfl
      · exact .inl (h.pending_marked x hx)
    · rw [count_true_set hlt halive, h.tally, List.length_cons, Nat.add_assoc]
    · intro i hi
      obtain ⟨x, hx, hdoomed⟩ := h.removed_cause i hi
      exact ⟨x, (hmarked x).mpr (.inl hx), hdoomed⟩
    · intro D hD x hx
      rcases (hmarked x).mp hx with hx | rfl
      · exact h.least D hD x hx
      · refine hD x hid hdies.2 fun j inst hj hslot => ?_
        -- No instruction that is left holds the id, so this one is gone, and for a reason.
        have hzero : slotsIn (survivors s.removed asm.code) x = 0 := by
          have hcount := h.useCount_lowered hid
          omega
        have hgone : flagged s.removed j = true := by
          rw [← Bool.not_eq_false]
          intro hkept
          exact slotsIn_eq_zero.mp hzero inst (mem_survivors.mpr ⟨j, hj, hkept⟩) hslot
        obtain ⟨d, hd, hdoomed⟩ := h.removed_cause j hgone
        exact ⟨d, h.least D hD d hd, hdoomed⟩
  next hlives =>
    refine
      { frame := h.frame_lowered id, entries := h.entries_lowered id,
        size_removed := h.size_removed, size_dead := h.size_dead, useCount_eq := fun x hx => h.useCount_lowered hx,
        void_alive := h.void_alive, marked_iff := ?_, pending_marked := h.pending_marked,
        tally := h.tally, removed_cause := h.removed_cause, least := h.least }
    intro x hx
    by_cases hxi : x = id
    · subst hxi
      have hm : ({ s with asm := s.lowered x } : Sweep).marked x = false := halive
      rw [hm]
      exact ⟨fun h => (Bool.noConfusion h), fun h => absurd h hlives⟩
    · exact hmarkedOther x hx hxi

theorem Sound.foldl_release {l : List ResultId} (h : Sound asm done l s)
    (hl : ∀ id ∈ l, asm.isAllocated id = true) : Sound asm done [] (l.foldl Sweep.release s) := by
  induction l generalizing s with
  | nil => exact h
  | cons id rest ih =>
    exact ih (h.release (hl id List.mem_cons_self)) fun x hx => hl x (List.mem_cons_of_mem _ hx)

/-- **One removal.**  An instruction may go when it belongs to an id that is marked. -/
theorem Sound.drop (hexact : Exact asm) (h : Sound asm done [] s)
    (hcause : ∃ id, s.marked id = true ∧ i ∈ doomed asm id) : Sound asm done [] (s.drop i) := by
  unfold Sweep.drop
  split
  · exact h
  next hkept =>
    have hr : flagged s.removed i = false := by
      rw [flagged_eq]
      rw [Array.getD_eq_getD_getElem?] at hkept
      cases hi : s.removed[i]? with
      | none => rfl
      | some b => simpa [hi] using hkept
    split
    · exact h
    next inst hinst =>
      rw [h.code_eq] at hinst
      have hmem : inst ∈ asm.code.toList := mem_code hinst
      have hknown : ∀ id ∈ inst.referenced, asm.isAllocated id = true := by
        intro id hid
        obtain ⟨hslot, hvoid⟩ := Instruction.mem_referenced.mp hid
        exact isAllocated_iff.mpr ⟨hvoid, hexact.known inst hmem id hslot⟩
      refine Sound.foldl_release ?_ hknown
      refine
        { frame := h.frame, entries := h.entries, size_dead := h.size_dead, size_removed := ?_,
          useCount_eq := ?_, void_alive := h.void_alive, marked_iff := h.marked_iff,
          pending_marked := h.pending_marked, tally := h.tally, removed_cause := ?_,
          least := h.least }
      · rw [Array.size_setIfInBounds, h.size_removed]
      · -- The slots that went with the instruction are exactly the ones now owed.
        intro id hid
        have hcount := h.useCount_eq id hid
        have hslots := slotsIn_survivors_set hinst h.size_removed hr id
        rw [List.count_nil, Nat.add_zero] at hcount
        rw [Instruction.count_referenced inst (isAllocated_iff.mp hid).1]
        exact hcount.trans hslots
      · intro j hj
        rw [flagged_set, Bool.or_eq_true, Bool.and_eq_true, beq_iff_eq] at hj
        rcases hj with hj | ⟨rfl, -⟩
        · exact h.removed_cause j hj
        · exact hcause

theorem lt_size_of_mem_doomed (h : i ∈ doomed asm id) : i < asm.code.size := by
  simp only [doomed] at h
  split at h
  · cases h
  next first hdef =>
    split at h
    · cases h
    next header hheader =>
      have hfirst : first < asm.code.size := lt_size_code hheader
      rw [List.mem_map] at h
      obtain ⟨k, hk, rfl⟩ := h
      rw [List.mem_range] at hk
      cases htrailer : header.opcode.trailer? with
      | none => simp only [htrailer] at hk; omega
      | some t =>
        -- Trailers are a run of instructions directly behind the header.
        simp only [htrailer] at hk
        have hlen : (asm.trailersAfter first t header.operands.fst.toNat).length
            ≤ asm.code.size - (first + 1) := by
          refine Nat.le_trans (List.takeWhile_sublist _).length_le ?_
          rw [Array.length_toList, Array.size_extract]
          omega
        omega

theorem Sound.flagged_drop (h : Sound asm done owed s) (hi : i < asm.code.size) :
    flagged (s.drop i).removed i = true := by
  have hsize := h.size_removed
  by_cases hgone : s.removed.getD i true = true
  · rw [Sweep.drop, if_pos hgone, flagged_eq]
    rw [Array.getD_eq_getD_getElem?, Array.getElem?_eq_getElem (by omega)] at hgone
    rwa [Array.getElem?_eq_getElem (by omega)]
  · have hinst : s.asm.code[i]? = some asm.code[i] := by
      rw [h.code_eq, Array.getElem?_eq_getElem hi]
    rw [Sweep.drop, if_neg hgone, hinst]
    refine (grows_foldl_release _ _).removed i ?_
    rw [flagged_set]
    simp [hsize, hi]

theorem Sound.foldl_drop (hexact : Exact asm) {l : List Nat}
    (h : Sound asm done [] s) (hm : s.marked id = true) (hl : ∀ i ∈ l, i ∈ doomed asm id) :
    Sound asm done [] (l.foldl Sweep.drop s) ∧ ∀ i ∈ l,
      flagged (l.foldl Sweep.drop s).removed i = true := by
  induction l generalizing s with
  | nil => exact ⟨h, nofun⟩
  | cons i rest ih =>
    have hi := hl i List.mem_cons_self
    obtain ⟨hsound, hgone⟩ := ih (h.drop hexact ⟨id, hm, hi⟩) ((grows_drop s i).marked id hm)
      fun j hj => hl j (List.mem_cons_of_mem _ hj)
    refine ⟨hsound, fun j hj => ?_⟩
    rcases List.mem_cons.mp hj with rfl | hj
    · exact (grows_foldl_drop rest _).removed j (h.flagged_drop (lt_size_of_mem_doomed hi))
    · exact hgone j hj

/-! ## The whole run -/

/-- Every marked id is pending, or what belongs to it is removed. -/
def Covered (asm : Assembler) (s : Sweep) : Prop :=
  ∀ id, s.marked id = true → id ∈ s.pending ∨ ∀ i ∈ doomed asm id, flagged s.removed i = true

theorem covered_start (asm : Assembler) : Covered asm (start asm) := by
  intro id hid
  left
  rw [marked, flagged_eq] at hid
  simp only [start, List.getElem?_toArray] at hid
  simp only [start, List.mem_reverse, List.mem_map, List.mem_filter, Prod.exists, List.mem_zipIdx_iff_getElem?]
  refine ⟨true, id.index, ⟨?_, rfl⟩, rfl⟩
  generalize ((List.range asm.ids.size).map fun i => i != 0 && asm.isDead ⟨i⟩)[id.index]? = o at *
  cases o with
  | none => cases hid
  | some b => exact congrArg some hid

theorem Sound.step (hexact : Exact asm) (h : Sound asm done [] s) (hcov : Covered asm s)
    {rest : List ResultId} (hpending : s.pending = id :: rest) :
    Sound asm (done + 1) [] ((doomed s.asm id).foldl Sweep.drop { s with pending := rest }) ∧
      Covered asm ((doomed s.asm id).foldl Sweep.drop { s with pending := rest }) := by
  have hm : s.marked id = true := h.pending_marked id (hpending ▸ List.mem_cons_self)
  have hpop : Sound asm (done + 1) [] { s with pending := rest } := by
    refine { h with pending_marked := fun x hx => ?_, tally := ?_ }
    · exact h.pending_marked x (hpending ▸ List.mem_cons_of_mem _ hx)
    · have htally := h.tally
      rw [hpending, List.length_cons] at htally
      rw [htally]
      exact Nat.add_right_comm done rest.length 1
  rw [doomed_congr h.code_eq (h.definition?_eq id)]
  obtain ⟨hsound, hgone⟩ := hpop.foldl_drop hexact hm fun i hi => hi
  refine ⟨hsound, fun x hx => ?_⟩
  have hgrows := grows_foldl_drop (doomed asm id) { s with pending := rest }
  -- An id marked before is the one just worked off, still pending, or was covered already.
  rcases hgrows.fresh x hx with hold | hnew
  · rcases hcov x hold with hx | hx
    · rw [hpending] at hx
      rcases List.mem_cons.mp hx with rfl | hx
      · exact .inr hgone
      · exact .inl (hgrows.pending x hx)
    · exact .inr fun i hi => hgrows.removed i (hx i hi)
  · exact .inl hnew

/-- **The run ends with an empty list**: there is fuel for as many ids as there are. -/
theorem Sound.run (hexact : Exact asm) (fuel : Nat) (h : Sound asm done [] s)
    (hcov : Covered asm s) (hfuel : done + fuel = asm.ids.size) :
    (∃ total, Sound asm total [] (run fuel s)) ∧ Covered asm (run fuel s) ∧ (run fuel s).pending =
      [] := by
  induction fuel generalizing done s with
  | zero =>
    -- Every id has been worked off, and no more can be marked than there are.
    have htally := h.tally
    have hle : s.dead.toList.count true ≤ s.dead.toList.length := List.count_le_length
    rw [Array.length_toList, h.size_dead] at hle
    refine ⟨⟨done, h⟩, hcov, List.eq_nil_of_length_eq_zero ?_⟩
    change s.pending.length = 0
    omega
  | succ fuel ih =>
    unfold Sweep.run
    split
    next hnil => exact ⟨⟨done, h⟩, hcov, hnil⟩
    next id rest hcons =>
      obtain ⟨hsound, hcov'⟩ := h.step hexact hcov hcons
      exact ih hsound hcov' (by omega)

end

end Sweep

/-! ## What the search finds -/

section

variable {asm : Assembler}

theorem sound_sweep (h : Exact asm) : ∃ total, Sweep.Sound asm total [] asm.sweep :=
  ((Sweep.sound_start h).run h _ (Sweep.covered_start asm) (Nat.zero_add _)).1

theorem flagged_removed_sweep (h : Exact asm) (i : Nat) : flagged asm.sweep.removed i = true ↔
      ∃ id, asm.sweep.marked id = true ∧ i ∈ Sweep.doomed asm id := by
  obtain ⟨total, hsound⟩ := sound_sweep h
  obtain ⟨-, hcov, hnil⟩ := (Sweep.sound_start h).run h _ (Sweep.covered_start asm) (Nat.zero_add _)
  refine ⟨hsound.removed_cause i, ?_⟩
  rintro ⟨id, hm, hi⟩
  refine (hcov id hm).resolve_left (fun hp => ?_) i hi
  rw [hnil] at hp
  cases hp

/-- An allocated id is marked exactly when its definition may be dropped and no slot that is left
holds it. -/
theorem marked_sweep_iff (h : Exact asm) (hid : asm.isAllocated id = true) :
    asm.sweep.marked id = true ↔
      asm.mayDrop id = true ∧ ∀ inst ∈ survivors asm.sweep.removed asm.code, id ∉ inst.slots := by
  obtain ⟨total, hsound⟩ := sound_sweep h
  rw [hsound.marked_iff id hid, hsound.useCount_eq id hid, List.count_nil, Nat.add_zero, slotsIn_eq_zero]
  exact And.comm

theorem dyingClosed_sweep (h : Exact asm) : asm.DyingClosed (asm.sweep.marked · = true) := by
  intro id hid hdrop hslots
  refine (marked_sweep_iff h hid).mpr ⟨hdrop, fun inst hinst hslot => ?_⟩
  obtain ⟨j, hj, hkept⟩ := mem_survivors.mp hinst
  have hgone := (flagged_removed_sweep h j).mpr (hslots j inst hj hslot)
  rw [hkept] at hgone
  cases hgone

theorem marked_sweep_least (h : Exact asm) {D : ResultId → Prop} (hD : asm.DyingClosed D)
    (hid : asm.sweep.marked id = true) : D id := by
  obtain ⟨total, hsound⟩ := sound_sweep h
  exact hsound.least D hD id hid

end

end Assembler

end ShaderIR
