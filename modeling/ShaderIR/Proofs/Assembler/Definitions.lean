import ShaderIR.Proofs.Assembler.Renumbering

/-!
# Where ids are defined

Where the table says that an id is defined, it is right in every state that a run reaches.  It is
also complete if ids were allocated before they were defined: an earlier definition is reported and
forgotten.
-/

namespace ShaderIR

namespace Assembler

variable {asm : Assembler} {id : ResultId}

/-! ## The table and the stream -/

def DefinesAt (asm : Assembler) (i : Nat) (id : ResultId) : Prop :=
  id.index ≠ 0 ∧ ∃ inst, asm.code[i]? = some inst ∧ inst.id = id

/-- Where the table has a definition, the stream has it too. -/
def DefinitionsSound (asm : Assembler) : Prop :=
  ∀ id i, asm.definition? id = some i → asm.DefinesAt i id

/-- Whatever the stream defines has a definition in the table. -/
def DefinitionsComplete (asm : Assembler) : Prop :=
  ∀ i id, asm.DefinesAt i id → ∃ j, asm.definition? id = some j

/-- No id is defined twice. -/
def SinglyDefined (asm : Assembler) : Prop :=
  ∀ i j id, asm.DefinesAt i id → asm.DefinesAt j id → i = j

/-- Trailers of literals define nothing. -/
def VoidTrailers (asm : Assembler) : Prop :=
  ∀ inst ∈ asm.code.toList, inst.opcode = .constructArg ∨ inst.opcode = .arrayElem →
    inst.id.isVoid = true

instance : Decidable asm.VoidTrailers := List.decidableBAll _ _

variable {a b : Assembler} {i : Nat}

theorem definesAt_congr (hcode : b.code = a.code) (i : Nat) (id : ResultId) :
    b.DefinesAt i id ↔ a.DefinesAt i id := by
  rw [DefinesAt, DefinesAt, hcode]

theorem single_of_pairwise
    (h : asm.code.toList.Pairwise fun a b => a.id = b.id → a.id.index = 0) : asm.SinglyDefined := by
  intro i j id hi hj
  have hlt : ∀ {i j}, asm.DefinesAt i id → asm.DefinesAt j id → ¬ i < j := by
    rintro i j ⟨hid, a, ha, rfl⟩ ⟨-, b, hb, heq⟩ hij
    rw [← Array.getElem?_toList] at ha hb
    obtain ⟨hia, rfl⟩ := List.getElem?_eq_some_iff.mp ha
    obtain ⟨hjb, rfl⟩ := List.getElem?_eq_some_iff.mp hb
    exact hid (List.pairwise_iff_getElem.mp h i j hia hjb hij heq.symm)
  exact Nat.le_antisymm (Nat.le_of_not_lt (hlt hj hi)) (Nat.le_of_not_lt (hlt hi hj))

theorem definition?_congr (hids : b.ids = a.ids) (id : ResultId) :
    b.definition? id = a.definition? id := by
  rw [definition?, definition?, hids]

theorem opcodeOf_congr (hids : b.ids = a.ids) (id : ResultId) : b.opcodeOf id = a.opcodeOf id := by
  rw [opcodeOf, opcodeOf, hids]

theorem lt_size_of_definition? (h : asm.definition? id = some i) : id.index < asm.ids.size := by
  rw [definition?] at h
  cases he : asm.ids[id.index]? with
  | none => rw [he] at h; cases h
  | some e => exact (Array.getElem?_eq_some_iff.mp he).1

/-! ## One step at a time -/

theorem definition?_create (asm : Assembler) (op : Opcode) (id : ResultId) :
    (asm.create op).2.definition? id = asm.definition? id := by
  rw [definition?, ids_create, Array.getElem?_push]
  split
  next hnew =>
    rw [definition?, Array.getElem?_eq_none_iff.mpr (by omega)]
    rfl
  · rfl

theorem definition?_push (asm : Assembler) (inst : Instruction) (id : ResultId) :
    (asm.push inst).definition? id =
      if inst.id = id ∧ asm.isAllocated id = true then
        (asm.definition? id).or (some asm.code.size)
      else asm.definition? id := by
  rw [definition?, getElem?_ids_push, definition?]
  cases he : asm.ids[id.index]? with
  | none =>
    -- Not in the table, so not allocated.
    have hge := Array.getElem?_eq_none_iff.mp he
    have hno : ¬ (inst.id = id ∧ asm.isAllocated id = true) := by
      rintro ⟨-, hid⟩
      have hlt := (isAllocated_iff.mp hid).2
      omega
    rw [if_neg hno]
    rfl
  | some e =>
    have hlt := (Array.getElem?_eq_some_iff.mp he).1
    have hiff : (inst.id.index = id.index ∧ id.index ≠ 0) ↔ (inst.id = id ∧ asm.isAllocated id = true) := by
      rw [isAllocated_iff]
      exact ⟨fun h => ⟨ResultId.ext_index h.1, h.2, hlt⟩, fun h => ⟨h.1 ▸ rfl, h.2.1⟩⟩
    simp only [Option.map_some, Option.bind_some, hiff]

theorem definesAt_push {inst : Instruction} : (asm.push inst).DefinesAt i id ↔
      asm.DefinesAt i id ∨ (i = asm.code.size ∧ inst.id = id ∧ id.index ≠ 0) := by
  simp only [DefinesAt, code_push, Array.getElem?_push]
  by_cases hi : i = asm.code.size
  · have hnone : asm.code[i]? = none := Array.getElem?_eq_none_iff.mpr (by omega)
    rw [if_pos hi, hnone]
    constructor
    · rintro ⟨hz, x, hx, rfl⟩
      cases hx
      exact .inr ⟨hi, rfl, hz⟩
    · rintro (⟨-, x, hx, -⟩ | ⟨-, hid, hz⟩)
      · cases hx
      · exact ⟨hz, inst, rfl, hid⟩
  · rw [if_neg hi]
    constructor
    · exact .inl
    · rintro (h | ⟨h, -⟩)
      · exact h
      · exact absurd h hi

theorem replace_frame (asm : Assembler) (old new : ResultId) :
    (∀ id, (asm.replace old new).2.definition? id = asm.definition? id) ∧
      ∀ i id, (asm.replace old new).2.DefinesAt i id ↔ asm.DefinesAt i id := by
  rcases replace_cases asm old new with ⟨hcode, hids⟩ | ⟨-, -, -, heq⟩
  · exact ⟨definition?_congr hids, definesAt_congr hcode⟩
  · rw [heq]
    refine ⟨fun id => ?_, fun i id => ?_⟩
    · have hentry := congrArg (·.bind (·.2)) (getElem?_movedCounts asm old new id.index)
      simp only [Option.bind_map, Function.comp_def] at hentry
      exact hentry
    · simp only [DefinesAt, Array.getElem?_map, Option.map_eq_some_iff]
      constructor
      · rintro ⟨hz, -, ⟨inst, hinst, rfl⟩, hid⟩
        exact ⟨hz, inst, hinst, hid⟩
      · rintro ⟨hz, inst, hinst, hid⟩
        exact ⟨hz, _, ⟨inst, hinst, rfl⟩, hid⟩

theorem size_ids_replace (asm : Assembler) (old new : ResultId) :
    (asm.replace old new).2.ids.size = asm.ids.size := by
  rcases replace_cases asm old new with ⟨-, hids⟩ | ⟨-, -, -, heq⟩
  · rw [hids]
  · rw [heq, size_movedCounts]

/-! ## Dead code removal -/

namespace Sweep

/-- What the removal of dead code keeps to, whatever the counts are: instructions go only with the
    definition of an id that is marked, and what is not marked is in use or may not go. -/
structure Traced (asm : Assembler) (s : Sweep) : Prop where
  size_ids : s.asm.ids.size = asm.ids.size
  size_dead : s.dead.size = asm.ids.size
  void_alive : flagged s.dead 0 = false
  frame : s.asm = { asm with ids := s.asm.ids }
  definition : ∀ id, s.asm.definition? id = asm.definition? id
  pending : ∀ id ∈ s.pending, s.marked id = true
  removed : ∀ i, flagged s.removed i = true → ∃ id, s.marked id = true ∧ i ∈ doomed asm id
  droppable : ∀ id, s.marked id = true → asm.mayDrop id = true
  complete : ∀ id, asm.isAllocated id = true → s.marked id = false → s.asm.useCount id = 0 →
    asm.mayDrop id = false

variable {asm : Assembler} {s : Sweep}

theorem traced_start (asm : Assembler) : Traced asm (start asm) where
  size_ids := rfl
  size_dead := by simp [start]
  void_alive := by rw [flagged_start]; rfl
  frame := rfl
  definition _ := rfl
  pending id hid := by
    simp only [start, List.mem_reverse, List.mem_map, List.mem_filter, Prod.exists,
      List.mem_zipIdx_iff_getElem?] at hid
    obtain ⟨b, i, ⟨hi, rfl⟩, rfl⟩ := hid
    rw [marked, flagged_eq]
    simp only [start, List.getElem?_toArray, hi, Option.getD_some]
  removed i hi := by
    rw [flagged_removed_start] at hi
    cases hi
  droppable id hid := by
    rw [marked, flagged_start, Bool.and_eq_true, isDead_iff] at hid
    exact hid.2.2.2
  complete id hid hleft huse := by
    obtain ⟨hz, hlt⟩ := isAllocated_iff.mp hid
    rw [marked, flagged_start, Bool.and_eq_false_iff] at hleft
    have halive : asm.isDead id = false := by
      rcases hleft with hzero | halive
      · simp [hz] at hzero
      · exact halive
    rw [Bool.eq_false_iff] at halive ⊢
    exact fun hdrop => halive (isDead_iff.mpr ⟨hlt, huse, hdrop⟩)

theorem release_eq (s : Sweep) (id : ResultId) : s.release id =
      if id.index < s.asm.ids.size then
        if (!s.marked id && (s.lowered id).isDead id) = true then
          { s with
            asm := s.lowered id, dead := s.dead.setIfInBounds id.index true,
            pending := id :: s.pending }
        else { s with asm := s.lowered id }
      else s := rfl

theorem marked_release (hlt : id.index < s.asm.ids.size) (hsize : id.index < s.dead.size)
    (x : ResultId) :
    (s.release id).marked x = (s.marked x || (x == id && (s.lowered id).isDead id)) := by
  rw [release_eq, if_pos hlt]
  by_cases hdies : (!s.marked id && (s.lowered id).isDead id) = true
  · rw [if_pos hdies, marked, flagged_set, decide_eq_true hsize, (Bool.and_eq_true_iff.mp hdies).2,
      Bool.and_true, Bool.and_true, marked]
    have hsame : (id.index == x.index) = (x == id) := by
      rw [Bool.eq_iff_iff, beq_iff_eq, beq_iff_eq]
      exact ⟨fun hx => ResultId.ext_index hx.symm, fun hx => hx ▸ rfl⟩
    rw [hsame]
  · rw [if_neg hdies]
    show s.marked x = _
    by_cases hx : x = id
    · -- What does not die is marked already, or is still in use.
      subst hx
      revert hdies
      cases s.marked x <;> cases (s.lowered x).isDead x <;> simp
    · rw [beq_eq_false_iff_ne.mpr hx, Bool.false_and, Bool.or_false]

theorem Traced.release (h : Traced asm s) (hz : id.index ≠ 0) : Traced asm (s.release id) := by
  by_cases hlt : id.index < s.asm.ids.size
  case neg =>
    rw [release_eq, if_neg hlt]
    exact h
  have hsize : id.index < s.dead.size := by rwa [h.size_dead, ← h.size_ids]
  have hmarked := marked_release hlt hsize
  have hasm : (s.release id).asm = s.lowered id := by
    rw [release_eq, if_pos hlt]
    split <;> rfl
  have hremoved : (s.release id).removed = s.removed := by
    rw [release_eq, if_pos hlt]
    split <;> rfl
  have hdefinition : ∀ x, (s.lowered id).definition? x = asm.definition? x := by
    intro x
    have hk := congrArg (fun o => o.bind fun e => e.2) (entries_lowered s id x.index)
    simp only [Option.bind_map, Function.comp_def] at hk
    exact hk.trans (h.definition x)
  have hmayDrop : (s.lowered id).mayDrop id = asm.mayDrop id := by
    refine mayDrop_congr ?_ (hdefinition id)
    show s.asm.code = asm.code
    rw [h.frame]
  have hdead : (s.lowered id).isDead id = true ↔ (s.lowered id).useCount id = 0 ∧ asm.mayDrop id = true := by
    have hsize : id.index < (s.lowered id).ids.size := by simpa [lowered] using hlt
    rw [isDead_iff, hmayDrop]
    simp [hsize]
  refine { size_ids := ?_, size_dead := ?_, void_alive := ?_, frame := ?_, definition := fun x => ?_,
           pending := fun x hx => ?_, removed := fun i hi => ?_, droppable := fun x hx => ?_,
           complete := fun x hx hleft huse => ?_ }
  · rw [hasm, lowered, Array.size_modify]
    exact h.size_ids
  · rw [release_eq, if_pos hlt]
    split
    · rw [Array.size_setIfInBounds]
      exact h.size_dead
    · exact h.size_dead
  · have hvoid : (ResultId.void == id) = false := beq_eq_false_iff_ne.mpr fun hv => hz (hv ▸ rfl)
    have h0 := hmarked .void
    rw [hvoid, Bool.false_and, Bool.or_false] at h0
    exact h0.trans h.void_alive
  · rw [hasm, lowered, h.frame]
  · rw [hasm]
    exact hdefinition x
  · rw [hmarked]
    rw [release_eq, if_pos hlt] at hx
    split at hx
    next hdies =>
      rcases List.mem_cons.mp hx with rfl | hx
      · rw [(Bool.and_eq_true_iff.mp hdies).2, beq_self_eq_true, Bool.and_true, Bool.or_true]
      · rw [h.pending x hx, Bool.true_or]
    next => rw [h.pending x hx, Bool.true_or]
  · rw [hremoved] at hi
    obtain ⟨x, hx, hdoomed⟩ := h.removed i hi
    exact ⟨x, by rw [hmarked, hx, Bool.true_or], hdoomed⟩
  · rw [hmarked x, Bool.or_eq_true, Bool.and_eq_true, beq_iff_eq, hdead] at hx
    rcases hx with hx | ⟨rfl, -, hdrop⟩
    · exact h.droppable x hx
    · exact hdrop
  · rw [hmarked x, Bool.or_eq_false_iff] at hleft
    rw [hasm, useCount_lowered] at huse
    by_cases hxi : x = id
    · subst hxi
      rw [← useCount_lowered] at huse
      have halive := hleft.2
      rw [beq_self_eq_true, Bool.true_and, Bool.eq_false_iff] at halive
      rw [Bool.eq_false_iff]
      exact fun hdrop => halive (hdead.mpr ⟨huse, hdrop⟩)
    · rw [if_neg hxi] at huse
      exact h.complete x hx hleft.1 huse

theorem Traced.drop (h : Traced asm s) {i : Nat}
    (hi : ∃ id, s.marked id = true ∧ i ∈ doomed asm id) : Traced asm (s.drop i) := by
  have hfold : ∀ (l : List ResultId) (t : Sweep), Traced asm t → (∀ id ∈ l, id.index ≠ 0) →
      Traced asm (l.foldl Sweep.release t) := by
    intro l
    induction l with
    | nil => exact fun _ ht _ => ht
    | cons id rest ih =>
      intro t ht hl
      exact ih _ (ht.release (hl id List.mem_cons_self)) fun x hx => hl x (List.mem_cons_of_mem _ hx)
  unfold Sweep.drop
  split
  · exact h
  · split
    · exact h
    · refine hfold _ _ { h with removed := fun j hj => ?_ } fun id hid => (Instruction.mem_referenced.mp hid).2
      rw [flagged_set, Bool.or_eq_true, Bool.and_eq_true, beq_iff_eq] at hj
      rcases hj with hj | ⟨rfl, -⟩
      · exact h.removed j hj
      · exact hi

theorem Traced.run (fuel : Nat) (h : Traced asm s) : Traced asm (run fuel s) := by
  have hfold : ∀ (id : ResultId) (l : List Nat) (t : Sweep), Traced asm t → t.marked id = true →
      (∀ i ∈ l, i ∈ doomed asm id) → Traced asm (l.foldl Sweep.drop t) := by
    intro id l
    induction l with
    | nil => exact fun _ ht _ _ => ht
    | cons i rest ih =>
      intro t ht hid hl
      exact ih _ (ht.drop ⟨id, hid, hl i List.mem_cons_self⟩) ((grows_drop t i).marked id hid)
        fun j hj => hl j (List.mem_cons_of_mem _ hj)
  induction fuel generalizing s with
  | zero => exact h
  | succ fuel ih =>
    unfold Sweep.run
    split
    · exact h
    next id pending hpending =>
      have hrest : Traced asm { s with pending } :=
        { h with pending := fun x hx => h.pending x (hpending ▸ List.mem_cons_of_mem _ hx) }
      have hmarked : s.marked id = true := h.pending id (hpending ▸ List.mem_cons_self)
      have hcode : s.asm.code = asm.code := by rw [h.frame]
      refine ih (hfold id _ _ hrest hmarked fun i hi => ?_)
      rwa [doomed_congr hcode (h.definition id)] at hi

end Sweep

theorem traced_sweep (asm : Assembler) : Sweep.Traced asm asm.sweep :=
  Sweep.Traced.run _ (Sweep.traced_start asm)

theorem ids_flatten (asm : Assembler) : asm.flatten.2.ids =
    recordDefinitions 0 asm.flatten.2.code.toList
      (asm.sweep.asm.movedEntries asm.sweep.dead).toArray := by
  have htraced := traced_sweep asm
  exact ids_applyRenumbering htraced.void_alive (htraced.size_dead.trans htraced.size_ids.symm)

theorem definedIn_flatten (asm : Assembler) (hlt : id.index < asm.flatten.2.ids.size) :
    if id.index = 0 then asm.flatten.2.definition? id = none
    else DefinedIn asm.flatten.2.code.toList id.index (asm.flatten.2.definition? id) := by
  have hids := ids_flatten asm
  have hbase : id.index < (asm.sweep.asm.movedEntries asm.sweep.dead).toArray.size := by
    rwa [hids, size_recordDefinitions] at hlt
  have hentry := Array.getElem?_eq_getElem hbase
  have hnone : ((asm.sweep.asm.movedEntries asm.sweep.dead).toArray[id.index]).definition = none := by
    simp [movedEntries]
  obtain ⟨d, hd, hdef⟩ := definedIn_recordDefinitions asm.flatten.2.code.toList hentry hnone
  have hdefinition : asm.flatten.2.definition? id = d := by
    rw [definition?, hids, hd]
    rfl
  rw [hdefinition]
  exact hdef

theorem lt_size_of_definesAt_flatten
    (h : asm.flatten.2.DefinesAt i id) : id.index < asm.flatten.2.ids.size := by
  have hshape := traced_sweep asm
  have hsize : asm.sweep.dead.size = asm.sweep.asm.ids.size :=
    hshape.size_dead.trans hshape.size_ids.symm
  have hids : asm.flatten.2.ids.size = rank asm.sweep.dead asm.sweep.asm.ids.size :=
    size_ids_applyRenumbering hshape.void_alive hsize
  obtain ⟨hz, inst, hinst, rfl⟩ := h
  have hcode : asm.flatten.2.code.toList = (survivors asm.sweep.removed asm.sweep.asm.code).map
      (Instruction.rename (Renumbering.ofDead asm.sweep.dead).apply) := code_applyRenumbering _ _ _
  rw [← Array.getElem?_toList, hcode, List.getElem?_map, Option.map_eq_some_iff] at hinst
  obtain ⟨old, -, rfl⟩ := hinst
  rw [Instruction.id_rename, Renumbering.apply_ofDead hshape.void_alive] at hz ⊢
  -- An id that is not renamed to void lives on, and its rank is below that of the whole table.
  split at hz
  next hlive =>
    rw [if_pos hlive, hids, ← hsize]
    exact rank_lt_rank hlive.2 hlive.1
  next => exact absurd rfl hz

/-! ## Whole runs -/

theorem definitionsSound_push (inst : Instruction) (h : asm.DefinitionsSound) :
    (asm.push inst).DefinitionsSound := by
  intro id i hdef
  rw [definition?_push] at hdef
  rw [definesAt_push]
  split at hdef
  next hid =>
    -- An earlier definition stays; otherwise it is the one that was just pushed.
    cases hold : asm.definition? id with
    | some j =>
      rw [hold, Option.some_or] at hdef
      exact .inl (h id i (hold.trans hdef))
    | none =>
      rw [hold, Option.none_or, Option.some.injEq] at hdef
      exact .inr ⟨hdef.symm, hid.1, (isAllocated_iff.mp hid.2).1⟩
  next => exact .inl (h id i hdef)

theorem definitionsSound_flatten (asm : Assembler) : asm.flatten.2.DefinitionsSound := by
  intro id i hdef
  have hin := definedIn_flatten asm (lt_size_of_definition? hdef)
  rw [hdef] at hin
  split at hin
  · cases hin
  next hz =>
    obtain ⟨inst, hinst, hid⟩ := hin
    rw [Array.getElem?_toList] at hinst
    exact ⟨hz, inst, hinst, ResultId.ext_index hid⟩

/-- **What the table notes is right** in every state that a run reaches. -/
theorem definitionsSound_of_reached {ok : Appended → Prop}
    (hok : ∀ x : Appended, x.RefsKnown → x.IdKnown → ok x) (h : Reached ok asm) :
    asm.DefinitionsSound := by
  refine h.invariant hok ?_ ?_ ?_ fun a _ => definitionsSound_flatten a
  · intro id i hdef
    have hlt := lt_size_of_definition? hdef
    have hsize : Assembler.empty.ids.size = 1 := rfl
    rw [show id = .void from ResultId.eq_void (by omega)] at hdef
    cases hdef
  · intro a b hb ha
    refine hb.preserves (fun a b hcode hids h id i hdef => ?_) (fun a op h id i hdef => ?_)
      (fun a inst _ h => definitionsSound_push inst h) ha
    · exact (definesAt_congr hcode i id).mpr (h id i ((definition?_congr hids id).symm.trans hdef))
    · rw [definition?_create] at hdef
      exact h id i hdef
  · intro a old new ha id i hdef
    obtain ⟨hdefs, hat⟩ := replace_frame a old new
    rw [hdefs] at hdef
    exact (hat i id).mpr (ha id i hdef)

theorem definitionsComplete_push {inst : Instruction}
    (hid : Appended.IdKnown ⟨inst, asm.ids.size⟩) (h : asm.DefinitionsComplete) :
    (asm.push inst).DefinitionsComplete := by
  intro i id hat
  have hor : ∀ o : Option Nat, ∃ j, o.or (some asm.code.size) = some j := by
    intro o
    cases o with
    | none => exact ⟨_, rfl⟩
    | some j => exact ⟨j, rfl⟩
  rw [definition?_push]
  rcases definesAt_push.mp hat with hold | ⟨-, rfl, hz⟩
  · split
    · exact hor _
    · exact h i id hold
  · have hlt : inst.id.index < asm.ids.size :=
      hid.resolve_left fun hv => hz (ResultId.isVoid_iff.mp hv)
    rw [if_pos ⟨rfl, isAllocated_iff.mpr ⟨hz, hlt⟩⟩]
    exact hor _

theorem definitionsComplete_flatten (asm : Assembler) : asm.flatten.2.DefinitionsComplete := by
  intro i id hat
  have hin := definedIn_flatten asm (lt_size_of_definesAt_flatten hat)
  obtain ⟨hz, inst, hinst, hid⟩ := hat
  rw [if_neg hz] at hin
  cases hdef : asm.flatten.2.definition? id with
  | some j => exact ⟨j, rfl⟩
  | none =>
    -- Without an entry the new stream would not define the id at all.
    rw [hdef] at hin
    have hmem : inst ∈ asm.flatten.2.code.toList :=
      mem_code hinst
    exact absurd (congrArg ResultId.index hid) (hin inst hmem)

/-- **It is complete** if ids were allocated before instructions that define them were pushed. -/
theorem definitionsComplete_of_reached (h : Reached Appended.IdKnown asm) :
    asm.DefinitionsComplete := by
  refine h.invariant (fun _ _ hid => hid) ?_ ?_ ?_ fun a _ => definitionsComplete_flatten a
  · rintro i id ⟨-, inst, hinst, -⟩
    cases hinst
  · intro a b hb ha
    refine hb.preserves (fun a b hcode hids h i id hat => ?_) (fun a op h i id hat => ?_)
      (fun a inst hid h => definitionsComplete_push hid h) ha
    · rw [definition?_congr hids]
      exact h i id ((definesAt_congr hcode i id).mp hat)
    · rw [definition?_create]
      exact h i id hat
  · intro a old new ha i id hat
    obtain ⟨hdefs, hiff⟩ := replace_frame a old new
    rw [hdefs]
    exact ha i id ((hiff i id).mp hat)

end Assembler

end ShaderIR
