import ShaderIR.Proofs.Assembler.Sweep

/-!
# Dense renumbering

The new number of an id is its `rank`, the number of ids below it that live on.  The entry of every
such id moves to its rank, so it is found under the new number just where the table was asked under
the old one.
-/

namespace ShaderIR

variable {flags : Array Bool} {e : IdEntry}

/-! ## Ranks -/

/-- Number of positions below `k` that are not flagged. -/
def rank (flags : Array Bool) (k : Nat) : Nat := (List.range k).countP fun i => !flagged flags i

@[simp] theorem rank_zero (flags : Array Bool) : rank flags 0 = 0 := rfl

theorem rank_succ (flags : Array Bool) (k : Nat) :
    rank flags (k + 1) = rank flags k + if flagged flags k = true then 0 else 1 := by
  rw [rank, rank, List.range_succ, List.countP_append, List.countP_singleton]
  cases flagged flags k <;> rfl

variable {i j : Nat} {α : Type}

theorem rank_mono (flags : Array Bool) (h : i ≤ j) : rank flags i ≤ rank flags j := by
  induction h with
  | refl => exact Nat.le_refl _
  | step _ ih => rw [rank_succ]; omega

theorem rank_lt_rank (hi : flagged flags i = false) (h : i < j) : rank flags i < rank flags j := by
  have hsucc : rank flags (i + 1) = rank flags i + 1 := by simp [rank_succ, hi]
  have hle : rank flags (i + 1) ≤ rank flags j := rank_mono flags h
  omega

theorem rank_inj (hi : flagged flags i = false)
    (hj : flagged flags j = false) (h : rank flags i = rank flags j) : i = j := by
  rcases Nat.lt_trichotomy i j with hlt | heq | hlt
  · have := rank_lt_rank hi hlt; omega
  · exact heq
  · have := rank_lt_rank hj hlt; omega

theorem exists_rank_eq {n r : Nat} (h : r < rank flags n) :
    ∃ k, k < n ∧ flagged flags k = false ∧ rank flags k = r := by
  induction n with
  | zero => cases h
  | succ n ih =>
    -- Either the number is reached below `n`, or `n` itself has it.
    by_cases hr : r < rank flags n
    · obtain ⟨k, hk, hrest⟩ := ih hr
      exact ⟨k, by omega, hrest⟩
    · rw [rank_succ] at h
      cases hn : flagged flags n with
      | true => simp only [hn, if_true] at h; omega
      | false =>
        simp only [hn, Bool.false_eq_true, if_false] at h
        exact ⟨n, by omega, hn, by omega⟩

theorem rank_eq_count_take {k : Nat} (h : k ≤ flags.size) :
    rank flags k = (flags.toList.take k).count false := by
  induction k with
  | zero => rfl
  | succ k ih =>
    have hlt : k < flags.toList.length := by rw [Array.length_toList]; omega
    rw [rank_succ, ih (by omega), List.take_succ_eq_append_getElem hlt, List.count_append,
      List.count_singleton, flagged_eq, ← Array.getElem?_toList, List.getElem?_eq_getElem hlt,
      Option.getD_some]
    cases flags.toList[k] <;> rfl

/-! ## Where survivors end up -/

theorem getElem?_filter_countP_take {p : α → Bool} {l : List α} {k : Nat} {v : α}
    (hv : l[k]? = some v) (hp : p v = true) : (l.filter p)[(l.take k).countP p]? = some v := by
  obtain ⟨hk, rfl⟩ := List.getElem?_eq_some_iff.mp hv
  have hsplit : l.filter p = (l.take k).filter p ++ l[k] :: (l.drop (k + 1)).filter p := by
    rw [← List.filter_cons_of_pos hp, ← List.drop_eq_getElem_cons hk, ← List.filter_append, List.take_append_drop]
  rw [hsplit, List.countP_eq_length_filter, List.getElem?_append_right (Nat.le_refl _), Nat.sub_self]
  rfl

section

variable {α : Type} {flags : Array Bool} {values : Array α}

theorem countP_take_zipIdx {k : Nat} (h : k ≤ values.size) :
    (values.toList.zipIdx.take k).countP (fun e => !flagged flags e.2) = rank flags k := by
  have hsnd : (values.toList.zipIdx.take k).map (·.2) = List.range k := by
    rw [List.map_take, List.zipIdx_map_snd, ← List.range_eq_range', List.take_range,
      Array.length_toList, Nat.min_eq_left h]
  rw [rank, ← hsnd, List.countP_map]
  rfl

theorem getElem?_survivors_rank {k : Nat} (hk : k < values.size)
    (hlive : flagged flags k = false) : (survivors flags values)[rank flags k]? = values[k]? := by
  have hzip : values.toList.zipIdx[k]? = some (values[k], k) := by
    rw [List.getElem?_zipIdx, Array.getElem?_toList, Array.getElem?_eq_getElem hk]
    simp
  rw [survivors, List.getElem?_map, ← countP_take_zipIdx (Nat.le_of_lt hk),
    getElem?_filter_countP_take hzip (by simp [hlive]), Array.getElem?_eq_getElem hk]
  rfl

theorem length_survivors : (survivors flags values).length = rank flags values.size := by
  rw [survivors, List.length_map, ← List.countP_eq_length_filter,
    ← countP_take_zipIdx (Nat.le_refl _), List.take_of_length_le]
  exact Nat.le_of_eq (by rw [List.length_zipIdx, Array.length_toList])

end

/-! ## The new numbers -/

namespace Renumbering

theorem getElem?_assign (next : Nat) (flags : List Bool) (i : Nat) :
    (assign next flags)[i]? = (flags[i]?).map fun dead =>
      if dead = true then ResultId.void else ⟨next + (flags.take i).count false⟩ := by
  induction flags generalizing next i with
  | nil => rfl
  | cons b rest ih =>
    cases i with
    | zero => cases b <;> rfl
    | succ i =>
      cases b with
      | true =>
        rw [assign, List.getElem?_cons_succ, List.getElem?_cons_succ, ih, List.take_succ_cons,
          List.count_cons_of_ne (by decide)]
      | false =>
        rw [assign, List.getElem?_cons_succ, List.getElem?_cons_succ, ih, List.take_succ_cons,
          List.count_cons_self]
        simp only [Nat.add_assoc, Nat.add_comm 1]

/-- **The new number of an id is its rank**; what is dead or was never allocated becomes void. -/
theorem apply_ofDead {dead : Array Bool} (hvoid : flagged dead 0 = false) (id : ResultId) :
    (ofDead dead).apply id =
      if id.index < dead.size ∧ flagged dead id.index = false then ⟨rank dead id.index⟩
      else .void := by
  obtain ⟨k⟩ := id
  simp only [apply, ofDead, Array.getD_eq_getD_getElem?, List.getElem?_toArray]
  cases k with
  | zero =>
    rw [List.getElem?_cons_zero, Option.getD_some, rank_zero]
    split <;> rfl
  | succ k =>
    rw [List.getElem?_cons_succ, getElem?_assign, List.getElem?_tail, Array.getElem?_toList]
    by_cases hlt : k + 1 < dead.size
    · -- The flag of void comes first and is not set.
      have hcons : dead.toList = false :: dead.toList.tail := by
        cases hl : dead.toList with
        | nil => rw [← Array.length_toList, hl] at hlt; cases hlt
        | cons b rest =>
          rw [flagged_eq, ← Array.getElem?_toList, hl] at hvoid
          rw [List.tail_cons, ← show b = false from hvoid]
      have hrank : rank dead (k + 1) = 1 + (dead.toList.tail.take k).count false := by
        rw [rank_eq_count_take (Nat.le_of_lt hlt), hcons, List.take_succ_cons, List.count_cons_self,
          List.tail_cons, Nat.add_comm]
      rw [flagged_eq, Array.getElem?_eq_getElem hlt, Option.map_some, Option.getD_some,
        Option.getD_some, hrank]
      cases dead[k + 1] <;> simp [hlt]
    · rw [Array.getElem?_eq_none_iff.mpr (Nat.le_of_not_lt hlt), if_neg (fun h => hlt h.1)]
      rfl

end Renumbering

/-! ## Moving the stream and the table -/

def Instruction.rename (f : ResultId → ResultId) (inst : Instruction) : Instruction :=
  { inst.mapSlots f with id := f inst.id }

@[simp] theorem Instruction.slots_rename (f : ResultId → ResultId) (inst : Instruction) :
    (inst.rename f).slots = inst.slots.map f := rfl

@[simp] theorem Instruction.id_rename (f : ResultId → ResultId) (inst : Instruction) :
    (inst.rename f).id = f inst.id := rfl

theorem Arena.compactInto_fst (keep : Nat → α → Bool) (i : Nat) (l : List α)
    (kept : Array α) (moves : Array (Option Nat)) : (compactInto keep i l kept moves).1.toList
      = kept.toList ++ ((l.zipIdx i).filter fun e => keep e.2 e.1).map (·.1) := by
  induction l generalizing i kept moves with
  | nil => simp [compactInto]
  | cons v rest ih =>
    rw [compactInto, List.zipIdx_cons, List.filter_cons]
    cases hv : keep i v with
    | true => simp [ih]
    | false => simp [ih]

theorem Arena.toList_compact (flags : Array Bool) (a : Array α) {keep : Nat → α → Bool}
    (h : ∀ i, i < a.size → ∀ v, keep i v = !flagged flags i) :
    ((Arena.mk a).compact keep).1.values.toList = survivors flags a := by
  rw [compact, compactInto_fst, List.nil_append, survivors]
  refine congrArg _ (List.filter_congr ?_)
  rintro ⟨v, i⟩ he
  rw [List.mem_zipIdx_iff_getElem?, Array.getElem?_toList] at he
  exact h i (Array.getElem?_eq_some_iff.mp he).1 v

namespace Arena

variable {α : Type} {k : Nat}

theorem getElem?_compactInto_snd (keep : Nat → α → Bool) (i : Nat) (l : List α) (kept : Array α)
    {moves : Array (Option Nat)} (hk : k < moves.size) :
    (compactInto keep i l kept moves).2[k]? = moves[k]? := by
  induction l generalizing i kept moves with
  | nil => rfl
  | cons v rest ih =>
    have hpush : ∀ m : Option Nat, k < (moves.push m).size ∧ (moves.push m)[k]? = moves[k]? := by
      intro m
      rw [Array.size_push, Array.getElem?_push, if_neg (Nat.ne_of_lt hk)]
      exact ⟨Nat.lt_succ_of_lt hk, rfl⟩
    rw [compactInto]
    split
    · rw [ih _ _ (hpush _).1, (hpush _).2]
    · rw [ih _ _ (hpush _).1, (hpush _).2]

theorem compactInto_snd (flags : Array Bool) {l : List α} {i : Nat} {kept : Array α}
    {moves : Array (Option Nat)} (hmoves : moves.size = i) (hkept : kept.size = rank flags i)
    (hk : k < l.length) (hleft : flagged flags (i + k) = false) :
    (compactInto (fun i _ => !flagged flags i) i l kept moves).2[i + k]? =
      some (some (rank flags (i + k))) := by
  induction l generalizing i kept moves k with
  | nil => exact absurd hk (Nat.not_lt_zero k)
  | cons v rest ih =>
    rw [compactInto]
    cases k with
    | zero =>
      change flagged flags i = false at hleft
      show (if (!flagged flags i) = true then _ else _ : Array α × Array (Option Nat)).2[i]? =
        some (some (rank flags i))
      rw [if_pos (by rw [hleft]; rfl), getElem?_compactInto_snd _ _ _ _ (by simp [hmoves]),
        ← hmoves, Array.getElem?_push_size, hkept, hmoves]
    | succ k =>
      have hlt : k < rest.length := Nat.lt_of_succ_lt_succ hk
      have hpos : i + (k + 1) = i + 1 + k := by omega
      have hrank := rank_succ flags i
      rw [hpos] at hleft ⊢
      cases hi : flagged flags i with
      | true =>
        rw [hi, if_pos rfl] at hrank
        exact ih (by simp [hmoves]) (by rw [hkept, hrank]; rfl) hlt hleft
      | false =>
        rw [hi, if_neg Bool.false_ne_true] at hrank
        exact ih (by simp [hmoves]) (by rw [Array.size_push, hkept, hrank]) hlt hleft

theorem join_compact (flags : Array Bool) {a : Array α} (hk : k < a.size)
    (hleft : flagged flags k = false) :
    ((((Arena.mk a).compact fun i _ => !flagged flags i).2)[k]?).join = some (rank flags k) := by
  have hmoved := @compactInto_snd α k flags a.toList 0 #[] #[] rfl rfl (by simpa using hk) (by simpa using hleft)
  rw [Nat.zero_add] at hmoved
  exact congrArg Option.join hmoved

end Arena

namespace Assembler

theorem getElem?_recordDefinitions (first : Nat) (insts : List Instruction) {ids : Array IdEntry}
    {k : Nat} (h : ids[k]? = some e) :
    ∃ d, (recordDefinitions first insts ids)[k]? = some { e with definition := d } ∧
      ((d = e.definition ∧ ∀ inst ∈ insts, inst.id.index = k → k = 0) ∨
        ∃ j inst, insts[j]? = some inst ∧ inst.id.index = k ∧ k ≠ 0 ∧ d = some (first + j)) := by
  induction insts generalizing first ids e with
  | nil => exact ⟨e.definition, h, .inl ⟨rfl, fun inst hi => absurd hi List.not_mem_nil⟩⟩
  | cons inst rest ih =>
    -- A later definition replaces the one recorded here.
    have hlater : ∀ {d : Option Nat},
        (∃ j i, rest[j]? = some i ∧ i.id.index = k ∧ k ≠ 0 ∧ d = some (first + 1 + j)) →
        ∃ j i, (inst :: rest)[j]? = some i ∧ i.id.index = k ∧ k ≠ 0 ∧ d = some (first + j) := by
      rintro d ⟨j, i, hj, hi, hk, rfl⟩
      exact ⟨j + 1, i, hj, hi, hk, by rw [Nat.add_assoc, Nat.add_comm 1]⟩
    rw [recordDefinitions]
    split
    next hvoid =>
      rw [ResultId.isVoid_iff] at hvoid
      obtain ⟨d, hd, hcase⟩ := ih (first + 1) h
      refine ⟨d, hd, ?_⟩
      rcases hcase with ⟨hdef, hnone⟩ | hsome
      · refine .inl ⟨hdef, fun i hi hik => ?_⟩
        rcases List.mem_cons.mp hi with rfl | hi
        · omega
        · exact hnone i hi hik
      · exact .inr (hlater hsome)
    next hvoid =>
      rw [ResultId.isVoid_iff] at hvoid
      by_cases hk : inst.id.index = k
      · -- Recorded here, unless the rest of the stream defines the id again.
        have hentry : (ids.modify inst.id.index fun e => { e with definition := some first })[k]?
            = some { e with definition := some first } := by
          rw [Array.getElem?_modify, if_pos hk, h]; rfl
        obtain ⟨d, hd, hcase⟩ := ih (first + 1) hentry
        refine ⟨d, hd, .inr ?_⟩
        rcases hcase with ⟨rfl, -⟩ | hsome
        · exact ⟨0, inst, rfl, hk, by omega, rfl⟩
        · exact hlater hsome
      · have hentry : (ids.modify inst.id.index fun e => { e with definition := some first })[k]?
            = some e := by
          rw [Array.getElem?_modify, if_neg hk, h]
        obtain ⟨d, hd, hcase⟩ := ih (first + 1) hentry
        refine ⟨d, hd, ?_⟩
        rcases hcase with ⟨hdef, hnone⟩ | hsome
        · refine .inl ⟨hdef, fun i hi hik => ?_⟩
          rcases List.mem_cons.mp hi with rfl | hi
          · exact absurd hik hk
          · exact hnone i hi hik
        · exact .inr (hlater hsome)

/-- `d` says where some instructions define the id with index `k`, if they do. -/
def DefinedIn (insts : List Instruction) (k : Nat) (d : Option Nat) : Prop :=
  match d with
  | some j => ∃ inst, insts[j]? = some inst ∧ inst.id.index = k
  | none => ∀ inst ∈ insts, inst.id.index ≠ k

theorem definedIn_recordDefinitions (insts : List Instruction) {ids : Array IdEntry} {k : Nat}
    (h : ids[k]? = some e) (hnone : e.definition = none) :
    ∃ d, (recordDefinitions 0 insts ids)[k]? = some { e with definition := d } ∧
      if k = 0 then d = none else DefinedIn insts k d := by
  obtain ⟨d, hd, hcase⟩ := getElem?_recordDefinitions 0 insts h
  refine ⟨d, hd, ?_⟩
  rcases hcase with ⟨rfl, hno⟩ | ⟨j, inst, hj, hid, hk, rfl⟩
  · split
    · exact hnone
    next hk =>
      rw [hnone]
      exact fun inst hi hik => hk (hno inst hi hik)
  · rw [if_neg hk, Nat.zero_add]
    exact ⟨inst, hj, hid⟩

theorem size_recordDefinitions (first : Nat) (insts : List Instruction) (ids : Array IdEntry) :
    (recordDefinitions first insts ids).size = ids.size := by
  induction insts generalizing first ids with
  | nil => rfl
  | cons inst rest ih =>
    rw [recordDefinitions]
    split
    · exact ih _ _
    · rw [ih, Array.size_modify]

section

variable {asm : Assembler} {dead removed : Array Bool}

theorem code_applyRenumbering (asm : Assembler) (m : Renumbering) (removed : Array Bool) :
    (asm.applyRenumbering m removed).code.toList
      = (survivors removed asm.code).map (Instruction.rename m.apply) := by
  have hkept : ((Arena.mk asm.code).compact fun i _ => !removed.getD i false).1.values.toList
      = survivors removed asm.code := Arena.toList_compact removed asm.code fun _ _ _ => rfl
  rw [← hkept, ← Array.toList_map]
  rfl

/-- The table before definitions are recorded again: the entries of what lives on, in order. -/
def movedEntries (asm : Assembler) (dead : Array Bool) : List IdEntry :=
  (survivors dead asm.ids).map fun e => { e with definition := none }

theorem ids_applyRenumbering (hvoid : flagged dead 0 = false) (hsize : dead.size = asm.ids.size) :
    (asm.applyRenumbering (.ofDead dead) removed).ids
      = recordDefinitions 0 (asm.applyRenumbering (.ofDead dead) removed).code.toList
          (asm.movedEntries dead).toArray := by
  -- The table keeps an entry if its id has a new number, which says the same as that it lives on.
  have hkeep : ∀ i, i < asm.ids.size → ∀ _ : IdEntry,
      (i == 0 || !((Renumbering.ofDead dead).apply ⟨i⟩).isVoid) = !flagged dead i := by
    intro i hi _
    by_cases hz : i = 0
    · subst hz
      rw [hvoid]
      rfl
    · have hpos : rank dead i ≠ 0 := by
        have hlt := rank_lt_rank hvoid (Nat.pos_of_ne_zero hz)
        omega
      rw [Renumbering.apply_ofDead hvoid]
      cases hlive : flagged dead i <;> simp [hz, hsize, hi, hpos, ResultId.isVoid, ResultId.void]
  have halive := Arena.toList_compact dead asm.ids hkeep
  have hmoved : (asm.movedEntries dead).toArray = ((Arena.mk asm.ids).compact fun i _ =>
          i == 0 || !((Renumbering.ofDead dead).apply ⟨i⟩).isVoid).1.values.map
        fun e => { e with definition := none } := by
    rw [movedEntries, ← halive, ← Array.toList_map]
  rw [hmoved]
  rfl

/-- **The entry of an id that lives on is found under its new number**, with its opcode, its count
and the place of its definition in the new stream. -/
theorem getElem?_ids_applyRenumbering (removed : Array Bool) (hvoid : flagged dead 0 = false)
    (hsize : dead.size = asm.ids.size) {k : Nat} (hlive : flagged dead k = false)
    (he : asm.ids[k]? = some e) :
    ∃ d, (asm.applyRenumbering (.ofDead dead) removed).ids[rank dead k]?
        = some { e with definition := d } ∧
      if rank dead k = 0 then d = none
      else DefinedIn (asm.applyRenumbering (.ofDead dead) removed).code.toList (rank dead k) d := by
  have hk : k < asm.ids.size := (Array.getElem?_eq_some_iff.mp he).1
  have hentry : (asm.movedEntries dead).toArray[rank dead k]? = some { e with definition := none } := by
    rw [List.getElem?_toArray, movedEntries, List.getElem?_map, getElem?_survivors_rank hk hlive, he]
    rfl
  obtain ⟨d, hd, hdef⟩ := definedIn_recordDefinitions
    (asm.applyRenumbering (.ofDead dead) removed).code.toList hentry rfl
  rw [ids_applyRenumbering hvoid hsize]
  exact ⟨d, hd, hdef⟩

theorem size_ids_applyRenumbering (hvoid : flagged dead 0 = false)
    (hsize : dead.size = asm.ids.size) :
    (asm.applyRenumbering (.ofDead dead) removed).ids.size = rank dead asm.ids.size := by
  rw [ids_applyRenumbering hvoid hsize, size_recordDefinitions, List.size_toArray, movedEntries,
    List.length_map, length_survivors]

end

end Assembler

end ShaderIR
