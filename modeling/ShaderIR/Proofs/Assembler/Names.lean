import ShaderIR.Proofs.Assembler.Effects

/-!
# Debug names

The name table is sorted by id and holds no name for void.  So it is determined by what it answers,
and putting its entries into an empty table, in order, gives it back.
-/

namespace ShaderIR.NameTable

variable {t : NameTable} {id : ResultId} {l : List (ResultId × String)} {name : String}

/-! ## Look-up -/

theorem get?_insert (t : NameTable) (id : ResultId) (name : String) (j : ResultId) :
    (t.insert id name).get? j = if id = j then some name else t.get? j := by
  obtain ⟨entries⟩ := t
  simp only [insert, get?]
  induction entries with
  | nil =>
    rw [insertInto, List.find?_cons]
    by_cases h : id = j
    · simp [h]
    · simp [h]
  | cons e rest ih =>
    rw [insertInto]
    split
    · by_cases h : id = j
      · simp [h]
      · simp [List.find?_cons, h]
    · split
      next heq =>
        by_cases h : id = j
        · simp [h]
        · have hne : ¬ e.1 = j := fun he => h (heq.trans he)
          simp [h, hne]
      next hne =>
        -- Behind the first entry: if that one is asked for, the new one is another.
        by_cases he : e.1 = j
        · have h : ¬ id = j := fun h => hne (h.trans he.symm)
          simp [he, h]
        · rw [List.find?_cons, List.find?_cons]
          simp only [he, decide_false]
          exact ih

theorem mem_of_get? (h : t.get? id = some name) : (id, name) ∈ t.entries := by
  rw [get?, Option.map_eq_some_iff] at h
  obtain ⟨e, he, rfl⟩ := h
  have hd := List.find?_some he
  have hid : e.1 = id := of_decide_eq_true hd
  rw [← hid]
  exact List.mem_of_find?_eq_some he

theorem mem_insert {e : ResultId × String}
    (h : e ∈ (t.insert id name).entries) : e = (id, name) ∨ e ∈ t.entries := by
  obtain ⟨entries⟩ := t
  simp only [insert] at h ⊢
  induction entries with
  | nil => exact .inl (List.mem_singleton.mp h)
  | cons d rest ih =>
    rw [insertInto] at h
    split at h
    · exact List.mem_cons.mp h
    · split at h
      · exact (List.mem_cons.mp h).imp_right (List.mem_cons_of_mem _)
      · rcases List.mem_cons.mp h with rfl | h
        · exact .inr List.mem_cons_self
        · exact (ih h).imp_right (List.mem_cons_of_mem _)

/-! ## Order -/

/-- Entries are sorted by id, and void has none. -/
structure Proper (t : NameTable) : Prop where
  sorted : t.entries.Pairwise fun a b => a.1.index < b.1.index
  void : ∀ e ∈ t.entries, e.1.index ≠ 0

theorem proper_empty : Proper {} := ⟨.nil, nofun⟩

theorem Proper.get?_void (h : t.Proper) : t.get? .void = none := by
  cases hget : t.get? .void with
  | none => rfl
  | some name => exact absurd rfl (h.void _ (mem_of_get? hget))

theorem Proper.insert (h : t.Proper) (hid : id.index ≠ 0) (name : String) :
    (t.insert id name).Proper := by
  refine ⟨?_, fun e he => ?_⟩
  · obtain ⟨entries⟩ := t
    have hsorted := h.sorted
    simp only [NameTable.insert] at hsorted ⊢
    induction entries with
    | nil => exact List.pairwise_singleton _ _
    | cons d rest ih =>
      obtain ⟨hd, hrest⟩ := List.pairwise_cons.mp hsorted
      rw [insertInto]
      split
      next hlt =>
        refine List.pairwise_cons.mpr ⟨fun e he => ?_, hsorted⟩
        rcases List.mem_cons.mp he with rfl | he
        · exact hlt
        · exact Nat.lt_trans hlt (hd e he)
      next hge =>
        split
        next heq =>
          refine List.pairwise_cons.mpr ⟨fun e he => ?_, hrest⟩
          rw [heq]
          exact hd e he
        next hne =>
          have hvoid : ∀ e ∈ rest, e.1.index ≠ 0 := fun e he => h.void e (List.mem_cons_of_mem _ he)
          refine List.pairwise_cons.mpr ⟨fun e he => ?_, ih ⟨hrest, hvoid⟩ hrest⟩
          rcases mem_insert (t := ⟨rest⟩) he with rfl | he
          · -- Not in front of the first entry and not in its place, so behind it.
            have hindex : ¬ id.index = d.1.index := fun hi => hne (ResultId.ext_index hi)
            change d.1.index < id.index
            omega
          · exact hd e he
  · rcases mem_insert he with rfl | he
    · exact hid
    · exact h.void e he

theorem Proper.insert_of_get? (h : t.Proper) (hget : t.get? id = some name) :
    t.insert id name = t := by
  have hmem := mem_of_get? hget
  obtain ⟨entries⟩ := t
  have hsorted := h.sorted
  simp only [NameTable.insert, NameTable.mk.injEq] at hsorted hmem ⊢
  clear h hget
  induction entries with
  | nil => cases hmem
  | cons d rest ih =>
    obtain ⟨hd, hrest⟩ := List.pairwise_cons.mp hsorted
    rw [insertInto]
    rcases List.mem_cons.mp hmem with rfl | hmem
    · rw [if_neg (Nat.lt_irrefl _), if_pos rfl]
    · -- The entry is further back, and the order leads the insertion past the first one.
      have hlt : d.1.index < id.index := hd _ hmem
      have hne : ¬ id = d.1 := fun heq => by rw [heq] at hlt; exact Nat.lt_irrefl _ hlt
      rw [if_neg (by omega), if_neg hne, ih hmem hrest]

/-! ## Naming one id after the other -/

def nameAll (t : NameTable) (l : List (ResultId × String)) : NameTable :=
  l.foldl (fun t e => if e.1.isVoid then t else t.insert e.1 e.2) t

theorem Proper.nameAll (h : t.Proper) (l : List (ResultId × String)) : (t.nameAll l).Proper := by
  induction l generalizing t with
  | nil => exact h
  | cons e rest ih =>
    rw [NameTable.nameAll, List.foldl_cons]
    split
    · exact ih h
    next hv => exact ih (h.insert (ResultId.isVoid_eq_false.mp (Bool.eq_false_iff.mpr hv)) _)

theorem mem_nameAll {e : ResultId × String} (h : e ∈ (t.nameAll l).entries) :
    e ∈ t.entries ∨ e ∈ l := by
  induction l generalizing t with
  | nil => exact .inl h
  | cons d rest ih =>
    rw [nameAll, List.foldl_cons] at h
    rcases ih h with h | h
    · split at h
      · exact .inl h
      · rcases mem_insert h with rfl | h
        · exact .inr List.mem_cons_self
        · exact .inl h
    · exact .inr (List.mem_cons_of_mem _ h)

theorem exists_get?_nameAll (hid : id.index ≠ 0)
    (h : (∃ name, t.get? id = some name) ∨ ∃ e ∈ l, e.1 = id) :
    ∃ name, (t.nameAll l).get? id = some name := by
  induction l generalizing t with
  | nil =>
    rcases h with h | ⟨e, he, -⟩
    · exact h
    · cases he
  | cons d rest ih =>
    rw [nameAll, List.foldl_cons]
    by_cases hd : d.1 = id
    · have hv : ¬ d.1.isVoid = true := fun hv => hid (by rw [← hd]; exact ResultId.isVoid_iff.mp hv)
      rw [if_neg hv]
      refine ih (.inl ⟨d.2, ?_⟩)
      rw [get?_insert, if_pos hd]
    · refine ih ?_
      rcases h with ⟨name, hname⟩ | ⟨e, he, heq⟩
      · refine .inl ⟨name, ?_⟩
        split
        · exact hname
        · rw [get?_insert, if_neg hd]
          exact hname
      · rcases List.mem_cons.mp he with rfl | he
        · exact absurd heq hd
        · exact .inr ⟨e, he, heq⟩

theorem insertInto_of_forall_lt
    (h : ∀ e ∈ l, e.1.index < id.index) : insertInto id name l = l ++ [(id, name)] := by
  induction l with
  | nil => rfl
  | cons d rest ih =>
    have hlt := h d List.mem_cons_self
    have hne : ¬ id = d.1 := fun heq => by rw [heq] at hlt; exact Nat.lt_irrefl _ hlt
    rw [insertInto, if_neg (by omega), if_neg hne, ih fun e he => h e (List.mem_cons_of_mem _ he),
      List.cons_append]

theorem Proper.nameAll_entries (h : t.Proper) : NameTable.nameAll {} t.entries = t := by
  -- With the entries that are in the table already, each next one goes to the end.
  have hfold : ∀ l pre : List (ResultId × String),
      (pre ++ l).Pairwise (fun a b => a.1.index < b.1.index) → (∀ e ∈ l, e.1.index ≠ 0) →
      NameTable.nameAll ⟨pre⟩ l = ⟨pre ++ l⟩ := by
    intro l
    induction l with
    | nil => intro pre _ _; rw [List.append_nil]; rfl
    | cons e rest ih =>
      intro pre hsorted hvoid
      have hnv : ¬ e.1.isVoid = true := fun hv =>
        hvoid e List.mem_cons_self (ResultId.isVoid_iff.mp hv)
      have hlt : ∀ d ∈ pre, d.1.index < e.1.index := fun d hd =>
        (List.pairwise_append.mp hsorted).2.2 d hd e List.mem_cons_self
      have hsplit : pre ++ e :: rest = (pre ++ [e]) ++ rest := by simp
      rw [NameTable.nameAll, List.foldl_cons, if_neg hnv, NameTable.insert,
        insertInto_of_forall_lt hlt, hsplit]
      exact ih _ (hsplit ▸ hsorted) fun d hd => hvoid d (List.mem_cons_of_mem _ hd)
  exact hfold t.entries [] h.sorted h.void

end ShaderIR.NameTable
