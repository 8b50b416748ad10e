/-!
Finite tables: association lists in which every key occurs at most once.
-/

namespace ShaderIR

structure Table (κ α : Type) where
  entries : List (κ × α) := []
deriving Inhabited, DecidableEq

namespace Table

variable {κ α : Type} [DecidableEq κ]

def get? (t : Table κ α) (k : κ) : Option α :=
  (t.entries.find? fun e => e.1 = k).map (·.2)

def contains (t : Table κ α) (k : κ) : Bool := (t.get? k).isSome

def insert (t : Table κ α) (k : κ) (v : α) : Table κ α :=
  ⟨(k, v) :: t.entries.filter fun e => e.1 ≠ k⟩

def insertIfNew (t : Table κ α) (k : κ) (v : α) : Table κ α :=
  if t.contains k then t else t.insert k v

def size (t : Table κ α) : Nat := t.entries.length

def filterMap {μ β : Type} (t : Table κ α) (f : κ → α → Option (μ × β)) : Table μ β :=
  ⟨t.entries.filterMap fun e => f e.1 e.2⟩

theorem mem_of_get? {t : Table κ α} {k : κ} {v : α} (h : t.get? k = some v) :
    (k, v) ∈ t.entries := by
  rw [get?, Option.map_eq_some_iff] at h
  obtain ⟨e, he, rfl⟩ := h
  have hk := List.find?_some he
  rw [← of_decide_eq_true hk]
  exact List.mem_of_find?_eq_some he

theorem mem_insert {t : Table κ α} {k : κ} {v : α} {e : κ × α} (h : e ∈ (t.insert k v).entries) :
    e = (k, v) ∨ e ∈ t.entries :=
  (List.mem_cons.mp h).imp_right fun he => (List.mem_filter.mp he).1

theorem get?_insert (t : Table κ α) (k j : κ) (v : α) :
    (t.insert k v).get? j = if k = j then some v else t.get? j := by
  by_cases h : k = j
  · simp [insert, get?, h]
  · have hfind : (t.entries.filter fun e => e.1 ≠ k).find? (fun e => e.1 = j)
        = t.entries.find? fun e => e.1 = j := by
      induction t.entries with
      | nil => rfl
      | cons e rest ih =>
        by_cases he : e.1 = j
        · simp [he, Ne.symm h]
        · by_cases hk : e.1 = k <;> simp_all
    simp [insert, get?, h, ← hfind]

section

variable {t : Table κ α} {k j : κ} {v w : α}

theorem get?_insert_self : (t.insert k v).get? k = some v := (get?_insert ..).trans (if_pos rfl)

theorem get?_insert_of_ne (h : k ≠ j) : (t.insert k v).get? j = t.get? j := (get?_insert ..).trans (if_neg h)

theorem get?_insert_of_none (hk : t.get? k = none) (hj : t.get? j = some w) :
    (t.insert k v).get? j = some w := by
  rw [get?_insert_of_ne, hj]
  rintro rfl
  rw [hk] at hj
  cases hj

theorem get?_insert_cases (h : (t.insert k v).get? j = some w) :
    (j = k ∧ w = v) ∨ t.get? j = some w := by
  rw [get?_insert] at h
  split at h
  next heq =>
    cases h
    exact .inl ⟨heq.symm, rfl⟩
  next => exact .inr h

end

end Table

end ShaderIR
