import Mathlib.Data.List.Forall2

/-!
# Lists

What is used of lists in general: mapping partially twice, and lists that are related place by
place.
-/

namespace List

variable {α β : Type}

/-- What `ψ` leaves of the images under `φ` as they are, a second pass leaves. -/
theorem filterMap_filterMap_of_fixes {φ : α → Option β} {ψ : β → Option β}
    (h : ∀ a b, φ a = some b → ψ b = some b) (l : List α) :
    (l.filterMap φ).filterMap ψ = l.filterMap φ := by
  rw [filterMap_filterMap]
  congr 1
  funext a
  cases ha : φ a with
  | none => rfl
  | some b => exact h a b ha

theorem Forall₂.zipIdx {R : α → β → Prop} {l : List α} {l' : List β} (h : Forall₂ R l l')
    (i : Nat) :
    Forall₂ (fun e e' => R e.1 e'.1 ∧ e'.2 = e.2) (l.zipIdx i) (l'.zipIdx i) := by
  induction h generalizing i with
  | nil => exact .nil
  | cons hfirst _ ih => exact .cons ⟨hfirst, rfl⟩ (ih (i + 1))

theorem Forall₂.all_id {l l' : List Bool} (h : Forall₂ (fun c c' => c = true → c' = true) l l') :
    l.all id = true → l'.all id = true := by
  induction h with
  | nil => exact id
  | cons hc _ ih =>
    rw [all_cons, all_cons, Bool.and_eq_true, Bool.and_eq_true]
    exact And.imp hc ih

end List
