/-!
Storage addressed by position.
-/

namespace ShaderIR

/-! ## Spans -/

/-- The positions from `first` up to, and not including, `stop`. -/
structure Span where
  first : Nat
  stop : Nat
deriving DecidableEq, Inhabited

namespace Span

def inclusive (first last : Nat) : Span := ⟨first, last + 1⟩

def size (s : Span) : Nat := s.stop - s.first

def isEmpty (s : Span) : Bool := s.stop ≤ s.first

def contains (s : Span) (i : Nat) : Bool := s.first ≤ i && i < s.stop

def text (s : Span) : String := "@" ++ toString s.first ++ "..@" ++ toString s.stop

end Span

/-! ## Arenas -/

structure Arena (α : Type) where
  values : Array α := #[]
deriving Inhabited, DecidableEq

namespace Arena

variable {α : Type}
variable (a : Arena α)

def next : Nat := a.values.size

def append (v : α) : Arena α := ⟨a.values.push v⟩

def get? (i : Nat) : Option α := a.values[i]?

/-- Overwrites position `i`; positions that hold nothing are left alone. -/
def set (i : Nat) (v : α) : Arena α := ⟨a.values.setIfInBounds i v⟩

def slice (s : Span) : Array α := a.values.extract s.first s.stop

def mapIdx (f : Nat → α → α) : Arena α := ⟨a.values.mapIdx f⟩

/-- Splits the values of a list by `keep`, starting at position `i`; `moves` says where each went.
-/
def compactInto (keep : Nat → α → Bool) :
    Nat → List α → Array α → Array (Option Nat) → Array α × Array (Option Nat)
  | _, [], kept, moves => (kept, moves)
  | i, v :: rest, kept, moves =>
    if keep i v then compactInto keep (i + 1) rest (kept.push v) (moves.push (some kept.size))
    else compactInto keep (i + 1) rest kept (moves.push none)

/-- Drops the values that `keep` rejects. The second result says where each old position moved. -/
def compact (keep : Nat → α → Bool) : Arena α × Array (Option Nat) :=
  let (kept, moves) := compactInto keep 0 a.values.toList #[] #[]
  (⟨kept⟩, moves)

end Arena

/-! ## Interners -/

/-- Distinct values in order of first arrival. -/
structure Interner (α : Type) where
  values : Array α := #[]
deriving Inhabited, DecidableEq

namespace Interner

variable {α : Type} [DecidableEq α]

def find? (t : Interner α) (v : α) : Option Nat := t.values.findIdx? (· = v)

def get? (t : Interner α) (i : Nat) : Option α := t.values[i]?

def insertFull (t : Interner α) (v : α) : Nat × Bool × Interner α :=
  match t.find? v with
  | some i => (i, false, t)
  | none => (t.values.size, true, ⟨t.values.push v⟩)

def insert (t : Interner α) (v : α) : Nat × Interner α :=
  let (i, _, t) := t.insertFull v
  (i, t)

end Interner

end ShaderIR
