/-!
Reading numbers in a given base.
-/

namespace ShaderIR.Text

/-- The value of a digit, letters of either case counting on from ten. -/
def digitValue? (c : Char) : Option Nat :=
  if '0' ≤ c ∧ c ≤ '9' then some (c.toNat - '0'.toNat)
  else if 'a' ≤ c ∧ c ≤ 'z' then some (c.toNat - 'a'.toNat + 10)
  else if 'A' ≤ c ∧ c ≤ 'Z' then some (c.toNat - 'A'.toNat + 10)
  else none

def readDigitsFrom (base : Nat) : Nat → List Char → Option Nat
  | n, [] => some n
  | n, c :: rest =>
    match digitValue? c with
    | some d => if d < base then readDigitsFrom base (n * base + d) rest else none
    | none => none

def readDigits? (base : Nat) (cs : List Char) : Option Nat :=
  if cs.isEmpty then none else readDigitsFrom base 0 cs

def readWord? (base : Nat) (cs : List Char) : Option UInt32 := do
  let n ← readDigits? base cs
  if n < UInt32.size then some n.toUInt32 else none

end ShaderIR.Text
