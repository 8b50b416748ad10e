import ShaderIR.Text.Number
import ShaderIR.Toml.Value

/-!
Numbers, dates, times and truth values of TOML.
-/

namespace ShaderIR.Toml

open Text (digitValue? readDigits?)

/-! ## Digits -/

def isDigitIn (base : Nat) (c : Char) : Bool :=
  match digitValue? c with
  | some d => d < base
  | none => false

/-- Whether `cs` is a run of digits with single underscores between them. -/
def isDigitRunFrom (base : Nat) : Bool → List Char → Bool
  | after, [] => after
  | after, '_' :: rest => after && isDigitRunFrom base false rest
  | _, c :: rest => isDigitIn base c && isDigitRunFrom base true rest

def isDigitRun (base : Nat) (cs : List Char) : Bool := isDigitRunFrom base false cs

def readRun? (base : Nat) (cs : List Char) : Option Nat :=
  if isDigitRun base cs then readDigits? base (cs.filter (· != '_')) else none

def isPlainRun : List Char → Bool
  | ['0'] => true
  | '0' :: _ => false
  | cs => isDigitRun 10 cs

def splitSign : List Char → Bool × List Char
  | '+' :: rest => (false, rest)
  | '-' :: rest => (true, rest)
  | cs => (false, cs)

def inRange (n : Int) : Bool := -0x8000000000000000 ≤ n && n < 0x8000000000000000

def integer? (negative : Bool) (n : Nat) : Option Value :=
  let n : Int := if negative then -n else n
  if inRange n then some (.integer n) else none

def readInteger? (cs : List Char) : Option Value :=
  match cs with
  | '0' :: 'x' :: rest => do integer? false (← readRun? 16 rest)
  | '0' :: 'o' :: rest => do integer? false (← readRun? 8 rest)
  | '0' :: 'b' :: rest => do integer? false (← readRun? 2 rest)
  | cs =>
    let (negative, digits) := splitSign cs
    if isPlainRun digits then do integer? negative (← readRun? 10 digits) else none

/-! ## Floats -/

/-- Splits at the first character that satisfies `p`, which is dropped. -/
def splitAt? (p : Char → Bool) (cs : List Char) : Option (List Char × List Char) :=
  match cs.span (!p ·) with
  | (before, _ :: behind) => some (before, behind)
  | (_, []) => none

/-- Least number that is rounded up to infinity: half a unit above the largest double. -/
def overflowBound : Nat := (1 <<< 1024) - (1 <<< 970)

def isTooLarge (digits : List Char) (exponent : Int) : Bool :=
  let digits := digits.dropWhile (· == '0')
  let places := digits.length + exponent
  if digits.isEmpty || places < 309 then false
  else if 309 < places then true
  else
    let n := (readDigits? 10 digits).getD 0
    if 0 ≤ exponent then overflowBound ≤ n * Nat.pow 10 exponent.toNat
    else overflowBound * Nat.pow 10 exponent.natAbs ≤ n

def readExponent? (cs : List Char) : Option Int :=
  let (negative, digits) := splitSign cs
  (readRun? 10 digits).map fun n => if negative then -n else n

/-- A decimal number with a fraction, an exponent or both. Positive numbers have to be finite. -/
def isFloat (cs : List Char) : Bool :=
  let (negative, digits) := splitSign cs
  let finite (whole fraction : List Char) (exponent : Int) : Bool :=
    let kept := (whole ++ fraction).filter (· != '_')
    let places := (fraction.filter (· != '_')).length
    negative || !isTooLarge kept (exponent - places)
  if digits == "inf".toList || digits == "nan".toList then true
  else
    let (mantissa, exponent?) := match splitAt? (fun c => c == 'e' || c == 'E') digits with
      | some (mantissa, exponent) => (mantissa, some (readExponent? exponent))
      | none => (digits, none)
    match splitAt? (· == '.') mantissa, exponent? with
    | _, some none => false
    | none, none => false
    | some (whole, fraction), some (some e) =>
      isPlainRun whole && isDigitRun 10 fraction && finite whole fraction e
    | some (whole, fraction), none =>
      isPlainRun whole && isDigitRun 10 fraction && finite whole fraction 0
    | none, some (some e) => isPlainRun mantissa && finite mantissa [] e

/-! ## Dates and times -/

def field? (count low high : Nat) (cs : List Char) : Option (Nat × List Char) := do
  let digits := cs.take count
  guard (digits.length == count)
  let n ← readDigits? 10 digits
  guard (low ≤ n && n ≤ high)
  return (n, cs.drop count)

def skip? (c : Char) : List Char → Option (List Char)
  | d :: rest => if d = c then some rest else none
  | [] => none

def isLeapYear (y : Nat) : Bool := y % 4 == 0 && (y % 100 != 0 || y % 400 == 0)

def daysIn (year month : Nat) : Nat :=
  if month = 2 then (if isLeapYear year then 29 else 28)
  else if [4, 6, 9, 11].contains month then 30
  else 31

def date? (cs : List Char) : Option (List Char) := do
  let (year, cs) ← field? 4 0 9999 cs
  let (month, cs) ← field? 2 1 12 (← skip? '-' cs)
  let (_, cs) ← field? 2 1 (daysIn year month) (← skip? '-' cs)
  return cs

def secondFraction? : List Char → Option (List Char)
  | '.' :: rest =>
    if (rest.takeWhile Char.isDigit).isEmpty then none else some (rest.dropWhile Char.isDigit)
  | cs => some cs

def time? (cs : List Char) : Option (List Char) := do
  let (_, cs) ← field? 2 0 23 cs
  let (_, cs) ← field? 2 0 59 (← skip? ':' cs)
  let (_, cs) ← field? 2 0 60 (← skip? ':' cs)
  secondFraction? cs

def isOffset : List Char → Bool
  | [] | ['Z'] | ['z'] => true
  | c :: cs => (c == '+' || c == '-') && (do
    let (_, cs) ← field? 2 0 23 cs
    let (_, cs) ← field? 2 0 59 (← skip? ':' cs)
    guard cs.isEmpty).isSome

def isTimeWithOffset (cs : List Char) : Bool := (time? cs).any isOffset

def isDateTime (cs : List Char) : Bool :=
  match date? cs with
  | some [] => true
  | some (c :: rest) => (c == 'T' || c == 't') && isTimeWithOffset rest
  | none => (time? cs).any (·.isEmpty)

/-! ## Scalars -/

def isScalarChar (c : Char) : Bool :=
  c.isAlphanum || c == '+' || c == '-' || c == '_' || c == '.' || c == ':'

def scalar? (cs : List Char) : Option Value :=
  if cs == "true".toList then some (.boolean true)
  else if cs == "false".toList then some (.boolean false)
  else if isDateTime cs then some (.dateTime (String.ofList cs))
  else if isFloat cs then some (.float (String.ofList cs))
  else readInteger? cs

/-- Whether an hour starts here, so that a time has to follow. -/
def startsTime : List Char → Bool
  | a :: b :: ':' :: _ => a.isDigit && b.isDigit
  | _ => false

/-- Reads a scalar. A date takes a time that stands one blank behind it. -/
def readScalar? (cs : List Char) : Option (Value × List Char) :=
  let (own, rest) := cs.span isScalarChar
  match rest with
  | ' ' :: behind =>
    if date? own == some [] && startsTime behind then
      let (time, rest) := behind.span isScalarChar
      if isTimeWithOffset time then
        some (.dateTime (String.ofList (own ++ ' ' :: time)), rest)
      else none
    else (scalar? own).map (·, rest)
  | _ => (scalar? own).map (·, rest)

end ShaderIR.Toml
