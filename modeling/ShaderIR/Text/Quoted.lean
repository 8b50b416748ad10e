import ShaderIR.Text.Number
import ShaderIR.Text.Unprintable

/-!
Quoted strings, and the escapes in them.
-/

namespace ShaderIR.Text.Quoted

def escape (c : Char) : List Char :=
  if c = '\x00' then ['\\', '0']
  else if c = '\t' then ['\\', 't']
  else if c = '\r' then ['\\', 'r']
  else if c = '\n' then ['\\', 'n']
  else if c = '\x22' then ['\\', '\x22']
  else if c = '\\' then ['\\', '\\']
  else if isUnprintable c then ['\\', 'u', '\x7b'] ++ Nat.toDigits 16 c.toNat ++ ['\x7d']
  else [c]

def write (s : String) : String :=
  String.ofList (['\x22'] ++ s.toList.flatMap escape ++ ['\x22'])

/-! ## Reading -/

inductive Malformed
  | unicodeEscape | unknownEscape | unterminated
deriving DecidableEq, Inhabited

def Malformed.message : Malformed → String
  | .unicodeEscape => "malformed unicode escape"
  | .unknownEscape => "unknown escape"
  | .unterminated => "unterminated string"

/-- Reads the code point between the braces of an escape. A plus sign may precede the digits. -/
def codePoint? (hex : List Char) : Option Char := do
  let digits := match hex with
    | '+' :: rest => rest
    | _ => hex
  let n ← readWord? 16 digits
  if n.toNat.isValidChar then some (Char.ofNat n.toNat) else none

inductive Reading
  | plain
  | escaped
  | brace
  /-- Among the digits of a code point, the last one first. -/
  | digits (hex : List Char)
deriving DecidableEq, Inhabited

def short? (c : Char) : Option Char :=
  if c = 'n' then some '\n'
  else if c = 't' then some '\t'
  else if c = 'r' then some '\r'
  else if c = '0' then some '\x00'
  else if c = '\\' ∨ c = '\x22' ∨ c = '\x27' then some c
  else none

/-- Reads up to the closing quote; `done` holds what was read before, in reverse. -/
def readBody : Reading → List Char → List Char → Except Malformed (String × List Char)
  | .plain, _, [] => .error .unterminated
  | .plain, done, c :: rest =>
    if c = '\x22' then .ok (String.ofList done.reverse, rest)
    else if c = '\\' then readBody .escaped done rest
    else readBody .plain (c :: done) rest
  | .escaped, _, [] => .error .unknownEscape
  | .escaped, done, c :: rest =>
    if c = 'u' then readBody .brace done rest
    else match short? c with
      | some d => readBody .plain (d :: done) rest
      | none => .error .unknownEscape
  | .brace, _, [] => .error .unicodeEscape
  | .brace, done, c :: rest =>
    if c = '\x7b' then readBody (.digits []) done rest else .error .unicodeEscape
  -- A code point that the text ends in is still a code point, but the string has no end.
  | .digits hex, _, [] =>
    match codePoint? hex.reverse with
    | some _ => .error .unterminated
    | none => .error .unicodeEscape
  | .digits hex, done, c :: rest =>
    if c = '\x7d' then
      match codePoint? hex.reverse with
      | some d => readBody .plain (d :: done) rest
      | none => .error .unicodeEscape
    else readBody (.digits (c :: hex)) done rest

def read (cs : List Char) : Except Malformed (String × List Char) := readBody .plain [] cs

end ShaderIR.Text.Quoted
