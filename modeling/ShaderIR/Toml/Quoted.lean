import ShaderIR.Text.Number

/-!
Quoted strings of TOML.
-/

namespace ShaderIR.Toml

open Text (readDigits?)

/-! ## Characters -/

def isBlank (c : Char) : Bool := c == ' ' || c == '\t'

/-- Characters that may stand in strings and comments: no control characters but tabs. -/
def isTextChar (c : Char) : Bool := c == '\t' || (' ' ≤ c && c != '\x7f')

def lineBreak? : List Char → Option (List Char)
  | '\n' :: rest => some rest
  | '\r' :: '\n' :: rest => some rest
  | _ => none

def hexChar? (digits : List Char) : Option Char := do
  let n ← readDigits? 16 digits
  if n.isValidChar then some (Char.ofNat n) else none

def escape? : List Char → Option (Char × List Char)
  | 'b' :: rest => some ('\x08', rest)
  | 't' :: rest => some ('\t', rest)
  | 'n' :: rest => some ('\n', rest)
  | 'f' :: rest => some ('\x0c', rest)
  | 'r' :: rest => some ('\r', rest)
  | '\x22' :: rest => some ('\x22', rest)
  | '\\' :: rest => some ('\\', rest)
  | 'u' :: rest => if rest.length < 4 then none else (hexChar? (rest.take 4)).map (·, rest.drop 4)
  | 'U' :: rest => if rest.length < 8 then none else (hexChar? (rest.take 8)).map (·, rest.drop 8)
  | _ => none

/-- Reads on up to the closing double quote. -/
def basicFrom? : Nat → List Char → List Char → Option (List Char × List Char)
  | 0, _, _ => none
  | _, _, [] => none
  | fuel + 1, done, c :: rest =>
    if c = '\x22' then some (done.reverse, rest)
    else if c = '\\' then
      match escape? rest with
      | some (e, rest) => basicFrom? fuel (e :: done) rest
      | none => none
    else if isTextChar c then basicFrom? fuel (c :: done) rest
    else none

def literal? (cs : List Char) : Option (List Char × List Char) :=
  let (own, rest) := cs.span fun c => isTextChar c && c != '\x27'
  match rest with
  | '\x27' :: rest => some (own, rest)
  | _ => none

/-! ## Strings on several lines -/

def dropSpace : List Char → List Char
  | '\r' :: '\n' :: rest => dropSpace rest
  | c :: rest => if isBlank c || c == '\n' then dropSpace rest else c :: rest
  | [] => []

/-- Reads up to two quotes that belong to a string, and the three that close it. -/
def closing? (quote : Char) (cs : List Char) : Option (Nat × List Char) :=
  let (quotes, rest) := cs.span (· == quote)
  let count := quotes.length
  if count < 3 then none
  else if count ≤ 5 then some (count - 3, rest)
  else some (2, cs.drop 5)

/-- Reads on up to three quotes. -/
def multilineFrom? (quote : Char) (escapes : Bool) :
    Nat → List Char → List Char → Option (List Char × List Char)
  | 0, _, _ => none
  | _, _, [] => none
  | fuel + 1, done, c :: rest =>
    if c = quote then
      match closing? quote (c :: rest) with
      | some (extra, rest) => some ((List.replicate extra quote ++ done).reverse, rest)
      | none => multilineFrom? quote escapes fuel (c :: done) rest
    else if escapes && c = '\\' then
      match lineBreak? (rest.dropWhile isBlank) with
      | some rest => multilineFrom? quote escapes fuel done (dropSpace rest)
      | none =>
        match escape? rest with
        | some (e, rest) => multilineFrom? quote escapes fuel (e :: done) rest
        | none => none
    else match lineBreak? (c :: rest) with
      | some rest => multilineFrom? quote escapes fuel ('\n' :: done) rest
      | none =>
        if isTextChar c then multilineFrom? quote escapes fuel (c :: done) rest else none

/-- Reads a string on several lines; a line break right at its start does not count. -/
def multiline? (quote : Char) (escapes : Bool) (cs : List Char) :
    Option (List Char × List Char) :=
  let cs := (lineBreak? cs).getD cs
  multilineFrom? quote escapes (cs.length + 1) [] cs

def readQuoted? : List Char → Option (String × List Char)
  | '\x22' :: rest => (basicFrom? (rest.length + 1) [] rest).map fun (s, r) => (String.ofList s, r)
  | '\x27' :: rest => (literal? rest).map fun (s, r) => (String.ofList s, r)
  | _ => none

def readString? : List Char → Option (String × List Char)
  | '\x22' :: '\x22' :: '\x22' :: rest =>
    (multiline? '\x22' true rest).map fun (s, r) => (String.ofList s, r)
  | '\x27' :: '\x27' :: '\x27' :: rest =>
    (multiline? '\x27' false rest).map fun (s, r) => (String.ofList s, r)
  | cs => readQuoted? cs

end ShaderIR.Toml
