import ShaderIR.Toml.Quoted
import ShaderIR.Toml.Scalar

/-!
Reading TOML documents, line by line.
-/

namespace ShaderIR.Toml

/-! ## Blanks and line ends -/

def dropBlanks (cs : List Char) : List Char := cs.dropWhile isBlank

def dropComment : List Char → List Char
  | '#' :: rest => rest.dropWhile isTextChar
  | cs => cs

def endLine? (cs : List Char) : Option (List Char) :=
  match dropComment (dropBlanks cs) with
  | [] => some []
  | cs => lineBreak? cs

def dropFiller? : Nat → List Char → Option (List Char)
  | 0, _ => none
  | fuel + 1, cs =>
    match dropBlanks cs with
    | '#' :: rest => (lineBreak? (rest.dropWhile isTextChar)).bind (dropFiller? fuel)
    | cs =>
      match lineBreak? cs with
      | some rest => dropFiller? fuel rest
      | none => some cs

/-! ## Keys -/

def maxNesting : Nat := 80

def isBareChar (c : Char) : Bool := c.isAlphanum || c == '-' || c == '_'

def keyPart? (cs : List Char) : Option (String × List Char) :=
  match readQuoted? cs with
  | some result => some result
  | none =>
    match cs.span isBareChar with
    | ([], _) => none
    | (own, rest) => some (String.ofList own, rest)

def keyParts? : Nat → List Char → Option (List String × List Char)
  | 0, _ => none
  | fuel + 1, cs => do
    let (part, cs) ← keyPart? (dropBlanks cs)
    match dropBlanks cs with
    | '.' :: rest =>
      let (parts, rest) ← keyParts? fuel rest
      return (part :: parts, rest)
    | rest => return ([part], rest)

/-- A key: the tables it passes through, and its last part. -/
structure Key where
  path : List String
  last : String
deriving DecidableEq, Inhabited

def key? (cs : List Char) : Option (Key × List Char) := do
  let (parts, rest) ← keyParts? (maxNesting - 1) cs
  let last ← parts.getLast?
  return (⟨parts.dropLast, last⟩, rest)

/-! ## Values -/

def items? (item : List Char → Option (Value × List Char)) :
    Nat → List Value → List Char → Option (List Value × List Char)
  | 0, _, _ => none
  | fuel + 1, done, cs => do
    let cs ← dropFiller? (cs.length + 1) cs
    match cs with
    | ']' :: rest => return (done.reverse, rest)
    | cs =>
      let (v, cs) ← item cs
      let cs ← dropFiller? (cs.length + 1) cs
      match cs with
      | ',' :: rest => items? item fuel (v :: done) rest
      | ']' :: rest => return ((v :: done).reverse, rest)
      | _ => none

def keyValue? (value : List Char → Option (Value × List Char)) (cs : List Char) :
    Option ((Key × Value) × List Char) := do
  let (key, cs) ← key? cs
  match cs with
  | '=' :: rest =>
    let (v, rest) ← value (dropBlanks rest)
    return ((key, v), rest)
  | _ => none

def inlineEntries? (value : List Char → Option (Value × List Char)) :
    Nat → Entries → List Char → Option (Entries × List Char)
  | 0, _, _ => none
  | fuel + 1, es, cs => do
    let ((key, v), cs) ← keyValue? value cs
    let es ← es.addDotted? true key.path key.last v
    match dropBlanks cs with
    | ',' :: rest => inlineEntries? value fuel es rest
    | '\x7d' :: rest => return (es, rest)
    | _ => none

/-- Reads a value in which arrays and tables are nested less than `depth` deep. -/
def value? : Nat → List Char → Option (Value × List Char)
  | 0, _ => none
  | depth + 1, cs =>
    match cs with
    | '\x22' :: _ | '\x27' :: _ => (readString? cs).map fun (s, rest) => (.string s, rest)
    | '[' :: rest =>
      if depth = 0 then none
      else (items? (value? depth) (cs.length + 1) [] rest).map fun (vs, rest) => (.array vs, rest)
    | '\x7b' :: rest =>
      if depth = 0 then none
      else match dropBlanks rest with
        | '\x7d' :: rest => some (.table .inline [], rest)
        | rest =>
          (inlineEntries? (value? depth) (cs.length + 1) [] rest).map fun (es, rest) =>
            (.table .inline es, rest)
    | cs => readScalar? cs

/-! ## Documents -/

/-- What has been read so far: the document, and the key of the table opened last. -/
structure Progress where
  root : Entries := []
  current : Option Key := none
deriving Inhabited

def Progress.add? (p : Progress) (key : Key) (v : Value) : Option Progress := do
  let add (es : Entries) := es.addDotted? true key.path key.last v
  match p.current with
  | none => return { p with root := ← add p.root }
  | some table => return { p with root := ← p.root.modifyOpen? table.path table.last add }

/-- Reads a header in single or double brackets; the first bracket has been read. -/
def header? (p : Progress) (cs : List Char) : Option (Progress × List Char) := do
  match cs with
  | '[' :: rest =>
    match ← key? rest with
    | (key, ']' :: ']' :: rest) =>
      return ({ root := ← p.root.openElement? key.path key.last, current := some key }, rest)
    | _ => none
  | cs =>
    match ← key? cs with
    | (key, ']' :: rest) =>
      return ({ root := ← p.root.openTable? key.path key.last, current := some key }, rest)
    | _ => none

def lines? : Nat → Progress → List Char → Option Progress
  | 0, _, _ => none
  | fuel + 1, p, cs =>
    match dropBlanks cs with
    | [] => some p
    | '[' :: rest => do
      let (p, rest) ← header? p rest
      lines? fuel p (← endLine? rest)
    | c :: rest =>
      if c = '#' || c = '\n' || c = '\r' then
        (endLine? (c :: rest)).bind (lines? fuel p)
      else do
        let ((key, v), rest) ← keyValue? (value? maxNesting) (c :: rest)
        lines? fuel (← p.add? key v) (← endLine? rest)

/-- Reads a document, which may start with a byte order mark. -/
def parse? (text : String) : Option Entries :=
  let cs := match text.toList with
    | '\ufeff' :: rest => rest
    | cs => cs
  (lines? (cs.length + 1) {} cs).map (·.root)

end ShaderIR.Toml
