import ShaderIR.Assembler.Types
import ShaderIR.Text.Blank
import ShaderIR.Text.Quoted

/-!
Reading listings: the text is read line by line, then the assembler is rebuilt with every id as
written.
-/

namespace ShaderIR.Listing

open Text

/-! ## Reading one line -/

/-- A reader of part of a line: what it read and the characters left, or what is wrong. -/
abbrev LineReader (α : Type) := List Char → Except String (α × List Char)

/-- Steps over `c`, and the blanks before it, if it comes next. -/
def eat (c : Char) (cs : List Char) : Bool × List Char :=
  match trimStart cs with
  | [] => (false, [])
  | d :: rest => if d = c then (true, rest) else (false, d :: rest)

def expect (c : Char) : LineReader Unit := fun cs =>
  match eat c cs with
  | (true, rest) => .ok ((), rest)
  | (false, _) => .error ("expected `" ++ c.toString ++ "`")

def isWordChar (c : Char) : Bool := c.isAlphanum || c == '_'

def word (cs : List Char) : String × List Char :=
  let cs := trimStart cs
  (String.ofList (cs.takeWhile isWordChar), cs.dropWhile isWordChar)

def number : LineReader UInt32 := fun cs =>
  let (w, rest) := word cs
  match readWord? 10 w.toList with
  | some n => .ok (n, rest)
  | none => .error ("expected a number, found `" ++ w ++ "`")

def resultId : LineReader ResultId := fun cs => do
  let ((), cs) ← expect '%' cs
  let (n, cs) ← number cs
  return (⟨n.toNat⟩, cs)

def quoted : LineReader String := fun cs => do
  let ((), cs) ← expect '\x22' cs
  match Quoted.read cs with
  | .ok result => return result
  | .error e => throw e.message

def triple {α : Type} (opening closing : Char) (item : LineReader α) : LineReader (Triple α) :=
  fun cs => do
    let ((), cs) ← expect opening cs
    let (fst, cs) ← item cs
    let ((), cs) ← expect ',' cs
    let (snd, cs) ← item cs
    let ((), cs) ← expect ',' cs
    let (thd, cs) ← item cs
    let ((), cs) ← expect closing cs
    return (⟨fst, snd, thd⟩, cs)

def atEnd (cs : List Char) : Except String Unit :=
  match trimStart cs with
  | [] => .ok ()
  | rest => .error ("unexpected `" ++ String.ofList rest ++ "`")

def location : LineReader (Option Location) := fun cs =>
  match eat '!' cs with
  | (false, cs) => .ok (none, cs)
  | (true, cs) => do
    let (line, cs) ← number cs
    let ((), cs) ← expect ':' cs
    let (column, cs) ← number cs
    return (some ⟨line, column⟩, cs)

def instruction (cs : List Char) : Except String Instruction := do
  let (id, cs) ← resultId cs
  let ((), cs) ← expect '=' cs
  let (name, cs) := word cs
  match Opcode.ofName? name with
  | none => throw ("unknown opcode `" ++ name ++ "`")
  | some opcode =>
    let (operands, cs) ← triple '[' ']' number cs
    let (refs, cs) ← triple '(' ')' resultId cs
    let ((), cs) ← expect ':' cs
    let (resultType, cs) ← resultId cs
    let (location, cs) ← location cs
    atEnd cs
    return { opcode, id, operands, refs, resultType, location }

inductive Line
  | blank
  | next (id : ResultId)
  | string (s : String)
  | name (id : ResultId) (s : String)
  | code (inst : Instruction)
deriving DecidableEq, Inhabited

def directive (cs : List Char) : Except String Line := do
  let (w, cs) := word cs
  if w == "next" then
    let (id, cs) ← resultId cs
    atEnd cs
    return .next id
  else if w == "string" then
    let (s, cs) ← quoted cs
    atEnd cs
    return .string s
  else if w == "name" then
    let (id, cs) ← resultId cs
    let (s, cs) ← quoted cs
    atEnd cs
    return .name id s
  else throw ("unknown directive `@" ++ w ++ "`")

/-- Reads one line. A semicolon starts a comment, except in directives. -/
def line (cs : List Char) : Except String Line :=
  match trim cs with
  | [] => .ok .blank
  | c :: rest =>
    if c = ';' then .ok .blank
    else if c = '@' then directive rest
    else (instruction ((c :: rest).takeWhile (· ≠ ';'))).map .code

/-! ## Reading all lines -/

structure Contents where
  next : Nat := 1
  strings : Array String := #[]
  names : Array (ResultId × String) := #[]
  code : Array (Nat × Instruction) := #[]
deriving Inhabited

def Contents.add (c : Contents) (number : Nat) : Line → Contents
  | .blank => c
  | .next id => { c with next := id.index }
  | .string s => { c with strings := c.strings.push s }
  | .name id s => { c with names := c.names.push (id, s) }
  | .code inst => { c with code := c.code.push (number, inst) }

def readLines : Nat → List (List Char) → Contents → Except AssemblyError Contents
  | _, [], c => .ok c
  | number, cs :: rest, c =>
    match line cs with
    | .ok l => readLines (number + 1) rest (c.add number l)
    | .error message => .error (.listing number message)

/-- Cuts a text at its newlines; what was read before is given in reverse. -/
def splitLines (done : List (List Char)) (current : List Char) : List Char → List (List Char)
  | [] => (current.reverse :: done).reverse
  | c :: rest =>
    if c = '\n' then splitLines (current.reverse :: done) [] rest
    else splitLines done (c :: current) rest

def Contents.ofText (text : String) : Except AssemblyError Contents :=
  readLines 1 (splitLines [] [] text.toList) {}

namespace Contents

variable (c : Contents)

/-! ## Ids of a listing -/

def maxIndex : Nat :=
  let inCode := c.code.foldl (fun m (_, inst) => inst.slots.foldl (fun m id => max m id.index)
    (max m inst.id.index)) 0
  c.names.foldl (fun m (id, _) => max m id.index) inCode

/-- Number of ids to allocate, the void id included. -/
def bound : Nat := max c.next (c.maxIndex + 1)

/-- The most ids that a listing of this length may ask for. -/
def limit : Nat := c.code.size * 4 + 1024

/-- The opcode that each id is allocated for: that of its first definition other than `unknown`. -/
def opcodes : Array Opcode :=
  c.code.foldl
    (fun table (_, inst) =>
      if inst.id.isVoid then table
      else table.modify inst.id.index fun op => if op = .unknown then inst.opcode else op)
    (.replicate c.bound .unknown)

/-! ## Rebuilding the assembler -/

/-- The assembler together with the struct whose members are being read. -/
structure Rebuilding where
  asm : Assembler
  struct? : Option (ResultId × StructLayout) := none
deriving Inhabited

/-- The string that an operand word points at, empty if there is none. -/
def stringAt (asm : Assembler) (w : UInt32) : String := (asm.string? w.toNat).getD ""

def Rebuilding.add (b : Rebuilding) (inst : Instruction) : Except AssemblyError Rebuilding :=
  if inst.opcode = .structType then do
    let (_, asm) ← b.asm.beginSection inst
    return { asm, struct? := some (inst.id, { name := stringAt asm inst.operands.snd }) }
  else if inst.opcode = .structMember then
    -- A second member of the same name is pushed, but the layout keeps the first.
    let struct? := b.struct?.map fun (id, layout) =>
      (id, (layout.addMember? (stringAt b.asm inst.operands.snd) inst.refs.fst).getD layout)
    .ok { asm := b.asm.push inst, struct? }
  else if inst.opcode = .structEnd then do
    let asm ← b.asm.endSection inst
    match b.struct? with
    | some (id, layout) =>
      return { asm := { asm with types := asm.types.declareStruct id layout } }
    | none => return { asm }
  else if inst.opcode.isType then do return { b with asm := ← b.asm.pushTypeAsIs inst }
  else if inst.opcode.opens?.isSome then do
    let (_, asm) ← b.asm.beginSection inst
    return { b with asm }
  else if inst.opcode.closes?.isSome then do return { b with asm := ← b.asm.endSection inst }
  else .ok { b with asm := b.asm.push inst }

def rebuildCode : List (Nat × Instruction) → Rebuilding → Except AssemblyError Rebuilding
  | [], b => .ok b
  | (number, inst) :: rest, b =>
    match b.add inst with
    | .ok b => rebuildCode rest b
    | .error e => .error (.listing number e.message)

/-- Adds an interface variable for a shader input or output. One without a name is called after its
id. -/
def addInterface (asm : Assembler) (inst : Instruction) : Assembler :=
  let add (direction : Direction) : Assembler :=
    asm.registerInterface
      { name := (asm.name? inst.id).getD ("io" ++ toString inst.id.index)
        direction, var := inst.id, type := inst.refs.fst, location := inst.operands.fst }
  match inst.opcode with
  | .inputVar => add .input
  | .outputVar => add .output
  | _ => asm

def allocate : Assembler :=
  let asm := (c.opcodes.toList.drop 1).foldl (fun asm op => (asm.create op).2) .empty
  c.strings.foldl (fun asm s => (asm.addString s).2) asm

def rebuild : Except AssemblyError Assembler := do
  if c.limit < c.bound then
    throw (.listing 0
      ("id bound " ++ toString c.bound ++ " is out of proportion to the listing"))
  let b ← rebuildCode c.code.toList { asm := c.allocate }
  let asm := c.names.foldl (fun asm (id, name) => asm.setName id name) b.asm
  let asm := c.code.foldl (fun asm (_, inst) => addInterface asm inst) asm
  return asm.finish

end Contents

def parse (text : String) : Except AssemblyError Assembler := do
  let c ← Contents.ofText text
  c.rebuild

end ShaderIR.Listing
