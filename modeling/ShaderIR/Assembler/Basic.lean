import ShaderIR.Error
import ShaderIR.Types.Registry

/-!
The assembler: a stream of instructions and the tables kept about it. Problems of bookkeeping are
recorded and the work goes on; an operation that is refused changes nothing.
-/

namespace ShaderIR

/-! ## State -/

structure IdEntry where
  opcode : Opcode
  /-- Number of slots in the stream that hold the id. -/
  uses : Nat := 0
  definition : Option Nat := none
deriving DecidableEq, Inhabited

structure LoopTargets where
  continueLabel : ResultId
  breakLabel : ResultId
deriving DecidableEq, Inhabited

structure OpenSection where
  kind : SectionKind
  header : ResultId
  start : Nat
  /-- Loops of this section, innermost first. -/
  loops : List LoopTargets := []
deriving DecidableEq, Inhabited

structure ClosedSection where
  kind : SectionKind
  header : ResultId
  span : Span
deriving DecidableEq, Inhabited

structure InterfaceVar where
  name : String
  direction : Direction
  var : ResultId
  type : ResultId
  location : UInt32
deriving DecidableEq, Inhabited

def Direction.opcode : Direction → Opcode
  | .input => .inputVar
  | .output => .outputVar

/-- Debug names, sorted by id. -/
structure NameTable where
  entries : List (ResultId × String) := []
deriving DecidableEq, Inhabited

namespace NameTable

def insertInto (id : ResultId) (name : String) :
    List (ResultId × String) → List (ResultId × String)
  | [] => [(id, name)]
  | e :: rest =>
    if id.index < e.1.index then (id, name) :: e :: rest
    else if id = e.1 then (id, name) :: rest
    else e :: insertInto id name rest

def insert (t : NameTable) (id : ResultId) (name : String) : NameTable :=
  ⟨insertInto id name t.entries⟩

def get? (t : NameTable) (id : ResultId) : Option String :=
  (t.entries.find? (·.1 = id)).map (·.2)

end NameTable

structure Assembler where
  code : Array Instruction := #[]
  /-- One entry per allocated id. The entry of the void id is never touched. -/
  ids : Array IdEntry := #[{ opcode := .unknown }]
  /-- Sections that are still open, innermost first. -/
  openSections : List OpenSection := []
  rootLoops : List LoopTargets := []
  closedSections : Array ClosedSection := #[]
  strings : Interner String := {}
  names : NameTable := {}
  interface : Array InterfaceVar := #[]
  types : TypeRegistry := {}
  log : ProblemLog := { phase := .emission }
deriving DecidableEq, Inhabited

namespace Assembler

variable (asm : Assembler)

def empty : Assembler := {}

/-! ## Ids -/

/-- The id that the next allocation returns, as one word. -/
def next : ResultId := ⟨asm.ids.size % UInt32.size⟩

def create (opcode : Opcode) : ResultId × Assembler :=
  (⟨asm.ids.size⟩, { asm with ids := asm.ids.push { opcode } })

def isAllocated (id : ResultId) : Bool :=
  !id.isVoid && id.index < asm.ids.size

/-- The opcode that an id was allocated for, `unknown` for void and for ids never allocated. -/
def opcodeOf (id : ResultId) : Opcode :=
  if id.isVoid then .unknown else ((asm.ids[id.index]?).map (·.opcode)).getD .unknown

def definition? (id : ResultId) : Option Nat :=
  (asm.ids[id.index]?).bind (·.definition)

def definingInstruction? (id : ResultId) : Option Instruction :=
  (asm.definition? id).bind fun i => asm.code[i]?

def useCount (id : ResultId) : Nat :=
  ((asm.ids[id.index]?).map (·.uses)).getD 0

def reportAt (e : AssemblyError) (loc : Option Location) : Assembler :=
  { asm with log := asm.log.record e loc }

def report (e : AssemblyError) : Assembler := asm.reportAt e none

/-! ## Pushing instructions -/

def define (inst : Instruction) : Assembler :=
  if inst.id.isVoid then asm
  else match asm.ids[inst.id.index]? with
    | none => asm.reportAt (.unknownId inst.id) inst.location
    | some entry =>
      let asm :=
        if entry.opcode = inst.opcode then asm
        else asm.reportAt (.opcodeMismatch inst.id entry.opcode inst.opcode) inst.location
      match entry.definition with
      | some _ => asm.reportAt (.redefinition inst.id) inst.location
      | none =>
        { asm with
          ids := asm.ids.modify inst.id.index fun e => { e with definition := some asm.code.size } }

def countUse (loc : Option Location) (asm : Assembler) (id : ResultId) : Assembler :=
  if asm.isAllocated id then
    { asm with ids := asm.ids.modify id.index fun e => { e with uses := e.uses + 1 } }
  else asm.reportAt (.unknownId id) loc

/-- Appends an instruction. Problems are recorded, and it is appended all the same. -/
def push (inst : Instruction) : Assembler :=
  let asm := asm.define inst
  let asm := inst.referenced.foldl (countUse inst.location) asm
  { asm with code := asm.code.push inst }

def pushMany (insts : List Instruction) : Assembler := insts.foldl push asm

def pushNew (inst : Instruction) : ResultId × Assembler :=
  let (id, asm) := asm.create inst.opcode
  (id, asm.push { inst with id })

def pushValue (inst : Instruction) (type : ResultId) : TypedValue × Assembler :=
  let (value, asm) := asm.pushNew { inst with resultType := type }
  (⟨type, value⟩, asm)

/-- Puts `new` in every slot that holds `old`, and returns the number of slots. -/
def replace (old new : ResultId) : Nat × Assembler :=
  if old.isVoid then (0, asm.report .replaceVoid)
  else if !asm.isAllocated old then (0, asm.report (.unknownId old))
  else if !new.isVoid && !asm.isAllocated new then (0, asm.report (.unknownId new))
  else if old = new then (0, asm)
  else
    let replaced := asm.code.foldl (fun n inst => n + inst.slots.count old) 0
    let moved := asm.useCount old
    let ids := asm.ids.modify old.index fun e => { e with uses := 0 }
    let ids :=
      if new.isVoid then ids
      else ids.modify new.index fun e => { e with uses := e.uses + moved }
    let code := asm.code.map (·.mapSlots fun id => if id = old then new else id)
    (replaced, { asm with code, ids })

/-! ## Sections -/

def beginSection (header : Instruction) :
    Except AssemblyError (ResultId × Assembler) :=
  match header.opcode.opens? with
  | none => .error (.notASectionMarker header.opcode)
  | some kind =>
    let start := asm.code.size
    let asm := asm.push header
    .ok (header.id,
      { asm with openSections := { kind, header := header.id, start } :: asm.openSections })

def endSection (footer : Instruction) : Except AssemblyError Assembler :=
  match footer.opcode.closes? with
  | none => .error (.notASectionMarker footer.opcode)
  | some found =>
    match asm.openSections with
    | [] => .error (.sectionMismatch none found)
    | innermost :: outer =>
      if innermost.kind = found then
        let last := asm.code.size
        let asm := asm.push footer
        let closed : ClosedSection :=
          { kind := innermost.kind, header := innermost.header,
            span := .inclusive innermost.start last }
        .ok { asm with openSections := outer, closedSections := asm.closedSections.push closed }
      else .error (.sectionMismatch (some innermost.kind) found)

def currentSection? : Option OpenSection := asm.openSections.head?

def sectionBody (s : ClosedSection) : Array Instruction :=
  (Arena.mk asm.code).slice s.span

/-- Reports every section that is still open, innermost first, and forgets them. -/
def finish : Assembler :=
  asm.openSections.foldl (fun asm s => asm.report (.unclosedSection s.kind s.header))
    { asm with openSections := [] }

/-! ## Loops -/

def loops : List LoopTargets :=
  match asm.openSections with
  | s :: _ => s.loops
  | [] => asm.rootLoops

def setLoops (loops : List LoopTargets) : Assembler :=
  match asm.openSections with
  | s :: outer => { asm with openSections := { s with loops } :: outer }
  | [] => { asm with rootLoops := loops }

def pushLoop (targets : LoopTargets) : Assembler :=
  asm.setLoops (targets :: asm.loops)

def currentLoop? : Option LoopTargets := asm.loops.head?

def popLoop : Option LoopTargets × Assembler :=
  (asm.currentLoop?, asm.setLoops asm.loops.tail)

def pushLoopExit (exit : LoopExit) : Except AssemblyError Assembler :=
  match asm.currentLoop? with
  | none => .error (.noEnclosingLoop exit)
  | some targets =>
    let label := match exit with
      | .breakLoop => targets.breakLabel
      | .continueLoop => targets.continueLabel
    .ok (asm.push { opcode := .jump, refs := ⟨label, .void, .void⟩ })

/-! ## Strings, names and the shader interface -/

def addString (s : String) : Nat × Assembler :=
  let (i, strings) := asm.strings.insert s
  (i, { asm with strings })

def string? (i : Nat) : Option String := asm.strings.get? i

def setName (id : ResultId) (name : String) : Assembler :=
  if id.isVoid then asm else { asm with names := asm.names.insert id name }

def name? (id : ResultId) : Option String := asm.names.get? id

def registerInterface (v : InterfaceVar) : Assembler :=
  let asm := asm.setName v.var v.name
  { asm with interface := asm.interface.push v }

/-- Declares, or finds, the interface variable called `name`. -/
def pushInterface (direction : Direction) (name : String) (type : ResultId) :
    Except AssemblyError (ResultId × Assembler) :=
  match asm.interface.find? (·.name == name) with
  | some existing =>
    if existing.direction = direction then .ok (existing.var, asm)
    else .error (.directionMismatch name existing.direction)
  | none =>
    let location := (asm.interface.countP (·.direction = direction)).toUInt32
    let (var, asm) := asm.pushNew
      { opcode := direction.opcode, operands := ⟨location, 0, 0⟩,
        refs := ⟨type, .void, .void⟩ }
    .ok (var, asm.registerInterface { name, direction, var, type, location })

/-- The instructions of opcode `trailer` directly after position `i`, at most `count` of them. -/
def trailersAfter (i : Nat) (trailer : Opcode) (count : Nat) :
    List Instruction :=
  (asm.code.extract (i + 1) (i + 1 + count)).toList.takeWhile (·.opcode = trailer)

end Assembler

end ShaderIR
