import ShaderIR.Spirv.Encoding
import ShaderIR.Table

/-!
A module under construction. Types and constants are declared once.
-/

namespace ShaderIR.Spirv

variable [WordLimit]

/-! ## State -/

inductive Section
  | imports | executionModes | debug | annotations | types | constants | globals | functions
deriving DecidableEq, Inhabited

/-- An entry point; its function is known when its stage is closed, and zero until then. -/
structure EntryPoint where
  model : UInt32
  function : ModuleId := 0
  name : String := "main"
  interface : List ModuleId := []
deriving DecidableEq, Inhabited

def EntryPoint.inst (e : EntryPoint) : Inst :=
  { op := .entryPoint
    operands := [.literal e.model, .id e.function, .text e.name] ++ e.interface.map .id }

structure Oversized where
  op : Op
  operandWords : Nat
deriving DecidableEq, Inhabited

def Oversized.message (o : Oversized) : String :=
  "opcode " ++ toString o.op.code ++ " needs " ++ toString o.operandWords
    ++ " operand words, more than the " ++ toString maxOperandWords ++ " one instruction holds"

def Inst.oversized (inst : Inst) : Oversized := ⟨inst.op, inst.operandWords.length⟩

structure Module where
  nextId : ModuleId := 1
  capabilities : List Capability := [.shader]
  extensions : List Extension := []
  imports : Array Inst := #[]
  entryPoints : Array EntryPoint := #[]
  executionModes : Array Inst := #[]
  debug : Array Inst := #[]
  annotations : Array Inst := #[]
  types : Array Inst := #[]
  constants : Array Inst := #[]
  globals : Array Inst := #[]
  functions : Array Inst := #[]
  typeIds : Table (Op × List Operand) ModuleId := {}
  constantIds : Table (Op × ModuleId × List Operand) ModuleId := {}
  extInsts : Option ModuleId := none
  blocks : List ModuleId := []
  oversized : Array Oversized := #[]
deriving DecidableEq, Inhabited

namespace Module

/-- One past the largest id handed out. -/
def bound (m : Module) : ModuleId := m.nextId

def append (m : Module) (insts : Array Inst) : Section → Module
  | .imports => { m with imports := m.imports ++ insts }
  | .executionModes => { m with executionModes := m.executionModes ++ insts }
  | .debug => { m with debug := m.debug ++ insts }
  | .annotations => { m with annotations := m.annotations ++ insts }
  | .types => { m with types := m.types ++ insts }
  | .constants => { m with constants := m.constants ++ insts }
  | .globals => { m with globals := m.globals ++ insts }
  | .functions => { m with functions := m.functions ++ insts }

def emit (m : Module) (s : Section) (inst : Inst) : Module :=
  if inst.fits then m.append #[inst] s
  else { m with oversized := m.oversized.push inst.oversized }

def isConstant (m : Module) (id : ModuleId) : Bool := m.constantIds.entries.any (·.2 == id)

end Module

/-! ## Building -/

abbrev Build := StateM Module

namespace Build

def fresh : Build ModuleId := modifyGet fun m => (m.nextId, { m with nextId := m.nextId + 1 })

def emit (s : Section) (inst : Inst) : Build Unit := modify (·.emit s inst)

def requireCapability (c : Capability) : Build Unit :=
  modify fun m => { m with capabilities := m.capabilities.insert c }

def requireExtension (e : Extension) : Build Unit :=
  modify fun m => { m with extensions := m.extensions.insert e }

/-! ### Names and annotations -/

def name (id : ModuleId) (s : String) : Build Unit :=
  emit .debug { op := .name, operands := [.id id, .text s] }

def memberName (id : ModuleId) (member : UInt32) (s : String) : Build Unit :=
  emit .debug { op := .memberName, operands := [.id id, .literal member, .text s] }

def decorate (id : ModuleId) (d : Decoration) (literals : List UInt32) : Build Unit :=
  emit .annotations
    { op := .decorate, operands := [.id id, .literal d.code] ++ literals.map .literal }

def memberDecorate (id : ModuleId) (member : UInt32) (d : Decoration) (literals : List UInt32) :
    Build Unit :=
  emit .annotations
    { op := .memberDecorate
      operands := [.id id, .literal member, .literal d.code] ++ literals.map .literal }

def markBlock (id : ModuleId) : Build Unit := do
  unless (← get).blocks.contains id do
    modify fun m => { m with blocks := id :: m.blocks }
    decorate id .block []

/-! ### Types -/

def newType (op : Op) (operands : List Operand) : Build ModuleId := do
  let id ← fresh
  emit .types { op, result := some id, operands }
  return id

/-- The shared type with the given operands, declared on first use. -/
def type (op : Op) (operands : List Operand) : Build ModuleId := do
  match (← get).typeIds.get? (op, operands) with
  | some id => return id
  | none =>
    let id ← newType op operands
    modify fun m => { m with typeIds := m.typeIds.insert (op, operands) id }
    return id

def voidType : Build ModuleId := type .typeVoid []

def boolType : Build ModuleId := type .typeBool []

def intCapability? (width : UInt32) : Option Capability :=
  if width = 8 then some .int8
  else if width = 16 then some .int16
  else if width = 64 then some .int64
  else none

def floatCapability? (width : UInt32) : Option Capability :=
  if width = 16 then some .float16
  else if width = 64 then some .float64
  else none

def intType (width : UInt32) (signed : Bool) : Build ModuleId := do
  (intCapability? width).forM requireCapability
  type .typeInt [.literal width, .literal (if signed then 1 else 0)]

def floatType (width : UInt32) : Build ModuleId := do
  (floatCapability? width).forM requireCapability
  type .typeFloat [.literal width]

def vectorType (component : ModuleId) (lanes : UInt32) : Build ModuleId :=
  type .typeVector [.id component, .literal lanes]

def matrixType (column : ModuleId) (columns : UInt32) : Build ModuleId :=
  type .typeMatrix [.id column, .literal columns]

def pointerType (storage : StorageClass) (pointee : ModuleId) : Build ModuleId :=
  type .typePointer [.literal storage.code, .id pointee]

def functionType (result : ModuleId) (params : List ModuleId) : Build ModuleId :=
  type .typeFunction ((result :: params).map .id)

/-! ### Constants -/

/-- The constant with the given operands, written into section `s` on first use. -/
def constantIn (s : Section) (type : ModuleId) (op : Op) (operands : List Operand) :
    Build ModuleId := do
  match (← get).constantIds.get? (op, type, operands) with
  | some id => return id
  | none =>
    let id ← fresh
    emit s { op, resultType := some type, result := some id, operands }
    modify fun m => { m with constantIds := m.constantIds.insert (op, type, operands) id }
    return id

def constant (type : ModuleId) (op : Op) (operands : List Operand) : Build ModuleId :=
  constantIn .constants type op operands

def number (type : ModuleId) (words : List UInt32) : Build ModuleId :=
  constant type .constant (words.map .literal)

def word (signed : Bool) (w : UInt32) : Build ModuleId := do
  number (← intType 32 signed) [w]

def null (type : ModuleId) : Build ModuleId := constant type .constantNull []

/-- An array type. Its length is a constant among the types, so that it stands before the array. -/
def arrayType (element : ModuleId) (length : UInt32) : Build ModuleId := do
  let count ← constantIn .types (← intType 32 false) .constant [.literal length]
  type .typeArray [.id element, .id count]

/-! ### Imports and entry points -/

def extInstSet : Build ModuleId := do
  match (← get).extInsts with
  | some id => return id
  | none =>
    let id ← fresh
    emit .imports { op := .extInstImport, result := some id, operands := [.text Spirv.extInstSet] }
    modify fun m => { m with extInsts := some id }
    return id

def addEntryPoint (e : EntryPoint) : Build Nat :=
  modifyGet fun m => (m.entryPoints.size, { m with entryPoints := m.entryPoints.push e })

def modifyEntryPoint (i : Nat) (f : EntryPoint → EntryPoint) : Build Unit :=
  modify fun m => { m with entryPoints := m.entryPoints.modify i f }

def executionMode (function : ModuleId) (mode : ExecutionMode) (literals : List UInt32) :
    Build Unit :=
  emit .executionModes
    { op := .executionMode
      operands := [.id function, .literal mode.code] ++ literals.map .literal }

end Build

/-! ## The finished module -/

def Capability.inst (c : Capability) : Inst := { op := .capability, operands := [.literal c.code] }

def Extension.inst (e : Extension) : Inst := { op := .extension, operands := [.text e.name] }

def memoryModel : Inst :=
  { op := .memoryModel, operands := [.literal addressingLogical, .literal memoryModelGlsl] }

namespace Module

def oversizedEntryPoints (m : Module) : List Oversized :=
  (m.entryPoints.toList.map (·.inst)).filterMap fun inst =>
    if inst.fits then none else some inst.oversized

/-- What stands in front of the types. -/
def preamble (m : Module) : List Inst :=
  (Capability.all.filter (m.capabilities.contains ·)).map (·.inst)
    ++ (Extension.all.filter (m.extensions.contains ·)).map (·.inst)
    ++ m.imports.toList
    ++ [memoryModel]
    ++ (m.entryPoints.toList.map (·.inst)).filter (·.fits)
    ++ m.executionModes.toList
    ++ m.debug.toList
    ++ m.annotations.toList

def instructions (m : Module) : List Inst :=
  m.preamble ++ m.types.toList ++ m.constants.toList ++ m.globals.toList ++ m.functions.toList

def header (m : Module) (version : UInt32) : List UInt32 :=
  [magic, version, generator, m.bound.toUInt32, 0]

def words (m : Module) (version : UInt32) : List UInt32 :=
  m.header version ++ m.instructions.flatMap Inst.words

end Module

end ShaderIR.Spirv
