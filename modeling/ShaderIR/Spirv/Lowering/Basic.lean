import ShaderIR.Assembler.Basic
import ShaderIR.Spirv.BuiltIns
import ShaderIR.Spirv.Module

/-!
The state kept while a stream is lowered to a module, and the steps shared by all lowerings.
-/

namespace ShaderIR.Spirv

variable [WordLimit]
variable (source : Instruction) (asm : Assembler)

/-! ## State -/

/-- A pointer that a value was read through, kept so that it can be written to. -/
structure Place where
  pointer : ModuleId
  storage : StorageClass
  pointee : ModuleId
deriving DecidableEq, Inhabited

structure OpenFunction where
  source : ResultId
  returnsVoid : Bool
  header : Array Inst
  /-- Variables of the function, which belong to the top of its first block. -/
  locals : Array Inst := #[]
  body : Array Inst := #[]
  labelled : Bool := false
  terminated : Bool := false
deriving DecidableEq, Inhabited

/-- Every instruction of a finished function: variables follow the first label. -/
def OpenFunction.insts (f : OpenFunction) : Array Inst :=
  f.header ++ f.body.take 1 ++ f.locals ++ f.body.drop 1 ++ #[{ op := .functionEnd }]

structure OpenStage where
  stage : ShaderStage
  entry : Nat
deriving DecidableEq, Inhabited

structure Lowering where
  module : Module := {}
  ids : Table ResultId ModuleId := {}
  typeIds : Table ResultId ModuleId := {}
  places : Table ResultId Place := {}
  /-- Parameters of functions: values, although they are declared like variables. -/
  params : List ResultId := []
  builtIns : Table (ShaderStage × BuiltIn) ModuleId := {}
  stage : Option OpenStage := none
  function : Option OpenFunction := none
  perVertex : Option ModuleId := none
  fragColor : Option ModuleId := none
  problems : Array Problem := #[]
  /-- Whether the byte offset of a member could not be stated in one word. -/
  offsetOverflow : Bool := false
deriving DecidableEq, Inhabited

abbrev Lower := StateM Lowering

/-- Steps of lowering that may give up on the instruction at hand. What was done until then is
kept. -/
abbrev Attempt := OptionT Lower

def Lower.ofBuild {α : Type} (b : Build α) : Lower α :=
  modifyGet fun s =>
    let (a, m) := b.run s.module
    (a, { s with module := m })

/-- Runs a step on the module, as part of a lowering that may or may not give up. -/
def onModule {m : Type → Type} [MonadLiftT Lower m] {α : Type} (b : Build α) : m α :=
  monadLift (Lower.ofBuild b)

def orGiveUp {α : Type} (a : Option α) : Attempt α := .mk (pure a)

def report (p : Problem) : Lower Unit := modify fun s => { s with problems := s.problems.push p }

def problem (inst : Instruction) (message : String) : Lower Unit :=
  report
    { phase := .output, message := inst.id.text ++ " " ++ inst.opcode.name ++ ": " ++ message,
      location := inst.location }

def giveUp {α : Type} (inst : Instruction) (message : String) : Attempt α := do
  problem inst message
  failure

/-! ## Ids -/

/-- The id of the module that stands for `id`, new on first use. -/
def idFor (id : ResultId) : Lower ModuleId := do
  match (← get).ids.get? id with
  | some n => return n
  | none =>
    let n ← onModule .fresh
    modify fun s => { s with ids := s.ids.insert id n }
    return n

def bindId (id : ResultId) (n : ModuleId) : Lower Unit :=
  modify fun s => { s with ids := s.ids.insert id n }

def isParam (id : ResultId) : Lower Bool := return (← get).params.contains id

def setPlace (id : ResultId) (p : Place) : Lower Unit :=
  modify fun s => { s with places := s.places.insert id p }

def placeOf? (id : ResultId) : Lower (Option Place) := do
  if ← isParam id then return none
  return (← get).places.get? id

/-! ## Types -/

/-- The id of the module for the type `id`; `pending` are the types under way. -/
def lowerTypeAt (asm : Assembler) : Nat → List ResultId → ResultId → Attempt ModuleId
  | 0, _, _ => failure
  | fuel + 1, pending, id => do
    if let some n := (← get).typeIds.get? id then return n
    let desc ← orGiveUp (asm.types.ofId? id)
    guard !pending.contains id
    let lowerId := lowerTypeAt asm fuel (id :: pending)
    let lowerHandle (h : TypeHandle) : Attempt ModuleId := do lowerId (← orGiveUp (asm.types.idOf? h))
    let n ← match desc with
      | .void => onModule .voidType
      | .bool => onModule .boolType
      | .float w => onModule (.floatType w)
      | .sint w => onModule (.intType w true)
      | .uint w => onModule (.intType w false)
      | .vector inner lanes => do
        let component ← lowerHandle inner
        onModule (.vectorType component lanes)
      | .matrix inner columns rows => do
        let component ← lowerHandle inner
        let column ← onModule (.vectorType component rows)
        onModule (.matrixType column columns)
      | .array inner length => do
        let element ← lowerHandle inner
        onModule (.arrayType element length)
      | .pointer inner => do
        let pointee ← lowerHandle inner
        onModule (.pointerType .function pointee)
      | .tuple a b => do
        let a ← lowerHandle a
        let b ← lowerHandle b
        onModule (.type .typeStruct [.id a, .id b])
      | .record _ => do
        let layout ← orGiveUp (asm.types.layoutOf? id)
        let members ← layout.members.mapM fun m => lowerId m.2
        let n ← onModule (.newType .typeStruct (members.map .id))
        onModule (.name n layout.name)
        layout.members.zipIdx.forM fun (m, i) => onModule (.memberName n i.toUInt32 m.1)
        pure n
    modify fun s => { s with typeIds := s.typeIds.insert id n }
    return n

/-- The id of the module for the type `id`. The types under way differ, so fuel does not run out. -/
def lowerType (id : ResultId) : Attempt ModuleId :=
  lowerTypeAt asm (asm.types.size + 1) [] id

def requireType (inst : Instruction) (id : ResultId) : Attempt ModuleId :=
  lowerType asm id <|> giveUp inst (id.text ++ " is not a type with a SPIR-V form")

inductive Scalar
  | float (width : UInt32)
  | sint (width : UInt32)
  | uint (width : UInt32)
  | bool
deriving DecidableEq, Inhabited

def Scalar.ofDesc? : TypeDesc → Option Scalar
  | .float w => some (.float w)
  | .sint w => some (.sint w)
  | .uint w => some (.uint w)
  | .bool => some .bool
  | _ => none

/-- The scalar that the type `id` is made of: its own, or that of its lanes. -/
def scalarOf? (id : ResultId) : Option Scalar :=
  match asm.types.ofId? id with
  | some (.vector inner _) => (asm.types.desc? inner).bind Scalar.ofDesc?
  | some d => Scalar.ofDesc? d
  | none => none

def typeOf (id : ResultId) : ResultId :=
  match asm.definingInstruction? id with
  | some inst => if inst.opcode.isVar then inst.refs.fst else inst.resultType
  | none => .void

/-! ## Function bodies -/

def modifyFunction (f : OpenFunction → OpenFunction) : Lower Unit :=
  modify fun s => { s with function := s.function.map f }

def openBlock (f : OpenFunction) : Lower Unit := do
  if !f.labelled || f.terminated then
    let label ← onModule .fresh
    modifyFunction fun f =>
      { f with
        body := f.body.push { op := .label, result := some label }
        labelled := true
        terminated := false }

/-- Writes an instruction into the open function, and says whether that was possible. -/
def emit (inst : Inst) : Lower Bool := do
  match (← get).function with
  | none =>
    problem source "has no meaning outside of a function"
    return false
  | some f =>
    openBlock f
    if inst.fits then
      modifyFunction fun f => { f with body := f.body.push inst }
      return true
    else
      problem source inst.oversized.message
      return false

def emitAnd (inst : Inst) : Lower Unit := do
  let _ ← emit source inst

def terminate (inst : Inst) : Lower Unit := do
  if ← emit source inst then modifyFunction fun f => { f with terminated := true }

/-- Starts the block with the given label. A block that is still open falls through to it. -/
def beginBlock (label : ModuleId) : Lower Unit := do
  match (← get).function with
  | none => problem source "has no meaning outside of a function"
  | some f =>
    if f.labelled && !f.terminated then
      modifyFunction fun f =>
        { f with body := f.body.push { op := .branch, operands := [.id label] } }
    modifyFunction fun f =>
      { f with
        body := f.body.push { op := .label, result := some label }
        labelled := true
        terminated := false }

/-- Writes out a function. A block that is still open returns, or cannot be left. -/
def closeFunction (f : OpenFunction) : Lower Unit := do
  let mut f := f
  if !f.labelled then
    let label ← onModule .fresh
    f := { f with body := f.body.push { op := .label, result := some label } }
  if !f.labelled || !f.terminated then
    f := { f with body := f.body.push { op := if f.returnsVoid then .ret else .unreachable } }
  let insts := f.insts
  onModule (modify (·.append insts .functions))

def takeFunction : Lower (Option OpenFunction) :=
  modifyGet fun s => (s.function, { s with function := none })

def load (place : Place) (result : ModuleId) : Lower Bool :=
  emit source
    { op := .load, resultType := some place.pointee, result := some result,
      operands := [.id place.pointer] }

def store (pointer value : ModuleId) : Lower Unit :=
  emitAnd source { op := .store, operands := [.id pointer, .id value] }

def value (source : Instruction) (id : ResultId) : Lower ModuleId := do
  if (asm.opcodeOf id).isVar then
    if let some place ← placeOf? id then
      let loaded ← onModule .fresh
      if ← load source place loaded then return loaded
  idFor id

/-- Declares a variable: one of the function at its top, any other in the module. -/
def declareVariable (id : ModuleId) (storage : StorageClass)
    (pointee : ModuleId) (init : Option ModuleId) : Attempt Place := do
  let pointer ← onModule (.pointerType storage pointee)
  let inst : Inst :=
    { op := .variable, resultType := some pointer, result := some id,
      operands := .literal storage.code :: init.toList.map .id }
  if storage = .function then
    if (← get).function.isNone then giveUp source "function variable outside of a function"
    modifyFunction fun f => { f with locals := f.locals.push inst }
  else onModule (.emit .globals inst)
  return { pointer := id, storage, pointee }

def addInterface (var : ModuleId) : Lower Unit := do
  if let some stage := (← get).stage then
    onModule <| .modifyEntryPoint stage.entry fun e =>
      if e.interface.contains var then e else { e with interface := e.interface ++ [var] }

/-! ## Built-ins -/

def builtInScalarType : BuiltInScalar → Build ModuleId
  | .bool => .boolType
  | .int => .intType 32 true
  | .uint => .intType 32 false
  | .float => .floatType 32

def builtInType (shape : BuiltInShape) : Build ModuleId := do
  let scalar ← builtInScalarType shape.scalar
  if shape.lanes = 1 then return scalar
  .vectorType scalar shape.lanes

def builtInPlace (stage : ShaderStage) (b : BuiltIn) : Lower Place := do
  let info := b.info
  let pointee ← onModule (builtInType info.shape)
  match (← get).builtIns.get? (stage, b) with
  | some var => return { pointer := var, storage := info.storage, pointee }
  | none =>
    info.capability.forM fun c => onModule (.requireCapability c)
    let var ← onModule .fresh
    let pointer ← onModule (.pointerType info.storage pointee)
    onModule <| .emit .globals
      { op := .variable, resultType := some pointer, result := some var,
        operands := [.literal info.storage.code] }
    onModule (.decorate var .builtIn [info.code])
    onModule (.name var ("gl_" ++ b.name))
    modify fun s => { s with builtIns := s.builtIns.insert (stage, b) var }
    addInterface var
    return { pointer := var, storage := info.storage, pointee }

def perVertexBlock : Lower ModuleId := do
  match (← get).perVertex with
  | some var =>
    addInterface var
    return var
  | none =>
    let float ← onModule (.floatType 32)
    let position ← onModule (.vectorType float 4)
    let distances ← onModule (.arrayType float 1)
    let block ← onModule
      (.newType .typeStruct [.id position, .id float, .id distances, .id distances])
    onModule (.decorate block .block [])
    onModule (.name block "gl_PerVertex")
    perVertexMembers.zipIdx.forM fun ((name, code), i) => do
      onModule (.memberDecorate block i.toUInt32 .builtIn [code])
      onModule (.memberName block i.toUInt32 name)
    let pointer ← onModule (.pointerType .output block)
    let var ← onModule .fresh
    onModule <| .emit .globals
      { op := .variable, resultType := some pointer, result := some var,
        operands := [.literal StorageClass.output.code] }
    modify fun s => { s with perVertex := some var }
    addInterface var
    return var

def fragColorOutput (type : ModuleId) : Lower ModuleId := do
  match (← get).fragColor with
  | some var =>
    addInterface var
    return var
  | none =>
    let pointer ← onModule (.pointerType .output type)
    let var ← onModule .fresh
    onModule <| .emit .globals
      { op := .variable, resultType := some pointer, result := some var,
        operands := [.literal StorageClass.output.code] }
    onModule (.decorate var .location [0])
    onModule (.name var "out_color")
    modify fun s => { s with fragColor := some var }
    addInterface var
    return var

end ShaderIR.Spirv
