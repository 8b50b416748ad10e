import ShaderIR.Assembler.Basic

/-!
Declaring types. Asking twice for a type that is not a struct gives the same id.
-/

namespace ShaderIR

/-! ## Limits -/

def minIntBits : UInt32 := 8
def maxIntBits : UInt32 := 64
def minFloatBits : UInt32 := 16
def maxFloatBits : UInt32 := 64
def minLanes : UInt32 := 2
def maxLanes : UInt32 := 4

def isPowerOfTwo (w : UInt32) : Bool := w != 0 && w &&& (w - 1) == 0

def isWidth (min max w : UInt32) : Bool := isPowerOfTwo w && min ≤ w && w ≤ max

def isLaneCount (n : UInt32) : Bool := minLanes ≤ n && n ≤ maxLanes

namespace Assembler

variable (asm : Assembler)

/-! ## Descriptors of declarations -/

def innerHandle (id : ResultId) : Except AssemblyError TypeHandle :=
  match asm.types.handle? id with
  | some h => .ok h
  | none => .error (.notAType id)

def checkWidth (kind : NumericKind) (min max w : UInt32) : Except AssemblyError Unit :=
  if isWidth min max w then .ok () else .error (.invalidWidth kind w)

/-- The descriptor that a declaration stands for. Structs have none until their members are
known. -/
def describe (inst : Instruction) : Except AssemblyError TypeDesc :=
  let n := inst.operands.fst
  match inst.opcode with
  | .voidType => .ok .void
  | .boolType => .ok .bool
  | .floatType => do
    checkWidth .float minFloatBits maxFloatBits n
    return .float n
  | .sintType => do
    checkWidth .int minIntBits maxIntBits n
    return .sint n
  | .uintType => do
    checkWidth .int minIntBits maxIntBits n
    return .uint n
  | .arrayType => do
    if n = 0 then throw (.invalidLength .array n)
    return .array (← asm.innerHandle inst.refs.fst) n
  | .vectorType => do
    if !isLaneCount n then throw (.invalidLength .vector n)
    return .vector (← asm.innerHandle inst.refs.fst) n
  | .matrixType => do
    let rows := inst.operands.snd
    if !isLaneCount n then throw (.invalidLength .matrix n)
    if !isLaneCount rows then throw (.invalidLength .matrix rows)
    return .matrix (← asm.innerHandle inst.refs.fst) n rows
  | .pointerType => do return .pointer (← asm.innerHandle inst.refs.fst)
  | .tupleType => do
    let fst ← asm.innerHandle inst.refs.fst
    let snd ← asm.innerHandle inst.refs.snd
    return .tuple fst snd
  | opcode => .error (.notATypeOpcode opcode)

/-! ## Pushing types -/

/-- Pushes a type declaration, or finds the id of an equal one. -/
def pushType (inst : Instruction) :
    Except AssemblyError (ResultId × Assembler) := do
  let desc ← asm.describe inst
  let known := (asm.types.descriptors.find? desc).bind fun i => asm.types.idOf? ⟨i⟩
  match known with
  | some id => return (id, asm)
  | none =>
    let (id, asm) := if inst.id.isVoid then asm.create inst.opcode else (inst.id, asm)
    let asm := asm.push { inst with id }
    return (id, { asm with types := asm.types.declare id desc })

/-- Pushes a type declaration as it stands, even if an equal one exists. -/
def pushTypeAsIs (inst : Instruction) : Except AssemblyError Assembler := do
  let desc ← asm.describe inst
  let asm := asm.push inst
  return { asm with types := asm.types.declareAlso inst.id desc }

def pushVoid : Except AssemblyError (ResultId × Assembler) :=
  asm.pushType { opcode := .voidType }

def pushBool : Except AssemblyError (ResultId × Assembler) :=
  asm.pushType { opcode := .boolType }

def pushFloat (width : UInt32) : Except AssemblyError (ResultId × Assembler) :=
  asm.pushType { opcode := .floatType, operands := ⟨width, 0, 0⟩ }

def pushInt (signed : Bool) (width : UInt32) :
    Except AssemblyError (ResultId × Assembler) :=
  asm.pushType
    { opcode := if signed then .sintType else .uintType, operands := ⟨width, 0, 0⟩ }

def pushArray (inner : ResultId) (length : UInt32) :
    Except AssemblyError (ResultId × Assembler) :=
  asm.pushType
    { opcode := .arrayType, operands := ⟨length, 0, 0⟩, refs := ⟨inner, .void, .void⟩ }

def pushVector (inner : ResultId) (lanes : UInt32) :
    Except AssemblyError (ResultId × Assembler) :=
  asm.pushType
    { opcode := .vectorType, operands := ⟨lanes, 0, 0⟩, refs := ⟨inner, .void, .void⟩ }

def pushMatrix (inner : ResultId) (columns rows : UInt32) :
    Except AssemblyError (ResultId × Assembler) :=
  asm.pushType
    { opcode := .matrixType, operands := ⟨columns, rows, 0⟩, refs := ⟨inner, .void, .void⟩ }

def pushPointer (inner : ResultId) : Except AssemblyError (ResultId × Assembler) :=
  asm.pushType { opcode := .pointerType, refs := ⟨inner, .void, .void⟩ }

def pushTuple (fst snd : ResultId) :
    Except AssemblyError (ResultId × Assembler) :=
  asm.pushType { opcode := .tupleType, refs := ⟨fst, snd, .void⟩ }

/-! ## Structs -/

/-- The layout of the members that can be declared; the others are reported. -/
def layoutMembers (structName : String) :
    List (String × ResultId) → Assembler × StructLayout → Assembler × StructLayout
  | [], result => result
  | (member, type) :: rest, (asm, layout) =>
    if asm.types.handles.contains type then
      match layout.addMember? member type with
      | some layout => layoutMembers structName rest (asm, layout)
      | none =>
        layoutMembers structName rest (asm.report (.duplicateMember structName member), layout)
    else layoutMembers structName rest (asm.report (.notAType type), layout)

def pushMembers : Nat → List (String × ResultId) → Assembler → Assembler
  | _, [], asm => asm
  | i, (member, type) :: rest, asm =>
    let (name, asm) := asm.addString member
    pushMembers (i + 1) rest (asm.push
      { opcode := .structMember, operands := ⟨i.toUInt32, name.toUInt32, 0⟩,
        refs := ⟨type, .void, .void⟩ })

def pushStruct (name : String) (members : List (String × ResultId)) :
    ResultId × Assembler :=
  let (asm, layout) := layoutMembers name members (asm, { name })
  let (nameIndex, asm) := asm.addString name
  let (id, asm) := asm.create .structType
  let start := asm.code.size
  let asm := asm.push
    { opcode := .structType, id,
      operands := ⟨layout.members.length.toUInt32, nameIndex.toUInt32, 0⟩ }
  let asm := pushMembers 0 layout.members asm
  let last := asm.code.size
  let asm := asm.push { opcode := .structEnd, refs := ⟨id, .void, .void⟩ }
  let closed : ClosedSection := { kind := .record, header := id, span := .inclusive start last }
  let asm :=
    { asm with
      closedSections := asm.closedSections.push closed
      types := asm.types.declareStruct id layout }
  (id, asm.setName id name)

def modifyLayout (asm : Assembler) (id : ResultId) (f : StructLayout → StructLayout) :
    Except AssemblyError Assembler :=
  match asm.types.layoutHandle? id with
  | none => .error (.notAStruct id)
  | some l =>
    match asm.types.layout? l with
    | none => .error (.notAStruct id)
    | some layout => .ok { asm with types := asm.types.setLayout l (f layout) }

end Assembler

end ShaderIR
