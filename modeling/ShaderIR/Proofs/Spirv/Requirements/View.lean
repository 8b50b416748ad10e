import Mathlib.Data.Option.Basic
import ShaderIR.Proofs.Spirv.Requirements.Sharing
import ShaderIR.Spirv.Emission

/-!
# What lowering an instruction asks for

Whether an instruction can be lowered depends on little of what was lowered before: the stage and
the function that are open, which ids have a place, and which stand for a constant.
`Check.instruction` says for every opcode **what it asks for and what it leaves behind**; it has no
outcome where the lowering meets a problem.  All types of the stream are taken to have a form in the
module.
-/

namespace ShaderIR.Spirv

/-! ## Views -/

/-- What later instructions depend on. -/
structure View where
  stage : Option ShaderStage := none
  function : Option (ResultId × Bool) := none
  params : List ResultId := []
  places : ResultId → Bool := fun _ => false
  known : ResultId → Option Bool := fun _ => none

namespace View

def isPlaced (v : View) (id : ResultId) : Bool := !v.params.contains id && v.places id

def setKnown (v : View) (id : ResultId) (constant : Bool) : View :=
  { v with known := fun j => if j = id then some constant else v.known j }

def setPlace (v : View) (id : ResultId) : View :=
  { v with places := fun j => decide (j = id) || v.places j }

def begin (v : View) : View := { v with function := v.function.map fun f => (f.1, true) }

end View

/-- What a state lets later instructions depend on. -/
def Lowering.view (s : Lowering) : View where
  stage := s.stage.map (·.stage)
  function := s.function.map fun f => (f.source, !f.body.isEmpty)
  params := s.params
  places id := (s.places.get? id).isSome
  known id := (s.ids.get? id).map s.module.isConstant

/-! ## Checks -/

/-- Steps over a view that may find that something is missing. -/
abbrev Check := StateT View Option

namespace Check

def meet (id : ResultId) : Check Bool :=
  modifyGet fun v => ((v.known id).getD false, v.setKnown id ((v.known id).getD false))

def bindId (id : ResultId) (constant : Bool) : Check Unit := modify (·.setKnown id constant)

def setPlace (id : ResultId) : Check Unit := modify (·.setPlace id)

def isPlaced (id : ResultId) : Check Bool := return (← get).isPlaced id

def write : Check Unit := do
  guard (← get).function.isSome
  modify (·.begin)

def writeIf (needed : Bool) : Check Unit := if needed then write else pure ()

def found {α : Type} (a : Option α) : Check α := StateT.lift a

def define (id : ResultId) : Check Unit := do
  let _ ← meet id
  write

section

variable (asm : Assembler) (i : Nat) (inst : Instruction)

def typed (id : ResultId) : Check Unit := guard (asm.types.ofId? id).isSome

def value (id : ResultId) : Check Bool := do
  if (asm.opcodeOf id).isVar && (← get).isPlaced id then
    write
    return false
  else meet id

def optionalValue (id : ResultId) : Check (Option Bool) :=
  if id.isVoid then pure none else some <$> value asm id

def values (args : List Instruction) : Check (List Bool) :=
  args.mapM fun arg => value asm arg.refs.fst

def fits (count : Nat) : Check Unit := guard (count ≤ maxOperandWords)

/-! ### Arithmetic -/

def comparison (op : Operator) (operandType : ResultId) : Check Unit := do
  guard ((scalarOf? asm operandType).bind (comparisonOp? op)).isSome
  let _ ← value asm inst.refs.fst
  let _ ← value asm inst.refs.snd
  define inst.id

def operator : Check Operator := found (Operator.ofCode? inst.operands.fst.toNat)

def compare : Check Unit := do comparison asm inst (← operator inst) inst.resultType

def isInt : Option Scalar → Bool
  | some (.sint _) | some (.uint _) => true
  | _ => false

def isFloat : Option Scalar → Bool
  | some (.float _) => true
  | _ => false

def hasBinary (op : Operator) (scalar : Option Scalar) : Bool :=
  if op = .pow then isFloat scalar else (scalar.bind (binaryOp? op)).isSome

def binary : Check Unit := do
  let op ← operator inst
  if op.isComparison then comparison asm inst op (typeOf asm inst.refs.fst)
  else
    typed asm inst.resultType
    let _ ← value asm inst.refs.fst
    let _ ← value asm inst.refs.snd
    let _ ← meet inst.id
    guard (hasBinary op (scalarOf? asm inst.resultType))
    write

def unary : Check Unit := do
  let op ← operator inst
  typed asm inst.resultType
  let scalar := scalarOf? asm inst.resultType
  let _ ← value asm inst.refs.fst
  let _ ← meet inst.id
  guard ((scalar.bind (unaryExtOp? op)).isSome || (scalar.bind (unaryOp? op)).isSome)
  write

def convert (choose : Scalar → Option Op) : Check Unit := do
  typed asm inst.resultType
  guard ((scalarOf? asm (typeOf asm inst.refs.fst)).bind choose).isSome
  let _ ← value asm inst.refs.fst
  define inst.id

def changeSign : Check Unit := do
  guard (sameIntWidth (scalarOf? asm (typeOf asm inst.refs.fst)) (scalarOf? asm inst.resultType))
  convert asm inst fun _ => some .bitcast

/-! ### Literals and composites -/

/-- A literal that `ok` says its type admits. -/
def literal (ok : Option Scalar → Bool) : Check Unit := do
  typed asm inst.resultType
  guard (ok (scalarOf? asm inst.resultType))
  bindId inst.id true

def cast : Check Unit := do
  if scalarOf? asm (typeOf asm inst.refs.fst) = some .bool then
    typed asm inst.resultType
    guard ((scalarOf? asm inst.resultType).bind oneAndZero?).isSome
    let _ ← value asm inst.refs.fst
    define inst.id
  else convert asm inst fun _ => some .bitcast

/-- The trailers of `inst`, if there are as many as it says. -/
def trailers (opcode : Opcode) : Check (List Instruction) := do
  let args := asm.trailersAfter i opcode inst.operands.fst.toNat
  guard (args.length = inst.operands.fst.toNat)
  return args

def construct : Check Unit := do
  let args ← trailers asm i inst .constructArg
  typed asm inst.resultType
  let _ ← meet inst.id
  let _ ← values asm args
  fits (2 + args.length)
  write

def arrayLiteral : Check Unit := do
  typed asm inst.resultType
  match asm.types.ofId? inst.resultType with
  | some (.array _ length) =>
    guard (length.toNat ≤ maxCompositeLength)
    let constants ← values asm (asm.trailersAfter i .arrayElem inst.operands.fst.toNat)
    guard (constants.length ≤ length.toNat)
    if constants.all id then bindId inst.id true else define inst.id
  | _ => failure

def swizzle : Check Unit := do
  typed asm inst.resultType
  guard (1 ≤ inst.operands.fst.toNat ∧ inst.operands.fst.toNat ≤ 4)
  let _ ← value asm inst.refs.fst
  define inst.id

/-! ### Memory -/

def assign : Check Unit := do
  guard (← isPlaced inst.refs.fst)
  let _ ← value asm inst.refs.snd
  write

def load : Check Unit := do
  write
  setPlace inst.id

def readVariable : Check Unit := do
  if (← get).params.contains inst.refs.fst then bindId inst.id (← meet inst.refs.fst)
  else
    guard (← isPlaced inst.refs.fst)
    let _ ← meet inst.id
    load inst

def readThrough : Check Unit := do
  write
  load inst

def member : Check Unit := do
  typed asm inst.resultType
  let _ ← meet inst.id
  if ← isPlaced inst.refs.fst then readThrough inst
  else
    let _ ← value asm inst.refs.fst
    write

def element : Check Unit := do
  typed asm inst.resultType
  let _ ← value asm inst.refs.snd
  let _ ← optionalValue asm inst.refs.thd
  let _ ← meet inst.id
  if ← isPlaced inst.refs.fst then readThrough inst
  else
    guard (isVector asm (typeOf asm inst.refs.fst) && inst.refs.thd.isVoid)
    let _ ← value asm inst.refs.fst
    write

/-! ### Built-ins -/

def scalarOfDesc? : TypeDesc → Option BuiltInScalar
  | .bool => some .bool
  | .float w => if w = 32 then some .float else none
  | .sint w => if w = 32 then some .int else none
  | .uint w => if w = 32 then some .uint else none
  | _ => none

def shapeOfDesc? (types : TypeRegistry) : TypeDesc → Option BuiltInShape
  | .vector inner lanes =>
    if lanes = 1 then none else ((types.desc? inner).bind scalarOfDesc?).map (⟨·, lanes⟩)
  | d => (scalarOfDesc? d).map (⟨·, 1⟩)

def shapeOf? (types : TypeRegistry) (id : ResultId) : Option BuiltInShape :=
  (types.ofId? id).bind (shapeOfDesc? types)

def readBuiltIn (b : BuiltIn) : Check Unit := do
  typed asm inst.resultType
  let _ ← meet inst.id
  if shapeOf? asm.types inst.resultType = some b.info.shape then load inst
  else
    guard (canReinterpret asm b.info.shape inst.resultType)
    write

/-- Outside of a stage emission stops before a built-in is lowered. -/
def builtInIn (b : BuiltIn) : Option ShaderStage → Check Unit
  | none => pure ()
  | some stage => do
    writeIf (perVertexMember? (some stage) b).isSome
    readBuiltIn asm inst b

def builtIn : Check Unit := do
  builtInIn asm inst (← found (BuiltIn.ofCode? inst.operands.fst.toNat)) (← get).stage

def invocationLaneIn : Option ShaderStage → Check Unit
  | none => pure ()
  | some _ => do
    guard (inst.operands.fst ≤ 2)
    typed asm inst.resultType
    define inst.id

def invocationLane : Check Unit := do invocationLaneIn asm inst (← get).stage

/-! ### Functions and variables -/

def takeFunction : Check (Option ResultId) :=
  modifyGet fun v => (v.function.map (·.1), { v with function := none })

def openFunction : Check Unit := do
  typed asm inst.refs.fst
  let args ← trailers asm i inst .functionArg
  args.forM fun arg => typed asm arg.refs.fst
  fits (2 + args.length)
  let _ ← meet inst.id
  modify fun v => { v with function := some (inst.id, false) }

def beginFunction : Check Unit := do
  guard (← takeFunction).isNone
  openFunction asm i inst

def addParameter : Check Unit := do
  let _ ← meet inst.id
  modify fun v => { v with params := v.params.insert inst.id }
  let v ← get
  guard (v.function.any fun f => !f.2)

def parameter : Check Unit :=
  if (asm.types.ofId? inst.refs.fst).isSome then addParameter inst else pure ()

def endFunction : Check Unit := do
  guard ((← takeFunction) = some inst.refs.fst)

def call : Check Unit := do
  let args ← trailers asm i inst .callArg
  typed asm inst.resultType
  let _ ← meet inst.refs.fst
  let _ ← meet inst.id
  let _ ← values asm args
  fits (3 + args.length)
  write

def declare (storage : StorageClass) : Check Unit := do
  let v ← get
  guard (storage ≠ .function ∨ v.function.isSome)

def localVariable : Check Unit := do
  typed asm inst.refs.fst
  let shared := (Modifiers.ofBits inst.operands.fst).contains .isShared
  let init ← optionalValue asm inst.refs.snd
  let _ ← meet inst.id
  declare (if shared then .workgroup else .function)
  setPlace inst.id
  -- A constant is part of the declaration; everything else is stored.
  writeIf (init.any fun constant => shared || !constant)

def globalVariable : Check Unit := do
  typed asm inst.refs.fst
  guard ((← optionalValue asm inst.refs.snd).all id)
  let _ ← meet inst.id
  setPlace inst.id

def interfaceVariable : Check Unit := do
  typed asm inst.refs.fst
  let _ ← meet inst.id
  setPlace inst.id

def descriptor : Check Unit := do
  typed asm inst.refs.fst
  let layout ← found (asm.types.layoutOf? inst.refs.fst)
  guard (memberOffsets? (layout.members.map fun m => memberExtent asm.types m.2) 0).isSome
  let _ ← meet inst.id
  setPlace inst.id

/-! ### Control flow and stages -/

def branch : Check Unit := do
  let _ ← value asm inst.refs.fst
  let _ ← meet inst.refs.snd
  let _ ← meet inst.refs.thd
  write

def loopMerge : Check Unit := do
  let _ ← meet inst.refs.fst
  let _ ← meet inst.refs.snd
  write

def returnValue : Check Unit := do
  let _ ← value asm inst.refs.fst
  write

def openStage (stage : ShaderStage) : Check Unit := do
  guard ((stageInterface asm i).length = inst.operands.snd.toNat)
  let _ ← (stageInterface asm i).mapM meet
  modify fun v => { v with stage := some stage }

def beginStage : Check Unit := do
  let stage ← found (ShaderStage.ofCode? inst.operands.fst.toNat)
  guard (← get).stage.isNone
  openStage asm i inst stage

def entryResult : ResultId := ((asm.definingInstruction? inst.refs.fst).map (·.refs.fst)).getD .void

def takesResult (stage : ShaderStage) : Bool :=
  !returnsSomething asm (entryResult asm inst)
    || isVec4 asm (entryResult asm inst) && (stage == .vertex || stage == .fragment)

def closeStage (stage : ShaderStage) : Check Unit := do
  let _ ← meet inst.refs.fst
  guard (!stage.wrapsEntry || takesResult asm inst stage)
  modify fun v => { v with stage := none }

def endStage : Check Unit := do closeStage asm inst (← found (← get).stage)

/-! ## Instructions and streams -/

/-- **What the instruction at position `i` asks for, and what it leaves behind.** -/
def instruction : Check Unit :=
  match inst.opcode with
  | .unknown | .callArg | .structMember | .structEnd | .constructArg | .arrayElem => pure ()
  | .stageBegin => beginStage asm i inst
  | .stageEnd => endStage asm inst
  | .function => beginFunction asm i inst
  | .functionArg => parameter asm inst
  | .functionEnd => endFunction inst
  | .localVar => localVariable asm inst
  | .globalVar => globalVariable asm inst
  | .inputVar | .outputVar => interfaceVariable asm inst
  | .descriptorVar => descriptor asm inst
  | .call => call asm i inst
  | .voidType | .floatType | .sintType | .uintType | .arrayType | .vectorType | .matrixType
  | .structType | .boolType | .pointerType | .tupleType => typed asm inst.id
  | .label => define inst.id
  | .jump => define inst.refs.fst
  | .branch => branch asm inst
  | .loopMerge => loopMerge inst
  | .assign => assign asm inst
  | .compare => compare asm inst
  | .cast => cast asm inst
  | .construct => construct asm i inst
  | .deref | .readVar => readVariable inst
  | .expand => convert asm inst resizeOp?
  | .binary => binary asm inst
  | .unary => unary asm inst
  | .intToFloat => convert asm inst toFloatOp?
  | .invokePos | .invokeSize => invocationLane asm inst
  | .builtIn => builtIn asm inst
  | .arrayLit => arrayLiteral asm i inst
  | .boolLit | .null | .zero => literal asm inst fun _ => true
  | .floatLit => literal asm inst isFloat
  | .intLit => literal asm inst isInt
  | .stringLit => failure
  | .member => member asm inst
  | .toSigned | .toUnsigned => changeSign asm inst
  | .element => element asm inst
  | .swizzle => swizzle asm inst
  | .ret | .discard => write
  | .retValue => returnValue asm inst

end

def stream (asm : Assembler) : Nat → List Instruction → Check Unit
  | _, [] => pure ()
  | i, inst :: rest => do
    guard (stopsAt? (← get).stage inst).isNone
    instruction asm i inst
    stream asm (i + 1) rest

def closeAll : Check Unit := do
  guard (← takeFunction).isNone
  let v ← get
  guard v.stage.isNone

def names (entries : List (ResultId × String)) : Check Unit :=
  entries.forM fun e => do
    let v ← get
    guard ((v.known e.1).isNone || textFits 1 e.2)

/-- What a whole stream asks for. -/
def whole (asm : Assembler) : Check Unit := do
  stream asm 0 asm.code.toList
  closeAll
  names asm.names.entries

end Check

/-- Whether every instruction of a stream gets what it asks for. -/
def meetsRequirements (asm : Assembler) : Bool := ((Check.whole asm).run {}).isSome

end ShaderIR.Spirv
