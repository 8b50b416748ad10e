import ShaderIR.Spirv.Lowering.Basic

/-!
Lowering of reads and writes. The pointer that a value is read through is remembered, so that the
value can be assigned to.
-/

namespace ShaderIR.Spirv

variable [WordLimit]
variable (asm : Assembler) (inst : Instruction)

/-! ## Variables, members and elements -/

def assign : Attempt Unit := do
  let target := inst.refs.fst
  if ← isParam target then giveUp inst (target.text ++ " is a parameter and cannot be assigned")
  match ← OptionT.lift (placeOf? target) with
  | none => problem inst (target.text ++ " is not assignable")
  | some place =>
    let v ← value asm inst inst.refs.snd
    store inst place.pointer v

def readVariable : Attempt Unit := do
  let var := inst.refs.fst
  if ← isParam var then
    bindId inst.id (← idFor var)
  else
    match ← OptionT.lift (placeOf? var) with
    | none => problem inst (var.text ++ " is not a variable")
    | some place =>
      let result ← idFor inst.id
      if ← load inst place result then setPlace inst.id place

def readThrough (place : Place) (type : ModuleId) (indices : List ModuleId)
    (result : ModuleId) : Lower Unit := do
  let pointer ← onModule (.pointerType place.storage type)
  let chain ← onModule .fresh
  if ← emit inst
      { op := .accessChain, resultType := some pointer, result := some chain,
        operands := (place.pointer :: indices).map .id } then
    let element : Place := { pointer := chain, storage := place.storage, pointee := type }
    if ← load inst element result then setPlace inst.id element

def member : Attempt Unit := do
  let type ← requireType asm inst inst.resultType
  let index := inst.operands.fst
  let result ← idFor inst.id
  match ← OptionT.lift (placeOf? inst.refs.fst) with
  | some place =>
    let position ← onModule (.word true index)
    readThrough inst place type [position] result
  | none =>
    let base ← value asm inst inst.refs.fst
    emitAnd inst
      { op := .compositeExtract, resultType := some type, result := some result,
        operands := [.id base, .literal index] }

def isVector (id : ResultId) : Bool :=
  match asm.types.ofId? id with
  | some (.vector _ _) => true
  | _ => false

def element : Attempt Unit := do
  let type ← requireType asm inst inst.resultType
  let first ← value asm inst inst.refs.snd
  let second : Option ModuleId ←
    if inst.refs.thd.isVoid then pure none
    else some <$> OptionT.lift (value asm inst inst.refs.thd)
  let result ← idFor inst.id
  match ← OptionT.lift (placeOf? inst.refs.fst) with
  | some place => readThrough inst place type (first :: second.toList) result
  | none =>
    if isVector asm (typeOf asm inst.refs.fst) && second.isNone then
      let base ← value asm inst inst.refs.fst
      emitAnd inst
        { op := .vectorExtractDynamic, resultType := some type, result := some result,
          operands := [.id base, .id first] }
    else problem inst "only variables and vectors can be indexed"

/-! ## Built-ins -/

inductive EmissionError
  | illegalBuiltIn (b : BuiltIn) (stage : ShaderStage)
  | builtInOutsideStage (b : BuiltIn)
  | unsupported (opcode : Opcode)
deriving DecidableEq, Inhabited

namespace EmissionError

def message : EmissionError → String
  | .illegalBuiltIn b stage =>
    "built-in `" ++ b.name ++ "` is not available in " ++ stage.name ++ " shaders"
  | .builtInOutsideStage b => "built-in `" ++ b.name ++ "` used outside of a shader stage"
  | .unsupported opcode => opcode.name ++ " has no SPIR-V lowering"

end EmissionError

/-- The built-in that an instruction reads from a variable of its own. -/
def builtInRead? (stage : Option ShaderStage) (inst : Instruction) : Option BuiltIn :=
  match inst.opcode with
  | .invokePos => some .globalInvocationId
  | .invokeSize => some .numWorkgroups
  | .builtIn =>
    (BuiltIn.ofCode? inst.operands.fst.toNat).filter fun b => (perVertexMember? stage b).isNone
  | _ => none

/-- Why lowering stops at an instruction that stands in the given stage. -/
def stopsAt? (stage : Option ShaderStage) (inst : Instruction) : Option EmissionError :=
  if inst.opcode = .unknown then some (.unsupported .unknown)
  else
    (builtInRead? stage inst).bind fun b =>
      match stage with
      | none => some (.builtInOutsideStage b)
      | some stage => if b.isLegalIn stage then none else some (.illegalBuiltIn b stage)

def perVertexPlace (b : BuiltIn) (index : UInt32) : Attempt Place := do
  let pointee ← onModule (builtInType b.info.shape)
  let block ← perVertexBlock
  let position ← onModule (.word true index)
  let pointer ← onModule (.pointerType .output pointee)
  let chain ← onModule .fresh
  let written ← emit inst
    { op := .accessChain, resultType := some pointer, result := some chain,
      operands := [.id block, .id position] }
  guard written
  return { pointer := chain, storage := .output, pointee }

def canReinterpret (shape : BuiltInShape) (id : ResultId) : Bool :=
  let lanes := match asm.types.ofId? id with
    | some (.vector _ n) => n
    | _ => 1
  let isWord := match scalarOf? asm id with
    | some (.float w) | some (.sint w) | some (.uint w) => w == 32
    | _ => false
  shape.scalar != .bool && lanes == shape.lanes && isWord

/-- Reads a built-in from its place. -/
def readBuiltIn (b : BuiltIn) (place : Place) :
    Attempt Unit := do
  let type ← requireType asm inst inst.resultType
  let result ← idFor inst.id
  if type = place.pointee then
    if ← load inst place result then setPlace inst.id place
  else if canReinterpret asm b.info.shape inst.resultType then
    let loaded ← onModule .fresh
    if ← load inst place loaded then
      emitAnd inst
        { op := .bitcast, resultType := some type, result := some result,
          operands := [.id loaded] }
  else problem inst (b.name ++ " cannot be read as " ++ inst.resultType.text)

def builtInValue : Attempt Unit := do
  let code := inst.operands.fst
  match BuiltIn.ofCode? code.toNat with
  | none => problem inst ("unknown built-in " ++ toString code.toNat)
  | some b =>
    let stage ← orGiveUp ((← get).stage.map (·.stage))
    let place ← match perVertexMember? (some stage) b with
      | some index => perVertexPlace inst b index
      | none => OptionT.lift (builtInPlace stage b)
    readBuiltIn asm inst b place

/-- Reads one lane of a built-in from its place. -/
def readLane (lane : UInt32) (place : Place) :
    Attempt Unit := do
  let word ← onModule (.intType 32 false)
  let type : ModuleId ← requireType asm inst inst.resultType <|> pure word
  let index ← onModule (.word false lane)
  let result ← idFor inst.id
  let loaded ← if type = word then pure result else onModule .fresh
  let pointer ← onModule (.pointerType .input word)
  let chain ← onModule .fresh
  if ← emit inst
      { op := .accessChain, resultType := some pointer, result := some chain,
        operands := [.id place.pointer, .id index] } then
    if ← load inst { pointer := chain, storage := .input, pointee := word } loaded then
      if type != word then
        emitAnd inst
          { op := .bitcast, resultType := some type, result := some result,
            operands := [.id loaded] }

def invocationLane (b : BuiltIn) : Attempt Unit := do
  let stage ← orGiveUp ((← get).stage.map (·.stage))
  let place ← builtInPlace stage b
  let lane := inst.operands.fst
  if 2 < lane then giveUp inst ("component " ++ toString lane.toNat ++ " is out of range")
  readLane asm inst lane place

end ShaderIR.Spirv
