import ShaderIR.Spirv.Constant
import ShaderIR.Spirv.Lowering.Arithmetic

/-!
Lowering of literals, casts, and values made of several others.
-/

namespace ShaderIR.Spirv

variable [WordLimit]
variable (asm : Assembler) (inst : Instruction)

def aliasConstant (c : Build ModuleId) : Lower Unit := do
  bindId inst.id (← onModule c)

def boolLiteral : Attempt Unit := do
  let type ← requireType asm inst inst.resultType
  let op := if inst.operands.fst = 0 then Op.constantFalse else .constantTrue
  aliasConstant inst (.constant type op [])

def intLiteral : Attempt Unit := do
  let type ← requireType asm inst inst.resultType
  match scalarOf? asm inst.resultType with
  | some (.sint width) => aliasConstant inst (.number type (intWords width true inst.wide))
  | some (.uint width) => aliasConstant inst (.number type (intWords width false inst.wide))
  | _ => problem inst "integer literals need an integer type"

def floatLiteral : Attempt Unit := do
  let type ← requireType asm inst inst.resultType
  match scalarOf? asm inst.resultType with
  | some (.float width) => aliasConstant inst (.number type (floatWords width inst.wide))
  | _ => problem inst "float literals need a float type"

def stringLiteral : Attempt Unit :=
  problem inst "string values have no SPIR-V form"

def nullValue : Attempt Unit := do
  let type ← requireType asm inst inst.resultType
  aliasConstant inst (.null type)

def oneAndZero? : Scalar → Option (List UInt32 × List UInt32)
  | .float width => some (floatWords width oneBits, floatWords width zeroBits)
  | .sint width => some (intWords width true 1, intWords width true 0)
  | .uint width => some (intWords width false 1, intWords width false 0)
  | .bool => none

/-- A cast. Truth values become one or zero; the bits of everything else are reinterpreted. -/
def cast (asm : Assembler) (inst : Instruction) : Attempt Unit := do
  if scalarOf? asm (typeOf asm inst.refs.fst) = some .bool then
    let type ← requireType asm inst inst.resultType
    match (scalarOf? asm inst.resultType).bind oneAndZero? with
    | none => problem inst "bools can only be cast to numbers"
    | some (one, nought) =>
      let onTrue ← onModule (.number type one)
      let onFalse ← onModule (.number type nought)
      let condition ← value asm inst inst.refs.fst
      let result ← idFor inst.id
      emitAnd inst
        { op := .select, resultType := some type, result := some result,
          operands := [.id condition, .id onTrue, .id onFalse] }
  else convertBy asm inst fun _ => some .bitcast

def construct (i : Nat) (inst : Instruction) : Attempt Unit := do
  let count := inst.operands.fst.toNat
  let args := asm.trailersAfter i .constructArg count
  if args.length != count then
    problem inst
      ("constructs from " ++ toString count ++ " values, found " ++ toString args.length)
  let type ← requireType asm inst inst.resultType
  let result ← idFor inst.id
  let values ← args.mapM fun arg => value asm arg arg.refs.fst
  emitAnd inst
    { op := .compositeConstruct, resultType := some type, result := some result,
      operands := values.map .id }

def maxCompositeLength : Nat := 65532

/-- The value that fills up an array literal: its only element, or else zero. -/
def fillValue (inner : TypeHandle) (values : List ModuleId) : Attempt ModuleId := do
  match values with
  | [v] => return v
  | _ =>
    let element : ModuleId ← (do lowerType asm (← orGiveUp (asm.types.idOf? inner)))
      <|> giveUp inst "array element type has no SPIR-V form"
    onModule (.null element)

def arrayLiteral (i : Nat) (inst : Instruction) : Attempt Unit := do
  let type ← requireType asm inst inst.resultType
  match asm.types.ofId? inst.resultType with
  | some (.array inner length) =>
    let length := length.toNat
    if maxCompositeLength < length then giveUp inst "array literals need an array type"
    let elements := asm.trailersAfter i .arrayElem inst.operands.fst.toNat
    let values : List ModuleId ← elements.mapM fun e => value asm e e.refs.fst
    if length < values.length then
      problem inst
        (toString values.length ++ " elements do not fit in an array of " ++ toString length)
    let values := values.take length
    let values : List ModuleId ←
      if values.length < length then do
        let fill ← fillValue asm inst inner values
        pure (values ++ List.replicate (length - values.length) fill)
      else pure values
    let m := (← get).module
    if values.all m.isConstant then
      aliasConstant inst (.constant type .constantComposite (values.map .id))
    else
      let result ← idFor inst.id
      emitAnd inst
        { op := .compositeConstruct, resultType := some type, result := some result,
          operands := values.map .id }
  | _ => problem inst "array literals need an array type"

/-- The lanes that a swizzle picks, two bits each. -/
def swizzleLanes (count : Nat) (packed : UInt32) : List UInt32 :=
  (List.range count).map fun i => ((packed.toNat >>> (2 * i)) % 4).toUInt32

def swizzle (asm : Assembler) (inst : Instruction) : Attempt Unit := do
  let type ← requireType asm inst inst.resultType
  let count := inst.operands.fst.toNat
  if count < 1 || 4 < count then
    giveUp inst ("cannot swizzle " ++ toString count ++ " lanes")
  let lanes := (swizzleLanes count inst.operands.snd).map Operand.literal
  let vector ← value asm inst inst.refs.fst
  let result ← idFor inst.id
  if count = 1 then
    emitAnd inst
      { op := .compositeExtract, resultType := some type, result := some result,
        operands := .id vector :: lanes }
  else
    emitAnd inst
      { op := .vectorShuffle, resultType := some type, result := some result,
        operands := .id vector :: .id vector :: lanes }

end ShaderIR.Spirv
