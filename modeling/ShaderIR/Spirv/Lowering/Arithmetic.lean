import ShaderIR.Spirv.Lowering.Basic

/-!
Lowering of comparisons, operators and conversions between scalars.
-/

namespace ShaderIR.Spirv

variable [WordLimit]
variable (asm : Assembler) (inst : Instruction)

/-! ## Choosing operations -/

def comparisonOp? : Operator → Scalar → Option Op
  | .eq, .float _ => some .fOrdEqual
  | .ne, .float _ => some .fOrdNotEqual
  | .lt, .float _ => some .fOrdLessThan
  | .gt, .float _ => some .fOrdGreaterThan
  | .le, .float _ => some .fOrdLessThanEqual
  | .ge, .float _ => some .fOrdGreaterThanEqual
  | .eq, .sint _ | .eq, .uint _ => some .iEqual
  | .ne, .sint _ | .ne, .uint _ => some .iNotEqual
  | .lt, .sint _ => some .sLessThan
  | .gt, .sint _ => some .sGreaterThan
  | .le, .sint _ => some .sLessThanEqual
  | .ge, .sint _ => some .sGreaterThanEqual
  | .lt, .uint _ => some .uLessThan
  | .gt, .uint _ => some .uGreaterThan
  | .le, .uint _ => some .uLessThanEqual
  | .ge, .uint _ => some .uGreaterThanEqual
  | .eq, .bool => some .logicalEqual
  | .ne, .bool => some .logicalNotEqual
  | _, _ => none

def binaryOp? : Operator → Scalar → Option Op
  | .add, .float _ => some .fAdd
  | .sub, .float _ => some .fSub
  | .mul, .float _ => some .fMul
  | .div, .float _ => some .fDiv
  | .mod, .float _ => some .fMod
  | .add, .sint _ | .add, .uint _ => some .iAdd
  | .sub, .sint _ | .sub, .uint _ => some .iSub
  | .mul, .sint _ | .mul, .uint _ => some .iMul
  | .intDiv, .sint _ => some .sDiv
  | .intDiv, .uint _ => some .uDiv
  | .mod, .sint _ => some .sMod
  | .mod, .uint _ => some .uMod
  | .bitAnd, .sint _ | .bitAnd, .uint _ => some .bitwiseAnd
  | .bitOr, .sint _ | .bitOr, .uint _ => some .bitwiseOr
  | .bitXor, .sint _ | .bitXor, .uint _ => some .bitwiseXor
  | .shiftLeft, .sint _ | .shiftLeft, .uint _ => some .shiftLeftLogical
  | .shiftRight, .sint _ => some .shiftRightArithmetic
  | .shiftRight, .uint _ => some .shiftRightLogical
  | .logicAnd, .bool => some .logicalAnd
  | .logicOr, .bool => some .logicalOr
  | _, _ => none

def unaryOp? : Operator → Scalar → Option Op
  | .neg, .float _ => some .fNegate
  | .neg, .sint _ => some .sNegate
  | .bitNot, .sint _ | .bitNot, .uint _ => some .not
  | .boolNot, .bool => some .logicalNot
  | _, _ => none

def unaryExtOp? : Operator → Scalar → Option ExtOp
  | .abs, .float _ => some .fAbs
  | .abs, .sint _ => some .sAbs
  | _, _ => none

def resizeOp? : Scalar → Option Op
  | .float _ => some .fConvert
  | .sint _ => some .sConvert
  | .uint _ => some .uConvert
  | .bool => none

def toFloatOp? : Scalar → Option Op
  | .sint _ => some .convertSToF
  | .uint _ => some .convertUToF
  | .float _ | .bool => none

/-! ## Operators -/

def operatorOf : Attempt Operator := do
  let code := inst.operands.fst
  match Operator.ofCode? code.toNat with
  | some op => return op
  | none => giveUp inst ("unknown operator " ++ toString code.toNat)

/-- The type of the outcome of a comparison: one truth value, or one per lane. -/
def comparisonType (operandType : ResultId) : Build ModuleId := do
  let bool ← .boolType
  match asm.types.ofId? operandType with
  | some (.vector _ lanes) => .vectorType bool lanes
  | _ => return bool

def comparison (op : Operator) (operandType : ResultId) :
    Attempt Unit := do
  match (scalarOf? asm operandType).bind (comparisonOp? op) with
  | none =>
    problem inst ("`" ++ op.symbol ++ "` cannot compare values of type " ++ operandType.text)
  | some code =>
    let type ← onModule (comparisonType asm operandType)
    let lhs ← value asm inst inst.refs.fst
    let rhs ← value asm inst inst.refs.snd
    let result ← idFor inst.id
    emitAnd inst
      { op := code, resultType := some type, result := some result,
        operands := [.id lhs, .id rhs] }

def compare : Attempt Unit := do
  comparison asm inst (← operatorOf inst) inst.resultType

def noLowering (op : Operator) : Lower Unit :=
  problem inst ("`" ++ op.symbol ++ "` has no lowering for type " ++ inst.resultType.text)

def binary : Attempt Unit := do
  let op ← operatorOf inst
  if op.isComparison then
    comparison asm inst op (typeOf asm inst.refs.fst)
  else
    let type ← requireType asm inst inst.resultType
    let scalar := scalarOf? asm inst.resultType
    let lhs ← value asm inst inst.refs.fst
    let rhs ← value asm inst inst.refs.snd
    let result ← idFor inst.id
    if op = .pow then
      match scalar with
      | some (.float _) =>
        let set ← onModule .extInstSet
        emitAnd inst
          { op := .extInst, resultType := some type, result := some result,
            operands := [.id set, .literal ExtOp.pow.code, .id lhs, .id rhs] }
      | _ => problem inst "`**` needs floating-point operands"
    else
      match scalar.bind (binaryOp? op) with
      | some code =>
        emitAnd inst
          { op := code, resultType := some type, result := some result,
            operands := [.id lhs, .id rhs] }
      | none => noLowering inst op

def unary : Attempt Unit := do
  let op ← operatorOf inst
  let type ← requireType asm inst inst.resultType
  let scalar := scalarOf? asm inst.resultType
  let v ← value asm inst inst.refs.fst
  let result ← idFor inst.id
  match scalar.bind (unaryExtOp? op), scalar.bind (unaryOp? op) with
  | some code, _ =>
    let set ← onModule .extInstSet
    emitAnd inst
      { op := .extInst, resultType := some type, result := some result,
        operands := [.id set, .literal code.code, .id v] }
  | none, some code =>
    emitAnd inst
      { op := code, resultType := some type, result := some result, operands := [.id v] }
  | none, none => noLowering inst op

/-! ## Conversions -/

def convertBy (asm : Assembler) (inst : Instruction) (choose : Scalar → Option Op) :
    Attempt Unit := do
  let type ← requireType asm inst inst.resultType
  let source := typeOf asm inst.refs.fst
  match (scalarOf? asm source).bind choose with
  | none => problem inst ("cannot convert from type " ++ source.text)
  | some code =>
    let v ← value asm inst inst.refs.fst
    let result ← idFor inst.id
    emitAnd inst
      { op := code, resultType := some type, result := some result, operands := [.id v] }

def Scalar.intWidth? : Scalar → Option UInt32
  | .sint w | .uint w => some w
  | _ => none

def sameIntWidth (a b : Option Scalar) : Bool :=
  match a.bind Scalar.intWidth?, b.bind Scalar.intWidth? with
  | some v, some w => v == w
  | _, _ => false

def changeSign : Attempt Unit := do
  if sameIntWidth (scalarOf? asm (typeOf asm inst.refs.fst)) (scalarOf? asm inst.resultType) then
    convertBy asm inst fun _ => some .bitcast
  else problem inst "sign changes need integers of equal width"

end ShaderIR.Spirv
