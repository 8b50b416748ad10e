import ShaderIR.Assembler.Types
import ShaderIR.ShaderStage

/-!
Validation of a finished stream, at a basic and a full level.
-/

namespace ShaderIR

inductive ValidationLevel
  | none | basic | full
deriving DecidableEq, Inhabited

namespace ValidationLevel

def all : List ValidationLevel := [.none, .basic, .full]

def name : ValidationLevel → String
  | .none => "none"
  | .basic => "basic"
  | .full => "full"

def ofName (s : String) : Except String ValidationLevel :=
  match all.find? (·.name == s) with
  | some level => .ok level
  | .none => .error ("unknown validation level `" ++ s ++ "`")

end ValidationLevel

namespace Validation

variable (asm : Assembler) (inst : Instruction)

def failIf (bad : Bool) (message : String) : List String := if bad then [message] else []

/-- Whether `inst`, at position `i`, refers to something that is defined later and may not be. -/
def refersAhead (i : Nat) (inst : Instruction) (id : ResultId) (at' : Nat) :
    Bool :=
  let target := asm.opcodeOf id
  i < at' && !(inst.opcode.allowsForward || target == .label || target == .function)

def referenceFindings (i : Nat) (inst : Instruction) (id : ResultId) :
    List String :=
  match asm.definition? id with
  | .none => [id.text ++ " is never defined"]
  | some at' => failIf (refersAhead asm i inst id at') (id.text ++ " is used before its definition")

def basicFindings (i : Nat) (inst : Instruction) : List String :=
  failIf (inst.opcode.isValue && inst.opcode != .stringLit && inst.resultType.isVoid)
      "value has no result type"
    ++ failIf (!inst.id.isVoid && inst.referenced.contains inst.id) "references itself"
    ++ inst.referenced.flatMap (referenceFindings asm i inst)

/-! ## Shape rules -/

def needsId (op : Opcode) : Bool :=
  op.isType || op.isValue || op.isVar || op == .label || op == .function || op == .stageBegin

def expectType (id : ResultId) (what : String) : List String :=
  failIf (!(asm.opcodeOf id).isType) (what ++ " " ++ id.text ++ " is not a type")

def expectOpcode (id : ResultId) (want : Opcode) (what : String) : List String :=
  let found := asm.opcodeOf id
  failIf (found != want)
    (what ++ " " ++ id.text ++ " must be " ++ want.name ++ ", found " ++ found.name)

def expectWidth (min max : UInt32) : List String :=
  let width := inst.operands.fst
  failIf (!isWidth min max width)
    ("width " ++ toString width.toNat ++ " outside " ++ toString min.toNat ++ "..="
      ++ toString max.toNat)

def trailerFindings (i : Nat) (inst : Instruction) : List String :=
  match inst.opcode.trailer? with
  | .none => []
  | some trailer =>
    let count := inst.operands.fst.toNat
    let found := (asm.trailersAfter i trailer count).length
    failIf (found != count)
      ("expected " ++ toString count ++ " " ++ trailer.name ++ " trailers, found "
        ++ toString found)

def arityFindings : List String :=
  match (asm.definingInstruction? inst.refs.fst).filter (·.opcode == .function) with
  | .none => []
  | some callee =>
    let takes := callee.operands.fst
    failIf (takes != inst.operands.fst)
      ("passes " ++ toString inst.operands.fst.toNat ++ " arguments, callee takes "
        ++ toString takes.toNat)

def operandFindings : List String :=
  let r0 := inst.refs.fst
  let r1 := inst.refs.snd
  let r2 := inst.refs.thd
  let n := inst.operands.fst
  match inst.opcode with
  | .unknown => ["unknown opcode"]
  | .floatType => expectWidth inst minFloatBits maxFloatBits
  | .sintType | .uintType => expectWidth inst minIntBits maxIntBits
  | .vectorType =>
    expectType asm r0 "element" ++ failIf (!isLaneCount n) (toString n.toNat ++ " lanes")
  | .arrayType | .matrixType | .pointerType => expectType asm r0 "element"
  | .tupleType => expectType asm r0 "first" ++ expectType asm r1 "second"
  | .structMember | .functionArg | .localVar | .globalVar | .inputVar | .outputVar
  | .descriptorVar => expectType asm r0 "declared type"
  | .function => if r0.isVoid then [] else expectType asm r0 "return type"
  | .functionEnd => expectOpcode asm r0 .function "closed function"
  | .structEnd => expectOpcode asm r0 .structType "closed struct"
  | .stageBegin =>
    failIf (ShaderStage.ofCode? n.toNat).isNone ("unknown stage " ++ toString n.toNat)
  | .stageEnd => if r0.isVoid then [] else expectOpcode asm r0 .function "entry point"
  | .jump => expectOpcode asm r0 .label "target"
  | .branch => expectOpcode asm r1 .label "true target" ++ expectOpcode asm r2 .label "false target"
  | .loopMerge =>
    expectOpcode asm r0 .label "merge target" ++ expectOpcode asm r1 .label "continue target"
  | .binary | .compare | .unary =>
    failIf (Operator.ofCode? n.toNat).isNone ("unknown operator " ++ toString n.toNat)
  | .call => expectOpcode asm r0 .function "callee" ++ arityFindings asm inst
  | .readVar => failIf (!(asm.opcodeOf r0).isVar) (r0.text ++ " is not a variable")
  | .assign =>
    let target := asm.opcodeOf r0
    failIf (!target.isVar && !target.isPlace) ("cannot assign to " ++ target.name)
  | _ => []

def shapeFindings (i : Nat) (inst : Instruction) : List String :=
  failIf (needsId inst.opcode && inst.id.isVoid) "missing result id"
    ++ failIf (!needsId inst.opcode && !inst.id.isVoid) "must not define an id"
    ++ trailerFindings asm i inst
    ++ (if inst.opcode.isValue && !inst.resultType.isVoid then
        expectType asm inst.resultType "result type" else [])
    ++ operandFindings asm inst

/-! ## Findings of a stream -/

def subject : String :=
  if inst.id.isVoid then inst.opcode.name else inst.id.text ++ " " ++ inst.opcode.name

def findings (level : ValidationLevel) (asm : Assembler) (i : Nat) (inst : Instruction) :
    List String :=
  match level with
  | .none => []
  | .basic => basicFindings asm i inst
  | .full => basicFindings asm i inst ++ shapeFindings asm i inst

def problem (message : String) : Problem :=
  { phase := .validation, message := subject inst ++ ": " ++ message, location := inst.location }

end Validation

/-- Everything that a level finds wrong with a stream, in stream order. -/
def Assembler.validate (asm : Assembler) (level : ValidationLevel) : List Problem :=
  asm.code.toList.zipIdx.flatMap fun (inst, i) =>
    (Validation.findings level asm i inst).map (Validation.problem inst)

end ShaderIR
