import ShaderIR.Spirv.Lowering.Function
import ShaderIR.Spirv.Lowering.Literal
import ShaderIR.Spirv.Lowering.Memory
import ShaderIR.Spirv.Lowering.Stage

/-!
Emission of a stream as a module, instruction by instruction.
-/

namespace ShaderIR.Spirv

variable [WordLimit]

/-! ## Instructions -/

/-- The lowering of the instruction at position `i`. Trailers are lowered with their header. -/
def attempt (asm : Assembler) (i : Nat) (inst : Instruction) : Attempt Unit :=
  match inst.opcode with
  | .unknown | .callArg | .structMember | .structEnd | .constructArg | .arrayElem => pure ()
  | .stageBegin => beginStage asm i inst
  | .stageEnd => endStage asm inst
  | .function => beginFunction asm i inst
  | .functionArg => parameter asm inst
  | .functionEnd => endFunction inst
  | .localVar => localVariable asm inst
  | .globalVar => globalVariable asm inst
  | .inputVar | .outputVar => interfaceVariable asm inst
  | .descriptorVar => descriptor asm inst
  | .call => call asm i inst
  | .voidType | .floatType | .sintType | .uintType | .arrayType | .vectorType | .matrixType
  | .structType | .boolType | .pointerType | .tupleType => do
    let _ ← requireType asm inst inst.id
  | .label => label inst
  | .jump => jump inst
  | .branch => branch asm inst
  | .loopMerge => loopMerge inst
  | .assign => assign asm inst
  | .compare => compare asm inst
  | .cast => cast asm inst
  | .construct => construct asm i inst
  | .deref | .readVar => readVariable inst
  | .expand => convertBy asm inst resizeOp?
  | .binary => binary asm inst
  | .unary => unary asm inst
  | .intToFloat => convertBy asm inst toFloatOp?
  | .invokePos => invocationLane asm inst .globalInvocationId
  | .invokeSize => invocationLane asm inst .numWorkgroups
  | .builtIn => builtInValue asm inst
  | .arrayLit => arrayLiteral asm i inst
  | .boolLit => boolLiteral asm inst
  | .floatLit => floatLiteral asm inst
  | .intLit => intLiteral asm inst
  | .stringLit => stringLiteral inst
  | .member => member asm inst
  | .null | .zero => nullValue asm inst
  | .toSigned | .toUnsigned => changeSign asm inst
  | .element => element asm inst
  | .swizzle => swizzle asm inst
  | .ret => returnVoid inst
  | .retValue => returnValue asm inst
  | .discard => discard inst

def lowerInstruction (asm : Assembler) (i : Nat) (inst : Instruction) (s : Lowering) : Lowering :=
  ((attempt asm i inst).run.run s).2

def lowerFrom (asm : Assembler) :
    Nat → List Instruction → Lowering → Lowering × Option EmissionError
  | _, [], s => (s, none)
  | i, inst :: rest, s =>
    match stopsAt? (s.stage.map (·.stage)) inst with
    | some e => (s, some e)
    | none => lowerFrom asm (i + 1) rest (lowerInstruction asm i inst s)

def closeAll : Lower Unit := do
  if let some f ← takeFunction then
    report { phase := .output, message := f.source.text ++ " was never closed" }
    closeFunction f
  if let some { stage, .. } := (← get).stage then
    report { phase := .output, message := stage.name ++ " shader stage was never closed" }

def writeNames (asm : Assembler) : Lower Unit :=
  asm.names.entries.forM fun (id, name) => do
    if let some n := (← get).ids.get? id then onModule (.name n name)

/-! ## Emission -/

structure Emission where
  words : List UInt32 := []
  problems : List Problem := []
  fatal : Option EmissionError := none
deriving DecidableEq, Inhabited

def Emission.isClean (e : Emission) : Bool := e.problems.isEmpty && e.fatal.isNone

/-- Why there is no result at all: a number of the module does not fit into a word. -/
inductive WordOverflow
  | memberOffset | idSpace
deriving DecidableEq, Inhabited

def Oversized.problem (o : Oversized) : Problem := { phase := .output, message := o.message }

def Lowering.result (s : Lowering) (version : UInt32) : Option EmissionError → Emission
  | some e =>
    { problems := s.problems.toList ++ s.module.oversized.toList.map (·.problem), fatal := some e }
  | none =>
    { words := s.module.words version
      problems := s.problems.toList
        ++ (s.module.oversized.toList ++ s.module.oversizedEntryPoints).map (·.problem) }

def lowerAll (asm : Assembler) : Lowering × Option EmissionError :=
  let (s, fatal) := lowerFrom asm 0 asm.code.toList {}
  match fatal with
  | some e => (s, some e)
  | none => (((do closeAll; writeNames asm : Lower Unit).run s).2, none)

def emitModule (asm : Assembler) (major minor : UInt8) : Except WordOverflow Emission :=
  let (s, fatal) := lowerAll asm
  if s.offsetOverflow then .error .memberOffset
  else if 0x100000000 ≤ s.module.bound then .error .idSpace
  else .ok (s.result (versionWord major minor) fatal)

end ShaderIR.Spirv
