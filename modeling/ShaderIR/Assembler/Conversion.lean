import ShaderIR.Assembler.Types

/-!
Conversions between types, step by step.
-/

namespace ShaderIR

inductive ConversionStep
  | compatible
  | widen
  /-- Read a truth value as an integer. -/
  | bitcastToInt
  | intToFloat
  | methodCall
  | incompatible
deriving DecidableEq, Inhabited

/-- A number fits its own width and can be widened, never narrowed. -/
def ConversionStep.ofWidths (given want : UInt32) : ConversionStep :=
  if want = given then .compatible else if given < want then .widen else .incompatible

namespace Assembler

variable (asm : Assembler)

def maxConversionSteps : Nat := 8

def conversionStep (target : ResultId) (value : TypedValue) (op : Operator) :
    ConversionStep :=
  match asm.types.ofId? target, asm.types.ofId? value.type with
  | some want, some given =>
    if op = .append && (given.isInt || given.isFloat) then .incompatible
    else if (op = .neg || op = .abs) && (given matches .uint _) then .incompatible
    else if value.type = target then .compatible
    else match given, want with
      | .float a, .float b | .sint a, .sint b | .uint a, .uint b => .ofWidths a b
      | given, want =>
        if given.isInt && (want.isFloat || op = .div) then .intToFloat
        else if given = .bool && (want.isInt || want.isFloat) then .bitcastToInt
        else if given = .bool && op.isLogical then .compatible
        else match given with
          | .record l =>
            if ((asm.types.layout? l).bind (·.conversion? target)).isSome then .methodCall
            else .incompatible
          | _ => .incompatible
  | _, _ => .incompatible

/-- The integer type that a truth value is read as on the way to `target`. -/
def bitcastTarget (target : ResultId) :
    Except AssemblyError (ResultId × Assembler) :=
  match asm.types.ofId? target with
  | some want => if want.isInt then .ok (target, asm) else asm.pushInt true (want.scalarWidth?.getD 32)
  | none => .error (.notAType target)

def intToFloatTarget (target source : ResultId) :
    Except AssemblyError (ResultId × Assembler) :=
  if (asm.types.ofId? target).any (·.isFloat) then .ok (target, asm)
  else
    let width := ((asm.types.ofId? source).bind (·.scalarWidth?)).getD 32
    asm.pushFloat (min (max width minFloatBits) maxFloatBits)

def pushConversion (opcode : Opcode) (value : TypedValue) (type : ResultId) :
    TypedValue × Assembler :=
  asm.pushValue { opcode, refs := ⟨value.value, .void, .void⟩ } type

def pushConversionCall (target : ResultId) (value : TypedValue) :
    Except AssemblyError (TypedValue × Assembler) :=
  match (asm.types.layoutOf? value.type).bind (·.conversion? target) with
  | none => .error (.incompatibleTypes value.type target .none)
  | some function =>
    let (result, asm) := asm.pushValue
      { opcode := .call, operands := ⟨1, 0, 0⟩, refs := ⟨function, .void, .void⟩ } target
    .ok (result, asm.push { opcode := .callArg, refs := ⟨value.value, .void, .void⟩ })

/-- Takes the step `step` from `value` to `target`; `none` if the value fits as it is. -/
def takeStep (asm : Assembler) (target : ResultId) (value : TypedValue) (op : Operator) :
    ConversionStep → Except AssemblyError (Option (TypedValue × Assembler))
  | .compatible => .ok none
  | .incompatible => .error (.incompatibleTypes value.type target op)
  | .widen => .ok (some (asm.pushConversion .expand value target))
  | .bitcastToInt => do
    let (type, asm) ← asm.bitcastTarget target
    return some (asm.pushConversion .cast value type)
  | .intToFloat => do
    let (type, asm) ← asm.intToFloatTarget target value.type
    return some (asm.pushConversion .intToFloat value type)
  | .methodCall => do return some (← asm.pushConversionCall target value)

def convertSteps (source target : ResultId) (op : Operator) :
    Nat → Assembler → TypedValue → Except AssemblyError TypedValue × Assembler
  | 0, asm, _ => (.error (.conversionLimit source target maxConversionSteps), asm)
  | fuel + 1, asm, value =>
    match asm.takeStep target value op (asm.conversionStep target value op) with
    | .error e => (.error e, asm)
    | .ok none => (.ok value, asm)
    | .ok (some (value, asm)) => convertSteps source target op fuel asm value

/-- Converts `value` for use as a `target` under the operator `op`. The steps taken before a
failure stay in the stream. -/
def convert (target : ResultId) (value : TypedValue) (op : Operator) :
    Except AssemblyError TypedValue × Assembler :=
  convertSteps value.type target op maxConversionSteps asm value

/-- Brings both operands of an expression to one type, that of the left one if possible. -/
def unifyOperands (lhs rhs : TypedValue) (op : Operator) :
    Except AssemblyError (TypedValue × TypedValue) × Assembler :=
  if lhs.type = rhs.type then (.ok (lhs, rhs), asm)
  else if asm.conversionStep lhs.type rhs op ≠ .incompatible then
    let (result, asm) := asm.convert lhs.type rhs op
    (result.map fun rhs => (lhs, rhs), asm)
  else
    let (result, asm) := asm.convert rhs.type lhs op
    (result.map fun lhs => (lhs, rhs), asm)

end Assembler

end ShaderIR
