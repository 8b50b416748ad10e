import ShaderIR.Assembler.Basic

/-!
Merging of equal literals. The repetitions stay, without references, for dead code removal.
-/

namespace ShaderIR

def Opcode.isMergeable : Opcode → Bool
  | .intLit | .floatLit | .boolLit | .null | .zero => true
  | _ => false

def Instruction.literalKey (inst : Instruction) : Opcode × Triple UInt32 × ResultId :=
  (inst.opcode, inst.operands, inst.resultType)

namespace Assembler

/-- Pairs every repeated literal of `code` with the first one equal to it. -/
def repeatedLiterals :
    Table (Opcode × Triple UInt32 × ResultId) ResultId → List Instruction →
      List (ResultId × ResultId)
  | _, [] => []
  | seen, inst :: rest =>
    if inst.id.isVoid || !inst.opcode.isMergeable then repeatedLiterals seen rest
    else match seen.get? inst.literalKey with
      | some first => (inst.id, first) :: repeatedLiterals seen rest
      | none => repeatedLiterals (seen.insert inst.literalKey inst.id) rest

def redirectLiterals : List (ResultId × ResultId) → Nat × Assembler → Nat × Assembler
  | [], result => result
  | (id, first) :: rest, (n, asm) =>
    if asm.useCount id = 0 then redirectLiterals rest (n, asm)
    else
      let (replaced, asm) := asm.replace id first
      redirectLiterals rest (n + replaced, asm)

def mergeLiterals (asm : Assembler) : Nat × Assembler :=
  redirectLiterals (repeatedLiterals {} asm.code.toList) (0, asm)

end Assembler

end ShaderIR
