import ShaderIR.Spirv.Op

/-!
Instructions of the binary format and their encoding as words.
-/

namespace ShaderIR.Spirv

abbrev ModuleId := Nat

def packWord (a b c d : UInt8) : UInt32 :=
  a.toUInt32 ||| (b.toUInt32 <<< 8) ||| (c.toUInt32 <<< 16) ||| (d.toUInt32 <<< 24)

/-- Adds bytes and a closing zero byte to `words`, four bytes to a word, padded with zeros. -/
def packBytes (words : Array UInt32) : List UInt8 → Array UInt32
  | a :: b :: c :: d :: rest => packBytes (words.push (packWord a b c d)) rest
  | [a, b, c] => words.push (packWord a b c 0)
  | [a, b] => words.push (packWord a b 0 0)
  | [a] => words.push (packWord a 0 0 0)
  | [] => words.push 0

def packText (s : String) : List UInt32 := (packBytes #[] s.toUTF8.data.toList).toList

inductive Operand
  | id (n : ModuleId)
  | literal (w : UInt32)
  | text (s : String)
deriving DecidableEq, Inhabited

def Operand.words : Operand → List UInt32
  | .id n => [n.toUInt32]
  | .literal w => [w]
  | .text s => packText s

structure Inst where
  op : Op
  resultType : Option ModuleId := none
  result : Option ModuleId := none
  operands : List Operand := []
deriving DecidableEq, Inhabited

def maxOperandWords : Nat := 65534

/-- How many operand words one instruction may take; `maxOperandWords` unless another limit is
    given. -/
class WordLimit where
  words : Nat

instance : WordLimit := ⟨maxOperandWords⟩

namespace Inst

def operandWords (inst : Inst) : List UInt32 :=
  (inst.resultType.toList ++ inst.result.toList).map (·.toUInt32)
    ++ inst.operands.flatMap Operand.words

def fits [WordLimit] (inst : Inst) : Bool := inst.operandWords.length ≤ WordLimit.words

end Inst

def headerWord (count code : Nat) : UInt32 := (count * 0x10000 + code).toUInt32

def Inst.words (inst : Inst) : List UInt32 :=
  let operands := inst.operandWords
  headerWord (operands.length + 1) inst.op.code :: operands

def versionWord (major minor : UInt8) : UInt32 :=
  (major.toUInt32 <<< 16) ||| (minor.toUInt32 <<< 8)

def bytesOfWords (words : List UInt32) : List UInt8 :=
  words.flatMap fun (w : UInt32) =>
    [w.toUInt8, (w >>> 8).toUInt8, (w >>> 16).toUInt8, (w >>> 24).toUInt8]

end ShaderIR.Spirv
