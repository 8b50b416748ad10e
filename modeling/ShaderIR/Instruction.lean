import ShaderIR.Opcode

/-!
Ids and instructions. The *slots* of an instruction are the four ids it may refer to: the
references, then the result type.
-/

namespace ShaderIR

/-! ## Ids -/

/-- An id of the instruction stream. Id zero is void and stands for "no value". -/
structure ResultId where
  index : Nat
deriving DecidableEq, Inhabited

namespace ResultId

def void : ResultId := ⟨0⟩

def isVoid (id : ResultId) : Bool := id.index == 0

def text (id : ResultId) : String := "%" ++ toString id.index

end ResultId

structure TypedValue where
  type : ResultId
  value : ResultId
deriving DecidableEq, Inhabited

structure Location where
  line : UInt32
  column : UInt32
deriving DecidableEq, Inhabited

def Location.text (l : Location) : String :=
  toString l.line.toNat ++ ":" ++ toString l.column.toNat

structure Triple (α : Type) where
  fst : α
  snd : α
  thd : α
deriving DecidableEq, Inhabited

namespace Triple

variable {α β : Type}

def map (f : α → β) (t : Triple α) : Triple β := ⟨f t.fst, f t.snd, f t.thd⟩

def toList (t : Triple α) : List α := [t.fst, t.snd, t.thd]

end Triple

/-! ## Instructions -/

structure Instruction where
  opcode : Opcode
  id : ResultId := .void
  operands : Triple UInt32 := ⟨0, 0, 0⟩
  refs : Triple ResultId := ⟨.void, .void, .void⟩
  resultType : ResultId := .void
  location : Option Location := none
deriving DecidableEq, Inhabited

namespace Instruction

variable (inst : Instruction)

def slots : List ResultId := inst.refs.toList ++ [inst.resultType]

def referenced : List ResultId := inst.slots.filter (!·.isVoid)

def mapSlots (f : ResultId → ResultId) : Instruction :=
  { inst with refs := inst.refs.map f, resultType := f inst.resultType }

/-- The first two operand words read as one number, low word first. -/
def wide : UInt64 :=
  inst.operands.fst.toUInt64 ||| (inst.operands.snd.toUInt64 <<< 32)

def text : String :=
  inst.id.text ++ " = " ++ inst.opcode.name
    ++ " [" ++ ", ".intercalate (inst.operands.toList.map fun w => toString w.toNat)
    ++ "] (" ++ ", ".intercalate (inst.refs.toList.map ResultId.text)
    ++ ") : " ++ inst.resultType.text
    ++ match inst.location with
      | some l => " !" ++ l.text
      | none => ""

end Instruction

def splitWide (n : UInt64) : UInt32 × UInt32 := (n.toUInt32, (n >>> 32).toUInt32)

end ShaderIR
