import ShaderIR.Assembler.Basic

/-!
Searching the stream for instructions of a given shape.
-/

namespace ShaderIR

/-- The shape that a search looks for. What is left open matches anything. -/
structure Pattern where
  opcode : Option Opcode := none
  operands : Triple (Option UInt32) := ⟨none, none, none⟩
  refs : Triple (Option ResultId) := ⟨none, none, none⟩
  resultType : Option ResultId := none
  uses : Option ResultId := none
  offset : Nat := 0
  limit : Option Nat := none
deriving Inhabited

def Triple.set {α : Type} (t : Triple α) (i : Nat) (v : α) : Triple α :=
  match i with
  | 0 => { t with fst := v }
  | 1 => { t with snd := v }
  | 2 => { t with thd := v }
  | _ => t

namespace Pattern

def fits {α : Type} [DecidableEq α] (wanted : Option α) (v : α) : Bool := wanted.all (· = v)

def fitsTriple {α : Type} [DecidableEq α] (wanted : Triple (Option α)) (t : Triple α) : Bool :=
  fits wanted.fst t.fst && fits wanted.snd t.snd && fits wanted.thd t.thd

def accepts (p : Pattern) (inst : Instruction) : Bool :=
  fits p.opcode inst.opcode
    && fitsTriple p.operands inst.operands
    && fitsTriple p.refs inst.refs
    && fits p.resultType inst.resultType
    && p.uses.all (inst.slots.contains ·)

end Pattern

def Assembler.search (asm : Assembler) (p : Pattern) : List Instruction :=
  let found := (asm.code.toList.drop p.offset).filter p.accepts
  match p.limit with
  | some n => found.take n
  | none => found

end ShaderIR
