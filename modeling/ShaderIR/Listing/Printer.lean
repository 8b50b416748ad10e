import ShaderIR.Assembler.Basic
import ShaderIR.Text.Quoted

/-!
Listings: the text form of an assembler.
-/

namespace ShaderIR.Listing

open Text

/-- The line of one instruction. Structs are not spelled, since their spelling says nothing. -/
def instructionLine (asm : Assembler) (inst : Instruction) : String :=
  if inst.opcode.isType && inst.opcode != .structType then
    inst.text ++ " ; " ++ asm.types.spell inst.id
  else inst.text

def lines (asm : Assembler) : List String :=
  ("@next " ++ asm.next.text)
    :: (asm.strings.values.toList.map fun s => "@string " ++ Quoted.write s)
    ++ (asm.names.entries.map fun (id, name) => "@name " ++ id.text ++ " " ++ Quoted.write name)
    ++ asm.code.toList.map (instructionLine asm)

def print (asm : Assembler) : String := String.join ((lines asm).map (· ++ "\n"))

end ShaderIR.Listing
