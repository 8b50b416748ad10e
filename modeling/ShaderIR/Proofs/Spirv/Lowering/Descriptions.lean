import ShaderIR.Spirv.Lowering.Memory
import ShaderIR.Spirv.Lowering.Stage

/-!
# What lowering asks of a type

Apart from its form in the module, lowering asks few questions about a type, and **all of them are
answered by its description**, whatever the id of the type.
-/

namespace ShaderIR.Spirv

/-- The type `x` of `a` is described as the type `x'` of `b`. -/
structure Described (a b : Assembler) (x x' : ResultId) : Prop where
  ofId : b.types.ofId? x' = a.types.ofId? x
  desc : ∀ h, b.types.desc? h = a.types.desc? h

namespace Described

variable {a b : Assembler} {x x' : ResultId} (h : Described a b x x')
include h

theorem scalarOf?_eq : scalarOf? b x' = scalarOf? a x := by
  unfold scalarOf?
  rw [h.ofId, funext h.desc]

theorem isVector_eq : isVector b x' = isVector a x := by
  unfold isVector
  rw [h.ofId]

theorem canReinterpret_eq (shape : BuiltInShape) :
    canReinterpret b shape x' = canReinterpret a shape x := by
  unfold canReinterpret
  rw [h.ofId, h.scalarOf?_eq]

theorem isVec4_eq : isVec4 b x' = isVec4 a x := by
  unfold isVec4
  rw [h.ofId, funext h.desc]

theorem returnsSomething_eq : returnsSomething b x' = returnsSomething a x := by
  unfold returnsSomething
  rw [h.ofId]

end Described

end ShaderIR.Spirv
