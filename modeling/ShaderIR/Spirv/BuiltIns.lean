import ShaderIR.ShaderStage
import ShaderIR.Spirv.Op

/-!
How stages and built-in variables are expressed in the binary format.
-/

namespace ShaderIR

/-! ## Stages -/

namespace ShaderStage

def executionModel : ShaderStage → UInt32
  | .vertex => 0
  | .tessControl => 1
  | .tessEval => 2
  | .geometry => 3
  | .fragment => 4
  | .compute => 5
  | .rayGen => 5313
  | .rayIntersect => 5314
  | .rayAnyHit => 5315
  | .rayClosestHit => 5316
  | .rayMiss => 5317
  | .task => 5364
  | .mesh => 5365

def capability? : ShaderStage → Option Spirv.Capability
  | .geometry => some .geometry
  | .tessControl | .tessEval => some .tessellation
  | .task | .mesh => some .meshShading
  | .rayGen | .rayClosestHit | .rayAnyHit | .rayIntersect | .rayMiss => some .rayTracing
  | .compute | .vertex | .fragment => none

def extension? : ShaderStage → Option Spirv.Extension
  | .task | .mesh => some .meshShader
  | .rayGen | .rayClosestHit | .rayAnyHit | .rayIntersect | .rayMiss => some .rayTracing
  | _ => none

/-- Whether the entry point of a stage is a function of its own that calls the one in the stream. -/
def wrapsEntry : ShaderStage → Bool
  | .vertex | .fragment | .tessControl | .tessEval | .geometry => true
  | _ => false

def hasLocalSize : ShaderStage → Bool
  | .compute | .task | .mesh => true
  | _ => false

end ShaderStage

namespace Spirv

/-- The scalars that built-ins are made of, all 32 bits wide but for truth values. -/
inductive BuiltInScalar
  | bool | int | uint | float
deriving DecidableEq, Inhabited

structure BuiltInShape where
  scalar : BuiltInScalar
  lanes : UInt32 := 1
deriving DecidableEq, Inhabited

/-! ## Catalogue -/

structure BuiltInInfo where
  code : UInt32
  storage : StorageClass
  shape : BuiltInShape
  capability : Option Capability
  stages : List ShaderStage
deriving DecidableEq, Inhabited

def preRasterStages : List ShaderStage := [.vertex, .tessControl, .tessEval, .geometry, .mesh]

def workgroupStages : List ShaderStage := [.compute, .task, .mesh]

end Spirv

namespace BuiltIn

open Spirv

def info : BuiltIn → BuiltInInfo
  | .position => ⟨0, .output, ⟨.float, 4⟩, none, preRasterStages⟩
  | .pointSize => ⟨1, .output, ⟨.float, 1⟩, none, preRasterStages⟩
  | .vertexIndex => ⟨42, .input, ⟨.int, 1⟩, none, [.vertex]⟩
  | .instanceIndex => ⟨43, .input, ⟨.int, 1⟩, none, [.vertex]⟩
  | .primitiveId =>
    ⟨7, .input, ⟨.int, 1⟩, some .geometry,
      [.fragment, .tessControl, .tessEval, .geometry, .rayIntersect, .rayAnyHit, .rayClosestHit]⟩
  | .invocationId => ⟨8, .input, ⟨.int, 1⟩, none, [.tessControl, .geometry]⟩
  | .tessCoord => ⟨13, .input, ⟨.float, 3⟩, some .tessellation, [.tessEval]⟩
  | .patchVertices => ⟨14, .input, ⟨.int, 1⟩, some .tessellation, [.tessControl, .tessEval]⟩
  | .fragCoord => ⟨15, .input, ⟨.float, 4⟩, none, [.fragment]⟩
  | .pointCoord => ⟨16, .input, ⟨.float, 2⟩, none, [.fragment]⟩
  | .frontFacing => ⟨17, .input, ⟨.bool, 1⟩, none, [.fragment]⟩
  | .sampleId => ⟨18, .input, ⟨.int, 1⟩, some .sampleRateShading, [.fragment]⟩
  | .samplePosition => ⟨19, .input, ⟨.float, 2⟩, some .sampleRateShading, [.fragment]⟩
  | .fragDepth => ⟨22, .output, ⟨.float, 1⟩, none, [.fragment]⟩
  | .helperInvocation => ⟨23, .input, ⟨.bool, 1⟩, none, [.fragment]⟩
  | .numWorkgroups => ⟨24, .input, ⟨.uint, 3⟩, none, workgroupStages⟩
  | .workgroupId => ⟨26, .input, ⟨.uint, 3⟩, none, workgroupStages⟩
  | .localInvocationId => ⟨27, .input, ⟨.uint, 3⟩, none, workgroupStages⟩
  | .globalInvocationId => ⟨28, .input, ⟨.uint, 3⟩, none, workgroupStages⟩
  | .localInvocationIndex => ⟨29, .input, ⟨.uint, 1⟩, none, workgroupStages⟩

def isLegalIn (b : BuiltIn) (stage : ShaderStage) : Bool := b.info.stages.contains stage

end BuiltIn

namespace Spirv

/-! ## The vertex output block -/

def perVertexMembers : List (String × UInt32) :=
  [("gl_Position", 0), ("gl_PointSize", 1), ("gl_ClipDistance", 3), ("gl_CullDistance", 4)]

def perVertexMember? (stage : Option ShaderStage) (b : BuiltIn) : Option UInt32 :=
  match stage, b with
  | some .vertex, .position => some 0
  | some .vertex, .pointSize => some 1
  | _, _ => none

end Spirv

end ShaderIR
