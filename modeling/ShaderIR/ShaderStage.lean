/-!
Pipeline stages, their built-in variables, and the modifiers of variables.
-/

namespace ShaderIR

/-! ## Stages -/

inductive ShaderStage
  | compute | vertex | fragment | tessControl | tessEval | geometry
  | rayGen | rayClosestHit | rayAnyHit | rayIntersect | rayMiss
  | task | mesh
deriving DecidableEq, Inhabited

namespace ShaderStage

def all : List ShaderStage :=
  [.compute, .vertex, .fragment, .tessControl, .tessEval, .geometry, .rayGen, .rayClosestHit,
   .rayAnyHit, .rayIntersect, .rayMiss, .task, .mesh]

def ofCode? (n : Nat) : Option ShaderStage := all[n]?

def name : ShaderStage → String
  | .compute => "compute"
  | .vertex => "vertex"
  | .fragment => "frag"
  | .tessControl => "tessCtrl"
  | .tessEval => "tessEval"
  | .geometry => "geom"
  | .rayGen => "rayGen"
  | .rayClosestHit => "rayClose"
  | .rayAnyHit => "rayHit"
  | .rayIntersect => "rayInt"
  | .rayMiss => "rayMiss"
  | .task => "task"
  | .mesh => "mesh"

end ShaderStage

/-! ## Built-in variables -/

inductive BuiltIn
  | position | pointSize | vertexIndex | instanceIndex | primitiveId | invocationId | tessCoord
  | patchVertices | fragCoord | pointCoord | frontFacing | sampleId | samplePosition | fragDepth
  | helperInvocation | numWorkgroups | workgroupId | localInvocationId | globalInvocationId
  | localInvocationIndex
deriving DecidableEq, Inhabited

namespace BuiltIn

def all : List BuiltIn :=
  [.position, .pointSize, .vertexIndex, .instanceIndex, .primitiveId, .invocationId, .tessCoord,
   .patchVertices, .fragCoord, .pointCoord, .frontFacing, .sampleId, .samplePosition, .fragDepth,
   .helperInvocation, .numWorkgroups, .workgroupId, .localInvocationId, .globalInvocationId,
   .localInvocationIndex]

def ofCode? (n : Nat) : Option BuiltIn := all[n]?

def name : BuiltIn → String
  | .position => "position"
  | .pointSize => "point_size"
  | .vertexIndex => "vertex_index"
  | .instanceIndex => "instance_index"
  | .primitiveId => "primitive_id"
  | .invocationId => "invocation_id"
  | .tessCoord => "tess_coord"
  | .patchVertices => "patch_vertices"
  | .fragCoord => "frag_coord"
  | .pointCoord => "point_coord"
  | .frontFacing => "front_facing"
  | .sampleId => "sample_id"
  | .samplePosition => "sample_position"
  | .fragDepth => "frag_depth"
  | .helperInvocation => "helper_invocation"
  | .numWorkgroups => "num_workgroups"
  | .workgroupId => "workgroup_id"
  | .localInvocationId => "local_invocation_id"
  | .globalInvocationId => "global_invocation_id"
  | .localInvocationIndex => "local_invocation_index"

end BuiltIn

/-! ## Variable modifiers -/

structure Modifiers where
  bits : UInt32
deriving DecidableEq, Inhabited

namespace Modifiers

def empty : Modifiers := ⟨0⟩
def isPublic : Modifiers := ⟨1⟩
def isPrivate : Modifiers := ⟨2⟩
def isShared : Modifiers := ⟨4⟩
def isStatic : Modifiers := ⟨8⟩

/-- Reads modifiers out of an operand word; only the four low bits mean something. -/
def ofBits (bits : UInt32) : Modifiers := ⟨bits &&& 0xF⟩

def union (a b : Modifiers) : Modifiers := ⟨a.bits ||| b.bits⟩

def contains (a b : Modifiers) : Bool := a.bits &&& b.bits == b.bits

end Modifiers

end ShaderIR
