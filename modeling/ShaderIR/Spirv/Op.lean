/-!
Operation codes and enumerants of the SPIR-V binary format, as far as they are emitted.
-/

namespace ShaderIR.Spirv

/-! ## Operations -/

inductive Op
  | name | memberName | extension | extInstImport | extInst | memoryModel | entryPoint
  | executionMode | capability
  | typeVoid | typeBool | typeInt | typeFloat | typeVector | typeMatrix | typeArray | typeStruct
  | typePointer | typeFunction
  | constantTrue | constantFalse | constant | constantComposite | constantNull
  | function | functionParameter | functionEnd | functionCall
  | variable | load | store | accessChain
  | decorate | memberDecorate
  | vectorExtractDynamic | vectorShuffle | compositeConstruct | compositeExtract
  | convertSToF | convertUToF | uConvert | sConvert | fConvert | bitcast
  | sNegate | fNegate | iAdd | fAdd | iSub | fSub | iMul | fMul | uDiv | sDiv | fDiv
  | uMod | sMod | fMod
  | logicalEqual | logicalNotEqual | logicalOr | logicalAnd | logicalNot | select
  | iEqual | iNotEqual | uGreaterThan | sGreaterThan | uGreaterThanEqual | sGreaterThanEqual
  | uLessThan | sLessThan | uLessThanEqual | sLessThanEqual
  | fOrdEqual | fOrdNotEqual | fOrdLessThan | fOrdGreaterThan | fOrdLessThanEqual
  | fOrdGreaterThanEqual
  | shiftRightLogical | shiftRightArithmetic | shiftLeftLogical
  | bitwiseOr | bitwiseXor | bitwiseAnd | not
  | loopMerge | label | branch | branchConditional | kill | ret | retValue | unreachable
deriving DecidableEq, Inhabited

def Op.code : Op → Nat
  | .name => 5
  | .memberName => 6
  | .extension => 10
  | .extInstImport => 11
  | .extInst => 12
  | .memoryModel => 14
  | .entryPoint => 15
  | .executionMode => 16
  | .capability => 17
  | .typeVoid => 19
  | .typeBool => 20
  | .typeInt => 21
  | .typeFloat => 22
  | .typeVector => 23
  | .typeMatrix => 24
  | .typeArray => 28
  | .typeStruct => 30
  | .typePointer => 32
  | .typeFunction => 33
  | .constantTrue => 41
  | .constantFalse => 42
  | .constant => 43
  | .constantComposite => 44
  | .constantNull => 46
  | .function => 54
  | .functionParameter => 55
  | .functionEnd => 56
  | .functionCall => 57
  | .variable => 59
  | .load => 61
  | .store => 62
  | .accessChain => 65
  | .decorate => 71
  | .memberDecorate => 72
  | .vectorExtractDynamic => 77
  | .vectorShuffle => 79
  | .compositeConstruct => 80
  | .compositeExtract => 81
  | .convertSToF => 111
  | .convertUToF => 112
  | .uConvert => 113
  | .sConvert => 114
  | .fConvert => 115
  | .bitcast => 124
  | .sNegate => 126
  | .fNegate => 127
  | .iAdd => 128
  | .fAdd => 129
  | .iSub => 130
  | .fSub => 131
  | .iMul => 132
  | .fMul => 133
  | .uDiv => 134
  | .sDiv => 135
  | .fDiv => 136
  | .uMod => 137
  | .sMod => 139
  | .fMod => 141
  | .logicalEqual => 164
  | .logicalNotEqual => 165
  | .logicalOr => 166
  | .logicalAnd => 167
  | .logicalNot => 168
  | .select => 169
  | .iEqual => 170
  | .iNotEqual => 171
  | .uGreaterThan => 172
  | .sGreaterThan => 173
  | .uGreaterThanEqual => 174
  | .sGreaterThanEqual => 175
  | .uLessThan => 176
  | .sLessThan => 177
  | .uLessThanEqual => 178
  | .sLessThanEqual => 179
  | .fOrdEqual => 180
  | .fOrdNotEqual => 182
  | .fOrdLessThan => 184
  | .fOrdGreaterThan => 186
  | .fOrdLessThanEqual => 188
  | .fOrdGreaterThanEqual => 190
  | .shiftRightLogical => 194
  | .shiftRightArithmetic => 195
  | .shiftLeftLogical => 196
  | .bitwiseOr => 197
  | .bitwiseXor => 198
  | .bitwiseAnd => 199
  | .not => 200
  | .loopMerge => 246
  | .label => 248
  | .branch => 249
  | .branchConditional => 250
  | .kill => 252
  | .ret => 253
  | .retValue => 254
  | .unreachable => 255

/-! ## Enumerants -/

inductive StorageClass
  | input | uniform | output | workgroup | invocation | function
deriving DecidableEq, Inhabited

def StorageClass.code : StorageClass → UInt32
  | .input => 1
  | .uniform => 2
  | .output => 3
  | .workgroup => 4
  | .invocation => 6
  | .function => 7

inductive Decoration
  | block | builtIn | location | binding | descriptorSet | offset
deriving DecidableEq, Inhabited

def Decoration.code : Decoration → UInt32
  | .block => 2
  | .builtIn => 11
  | .location => 30
  | .binding => 33
  | .descriptorSet => 34
  | .offset => 35

inductive Capability
  | shader | geometry | tessellation | float16 | float64 | int64 | int16 | sampleRateShading | int8
  | rayTracing | meshShading
deriving DecidableEq, Inhabited

namespace Capability

def code : Capability → UInt32
  | .shader => 1
  | .geometry => 2
  | .tessellation => 3
  | .float16 => 9
  | .float64 => 10
  | .int64 => 11
  | .int16 => 22
  | .sampleRateShading => 35
  | .int8 => 39
  | .rayTracing => 4479
  | .meshShading => 5283

def all : List Capability :=
  [.shader, .geometry, .tessellation, .float16, .float64, .int64, .int16, .sampleRateShading, .int8,
   .rayTracing, .meshShading]

end Capability

inductive Extension
  | meshShader | rayTracing
deriving DecidableEq, Inhabited

namespace Extension

def name : Extension → String
  | .meshShader => "SPV_EXT_mesh_shader"
  | .rayTracing => "SPV_KHR_ray_tracing"

def all : List Extension := [.meshShader, .rayTracing]

end Extension

inductive ExecutionMode
  | originUpperLeft | localSize
deriving DecidableEq, Inhabited

def ExecutionMode.code : ExecutionMode → UInt32
  | .originUpperLeft => 7
  | .localSize => 17

inductive ExtOp
  | fAbs | sAbs | pow
deriving DecidableEq, Inhabited

def ExtOp.code : ExtOp → UInt32
  | .fAbs => 4
  | .sAbs => 5
  | .pow => 26

def extInstSet : String := "GLSL.std.450"

def magic : UInt32 := 0x07230203

def generator : UInt32 := 1975

def addressingLogical : UInt32 := 0

def memoryModelGlsl : UInt32 := 1

def loopControlNone : UInt32 := 0

def functionControlNone : UInt32 := 0

end ShaderIR.Spirv
