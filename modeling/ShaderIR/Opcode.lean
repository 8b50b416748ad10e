/-!
The opcodes of the instruction stream and how they are classified. An opcode's position in
`Opcode.all` is its ordinal.
-/

namespace ShaderIR

inductive SectionKind
  | stage | function | record
deriving DecidableEq, Inhabited

def SectionKind.text : SectionKind → String
  | .stage => "shader stage"
  | .function => "function"
  | .record => "struct"

inductive Opcode
  | unknown | stageBegin | stageEnd | function | functionArg | functionEnd
  | localVar | globalVar | inputVar | outputVar | descriptorVar | call
  | callArg | voidType | floatType | sintType | uintType | arrayType
  | vectorType | matrixType | structType | structMember | structEnd | boolType
  | pointerType | tupleType | label | jump | branch | loopMerge
  | assign | compare | cast | construct | constructArg | deref
  | expand | binary | unary | intToFloat | invokePos | invokeSize
  | builtIn | arrayLit | arrayElem | boolLit | floatLit | intLit
  | stringLit | member | null | readVar | toSigned | element
  | toUnsigned | swizzle | zero | ret | retValue | discard
deriving DecidableEq, Inhabited

namespace Opcode

def all : List Opcode :=
  [.unknown, .stageBegin, .stageEnd, .function, .functionArg, .functionEnd, .localVar,
   .globalVar, .inputVar, .outputVar, .descriptorVar, .call, .callArg, .voidType, .floatType,
   .sintType, .uintType, .arrayType, .vectorType, .matrixType, .structType, .structMember,
   .structEnd, .boolType, .pointerType, .tupleType, .label, .jump, .branch, .loopMerge,
   .assign, .compare, .cast, .construct, .constructArg, .deref, .expand, .binary, .unary,
   .intToFloat, .invokePos, .invokeSize, .builtIn, .arrayLit, .arrayElem, .boolLit, .floatLit,
   .intLit, .stringLit, .member, .null, .readVar, .toSigned, .element, .toUnsigned, .swizzle,
   .zero, .ret, .retValue, .discard]

def name : Opcode → String
  | .unknown => "UNKNOWN"
  | .stageBegin => "SHADER_STAGE"
  | .stageEnd => "SHADER_STAGE_END"
  | .function => "FUNCTION"
  | .functionArg => "VAR_FUNC_ARG"
  | .functionEnd => "FUNCTION_END"
  | .localVar => "VAR_LOCAL"
  | .globalVar => "VAR_GLOBAL"
  | .inputVar => "VAR_SHADER_IN"
  | .outputVar => "VAR_SHADER_OUT"
  | .descriptorVar => "VAR_DESCRIPTOR"
  | .call => "CALL"
  | .callArg => "CALL_ARG"
  | .voidType => "TYPE_VOID"
  | .floatType => "TYPE_FLOAT"
  | .sintType => "TYPE_INT_SIGN"
  | .uintType => "TYPE_INT_UNSIGN"
  | .arrayType => "TYPE_ARRAY"
  | .vectorType => "TYPE_VECTOR"
  | .matrixType => "TYPE_MATRIX"
  | .structType => "TYPE_STRUCT"
  | .structMember => "STRUCT_MEMBER"
  | .structEnd => "STRUCT_END"
  | .boolType => "TYPE_BOOL"
  | .pointerType => "TYPE_PTR"
  | .tupleType => "TYPE_TUPLE"
  | .label => "LABEL"
  | .jump => "JUMP"
  | .branch => "JUMP_COND"
  | .loopMerge => "LOOP"
  | .assign => "ASSIGN"
  | .compare => "COMPARE"
  | .cast => "VALUE_CAST"
  | .construct => "VALUE_CONSTRUCT"
  | .constructArg => "CONSTRUCT_ARG"
  | .deref => "VALUE_DEREF"
  | .expand => "VALUE_EXPAND"
  | .binary => "VALUE_EXPR"
  | .unary => "VALUE_EXPR_UNARY"
  | .intToFloat => "VALUE_INT_TO_FP"
  | .invokePos => "VALUE_INVOKE_POS"
  | .invokeSize => "VALUE_INVOKE_SIZE"
  | .builtIn => "VALUE_BUILTIN"
  | .arrayLit => "VALUE_LIT_ARRAY"
  | .arrayElem => "LIT_ARRAY_ELEM"
  | .boolLit => "VALUE_LIT_BOOL"
  | .floatLit => "VALUE_LIT_FP"
  | .intLit => "VALUE_LIT_INT"
  | .stringLit => "VALUE_LIT_STR"
  | .member => "VALUE_MEMBER"
  | .null => "VALUE_NULL"
  | .readVar => "VALUE_READ_VAR"
  | .toSigned => "VALUE_SIGN"
  | .element => "VALUE_SUBARRAY"
  | .toUnsigned => "VALUE_UNSIGN"
  | .swizzle => "VALUE_VEC_SWIZZLE"
  | .zero => "VALUE_ZERO"
  | .ret => "RETURN"
  | .retValue => "RETURN_VALUE"
  | .discard => "DISCARD"

def ordinal (op : Opcode) : Nat := op.ctorIdx

def ofOrdinal? (n : Nat) : Option Opcode := all[n]?

def ofName? (s : String) : Option Opcode := all.find? (·.name == s)

/-! ## Classification -/

def isType : Opcode → Bool
  | .voidType | .floatType | .sintType | .uintType | .arrayType | .vectorType | .matrixType
  | .structType | .boolType | .pointerType | .tupleType => true
  | _ => false

def isValue : Opcode → Bool
  | .call | .compare | .cast | .construct | .deref | .expand | .binary | .unary | .intToFloat
  | .invokePos | .invokeSize | .builtIn | .arrayLit | .boolLit | .floatLit | .intLit | .stringLit
  | .member | .null | .readVar | .toSigned | .element | .toUnsigned | .swizzle | .zero => true
  | _ => false

def isPlace : Opcode → Bool
  | .deref | .member | .readVar | .element => true
  | _ => false

def isVar : Opcode → Bool
  | .localVar | .globalVar | .functionArg | .inputVar | .outputVar | .descriptorVar => true
  | _ => false

def isLiteral : Opcode → Bool
  | .boolLit | .floatLit | .intLit | .stringLit | .null | .zero => true
  | _ => false

/-- Instructions that only follow a header, which states in its first operand how many follow. -/
def isTrailer : Opcode → Bool
  | .callArg | .constructArg | .arrayElem | .structMember | .functionArg => true
  | _ => false

def trailer? : Opcode → Option Opcode
  | .function => some .functionArg
  | .call => some .callArg
  | .construct => some .constructArg
  | .arrayLit => some .arrayElem
  | .structType => some .structMember
  | _ => none

/-- Opcodes whose result may be dropped when nothing refers to it. -/
def isPure (op : Opcode) : Bool :=
  (op.isType && op != .structType) || (op.isValue && op != .call)

def opens? : Opcode → Option SectionKind
  | .stageBegin => some .stage
  | .function => some .function
  | .structType => some .record
  | _ => none

def closes? : Opcode → Option SectionKind
  | .stageEnd => some .stage
  | .functionEnd => some .function
  | .structEnd => some .record
  | _ => none

/-- Opcodes whose references may point later in the stream, as branch targets do. -/
def allowsForward : Opcode → Bool
  | .jump | .branch | .loopMerge => true
  | _ => false

end Opcode

end ShaderIR
