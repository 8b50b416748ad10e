import ShaderIR.Instruction
import ShaderIR.Operator

/-!
What can go wrong while a stream is assembled, and the record kept of it.
-/

namespace ShaderIR

inductive ErrorClass
  | structural
  | typing
  | binaryTarget
deriving DecidableEq, Inhabited

inductive Direction
  | input | output
deriving DecidableEq, Inhabited

def Direction.text : Direction → String
  | .input => "input"
  | .output => "output"

inductive LoopExit
  | breakLoop | continueLoop
deriving DecidableEq, Inhabited

def LoopExit.text : LoopExit → String
  | .breakLoop => "break"
  | .continueLoop => "continue"

inductive NumericKind
  | int | float
deriving DecidableEq, Inhabited

def NumericKind.text : NumericKind → String
  | .int => "int"
  | .float => "float"

inductive CompositeKind
  | array | vector | matrix
deriving DecidableEq, Inhabited

def CompositeKind.text : CompositeKind → String
  | .array => "array"
  | .vector => "vector"
  | .matrix => "matrix"

inductive GenericKind
  | type | const
deriving DecidableEq, Inhabited

def GenericKind.text : GenericKind → String
  | .type => "type"
  | .const => "constant"

/-- Why an operation on the stream was refused or is suspect. -/
inductive AssemblyError
  | opcodeMismatch (id : ResultId) (registered found : Opcode)
  | unknownId (id : ResultId)
  | redefinition (id : ResultId)
  | replaceVoid
  | notASectionMarker (opcode : Opcode)
  | sectionMismatch (expected : Option SectionKind) (found : SectionKind)
  | unclosedSection (kind : SectionKind) (header : ResultId)
  | noEnclosingLoop (statement : LoopExit)
  | directionMismatch (name : String) (existing : Direction)
  | notAType (id : ResultId)
  | notAStruct (id : ResultId)
  | notATypeOpcode (opcode : Opcode)
  | invalidWidth (kind : NumericKind) (width : UInt32)
  | invalidLength (kind : CompositeKind) (length : UInt32)
  | duplicateMember (owner member : String)
  | incompatibleTypes (source target : ResultId) (op : Operator)
  | conversionLimit (source target : ResultId) (steps : Nat)
  | genericArity (min max found : Nat)
  | genericKind (name : String) (expected : GenericKind)
  | listing (line : Nat) (message : String)
deriving DecidableEq, Inhabited

namespace AssemblyError

def kind : AssemblyError → ErrorClass
  | .notAType _ | .notAStruct _ | .notATypeOpcode _ | .invalidWidth .. | .invalidLength ..
  | .duplicateMember .. | .incompatibleTypes .. | .conversionLimit .. | .genericArity ..
  | .genericKind .. => .typing
  | _ => .structural

def message : AssemblyError → String
  | .opcodeMismatch id registered found =>
    id.text ++ " was allocated as " ++ registered.name ++ " but pushed as " ++ found.name
  | .unknownId id => id.text ++ " was never allocated"
  | .redefinition id => id.text ++ " is defined more than once"
  | .replaceVoid => "cannot replace the void id"
  | .notASectionMarker opcode => opcode.name ++ " does not open or close a section"
  | .sectionMismatch expected found =>
    found.text ++ " end does not match the open " ++ (expected.map (·.text)).getD "(nothing)"
  | .unclosedSection kind header => kind.text ++ " opened by " ++ header.text ++ " is never closed"
  | .noEnclosingLoop statement => "`" ++ statement.text ++ "` outside of a loop"
  | .directionMismatch name existing =>
    "shader variable `" ++ name ++ "` is already declared as an " ++ existing.text
  | .notAType id => id.text ++ " is not a type"
  | .notAStruct id => id.text ++ " is not a struct type"
  | .notATypeOpcode opcode => opcode.name ++ " cannot describe a type"
  | .invalidWidth kind width => "invalid " ++ kind.text ++ " width " ++ toString width.toNat
  | .invalidLength kind length => "invalid " ++ kind.text ++ " length " ++ toString length.toNat
  | .duplicateMember owner member =>
    "struct `" ++ owner ++ "` already has a member named `" ++ member ++ "`"
  | .incompatibleTypes source target op =>
    "cannot convert " ++ source.text ++ " to " ++ target.text ++ " for operator `"
      ++ op.symbol ++ "`"
  | .conversionLimit source target steps =>
    "conversion from " ++ source.text ++ " to " ++ target.text ++ " did not settle after "
      ++ toString steps ++ " steps"
  | .genericArity min max found =>
    "expected between " ++ toString min ++ " and " ++ toString max
      ++ " generic arguments, found " ++ toString found
  | .genericKind name expected =>
    "generic argument `" ++ name ++ "` must be a " ++ expected.text
  | .listing line message => "listing line " ++ toString line ++ ": " ++ message

end AssemblyError

inductive Phase
  | unknown | tokenizer | parser | treeValidation | conditionalCompilation | symbolGeneration
  | emission | validation | output
deriving DecidableEq, Inhabited

def Phase.text : Phase → String
  | .unknown => "unknown"
  | .tokenizer => "tokenizer"
  | .parser => "parser"
  | .treeValidation => "ast validation"
  | .conditionalCompilation => "conditional compilation"
  | .symbolGeneration => "symbol generation"
  | .emission => "cllr emit"
  | .validation => "cllr validation"
  | .output => "output emit"

structure Problem where
  phase : Phase
  message : String
  location : Option Location := none
  notes : List String := []
deriving DecidableEq, Inhabited

def Problem.text (p : Problem) : String :=
  "[" ++ p.phase.text ++ "] " ++ p.message
    ++ (match p.location with
      | some l => " (at " ++ l.text ++ ")"
      | none => "")
    ++ String.join (p.notes.map ("\n  note: " ++ ·))

/-- The problems recorded so far; those stated by their cause belong to `phase`. -/
structure ProblemLog where
  phase : Phase
  problems : Array Problem := #[]
deriving DecidableEq, Inhabited

namespace ProblemLog

def push (log : ProblemLog) (p : Problem) : ProblemLog :=
  { log with problems := log.problems.push p }

def record (log : ProblemLog) (e : AssemblyError) (loc : Option Location) : ProblemLog :=
  log.push { phase := log.phase, message := e.message, location := loc }

def extend (log : ProblemLog) (ps : List Problem) : ProblemLog := ps.foldl push log

def drained (log : ProblemLog) : ProblemLog := { log with problems := #[] }

end ProblemLog

end ShaderIR
