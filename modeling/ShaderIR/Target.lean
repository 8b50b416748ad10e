import ShaderIR.Listing.Printer
import ShaderIR.Settings
import ShaderIR.Spirv.Emission

/-!
Targets: the formats that a finished stream can be compiled to.
-/

namespace ShaderIR

/-! ## Diagnostics -/

inductive Severity
  | error | info
deriving DecidableEq, Inhabited

structure Diagnostic where
  severity : Severity
  message : String
deriving DecidableEq, Inhabited

def Severity.text : Severity → String
  | .error => "Error"
  | .info => "Info"

def Diagnostic.text (d : Diagnostic) : String := "[" ++ d.severity.text ++ "] " ++ d.message

def Diagnostic.ofProblem (p : Problem) : Diagnostic := ⟨.error, p.text⟩

/-! ## Output -/

inductive Content
  | text (s : String)
  | binary (words : List UInt32)
deriving DecidableEq, Inhabited

structure OutputFile where
  name : String
  content : Content
deriving DecidableEq, Inhabited

structure Output where
  files : List OutputFile
  diagnostics : List Diagnostic
deriving DecidableEq, Inhabited

def Output.hasErrors (o : Output) : Bool := o.diagnostics.any (·.severity = .error)

inductive CompileError
  | unsupported (opcode : Opcode)
  | fatal (cause : Spirv.EmissionError)
  | overflow (cause : Spirv.WordOverflow)
deriving DecidableEq, Inhabited

def CompileError.message : CompileError → String
  | .unsupported opcode => "unsupported: " ++ opcode.name
  | .fatal cause => "fatal: " ++ cause.message
  | .overflow .memberOffset => "overflow: a member offset does not fit into a word"
  | .overflow .idSpace => "overflow: an id does not fit into a word"

/-! ## Targets -/

inductive Target
  | listing | spirv
deriving DecidableEq, Inhabited

namespace Target

def all : List Target := [.listing, .spirv]

def name : Target → String
  | .listing => "IR Listing"
  | .spirv => "SPIR-V"

def identifiers : Target → List String
  | .listing => ["ir", "cllr"]
  | .spirv => ["spirv", "spv"]

def allIdentifiers : List String := all.flatMap identifiers

def find? (identifier : String) : Option Target :=
  all.find? fun t => t.identifiers.contains identifier

def recorded (asm : Assembler) : List Diagnostic :=
  asm.log.problems.toList.map Diagnostic.ofProblem

def compileListing (asm : Assembler) : Output :=
  { files := [⟨"module.cllr", .text (Listing.print asm)⟩], diagnostics := recorded asm }

def compileSpirv (asm : Assembler) (settings : Settings) : Except CompileError Output := do
  match Spirv.emitModule asm settings.version.1 settings.version.2 with
  | .error cause => throw (.overflow cause)
  | .ok emission =>
    match emission.fatal with
    | some (.unsupported opcode) => throw (.unsupported opcode)
    | some cause => throw (.fatal cause)
    | none =>
      let summary := "SPIR-V " ++ settings.versionText ++ ": "
        ++ toString emission.words.length ++ " words"
      return {
        files := [⟨"module.spv", .binary emission.words⟩]
        diagnostics := recorded asm ++ emission.problems.map Diagnostic.ofProblem
          ++ [⟨.info, summary⟩] }

def compile (asm : Assembler) (settings : Settings) : Target → Except CompileError Output
  | .listing => .ok (compileListing asm)
  | .spirv => compileSpirv asm settings

end Target

end ShaderIR
