import ShaderIR.CommandLine.Options
import ShaderIR.Listing.Reader
import ShaderIR.Settings.Reader
import ShaderIR.Target

/-!
What a run of the command line does. Files are given by their contents.
-/

namespace ShaderIR.CommandLine

inductive Failure
  | settings (path : String)
  | input (path : String)
  | listing (cause : AssemblyError)
  | findings (count : Nat)
  | unknownTarget (identifier : String)
  | compilation (cause : CompileError)
  | diagnostics (target : Target)
  | binaryToTerminal
  | write (path : String)
deriving DecidableEq, Inhabited

def Failure.message : Failure → String
  | .settings path => "failed to load settings from " ++ path
  | .input path => "failed to read " ++ path
  | .listing _ => "IR listing parse failed"
  | .findings count => "validation failed with " ++ toString count ++ " error(s)"
  | .unknownTarget identifier =>
    "unknown target '" ++ identifier ++ "' (available: "
      ++ ", ".intercalate Target.allIdentifiers ++ ")"
  | .compilation _ => "backend compilation failed"
  | .diagnostics target => target.name ++ " reported errors"
  | .binaryToTerminal => "backend produced binary output but no --output path was specified"
  | .write path => "failed to write " ++ path

structure Outcome where
  printed : String := ""
  messages : List String := []
  files : List (String × Content) := []
  failure : Option Failure := none
deriving DecidableEq, Inhabited

namespace Outcome

def fail (o : Outcome) (failure : Failure) : Outcome := { o with failure := some failure }

def say (o : Outcome) (messages : List String) : Outcome :=
  { o with messages := o.messages ++ messages }

end Outcome

/-- The settings of a run: those of the settings file, overruled by the options. -/
def Options.settings (o : Options) (read : String → Option String) : Except Failure Settings := do
  let base ← match o.config with
    | none => pure {}
    | some path =>
      match (read path).bind Settings.parse? with
      | some settings => pure settings
      | none => throw (.settings path)
  return { base with
    optimize := o.optimize.getD base.optimize
    validation := o.validation.getD base.validation }

def deliver (output : Option String) (o : Outcome) : List OutputFile → Outcome
  | [] => o
  | file :: rest =>
    match output, file.content with
    | some path, content => deliver output { o with files := o.files ++ [(path, content)] } rest
    | none, .text s => deliver output { o with printed := o.printed ++ s } rest
    | none, .binary _ => o.fail .binaryToTerminal

def compileTo (options : Options) (settings : Settings) (asm : Assembler) (o : Outcome) :
    Outcome :=
  match Target.find? options.target with
  | none => o.fail (.unknownTarget options.target)
  | some target =>
    match target.compile asm settings with
    | .error cause => o.fail (.compilation cause)
    | .ok output =>
      let o := o.say (output.diagnostics.map (·.text))
      if output.hasErrors then o.fail (.diagnostics target)
      else deliver options.output o output.files

def process (options : Options) (settings : Settings) (asm : Assembler) : Outcome :=
  let findings := asm.validate settings.validation
  if findings.isEmpty then
    let asm := (Pipeline.ofLevel settings.optimize).run asm
    let o : Outcome :=
      if options.emitListing then { messages := Listing.lines asm ++ [""] } else {}
    if options.dryRun then o else compileTo options settings asm o
  else
    { messages := findings.map fun p => "Error: " ++ p.text
      failure := some (.findings findings.length) }

def run (options : Options) (read : String → Option String) : Outcome :=
  match options.settings read with
  | .error failure => ({} : Outcome).fail failure
  | .ok settings =>
    match read options.input with
    | none => ({} : Outcome).fail (.input options.input)
    | some text =>
      match Listing.parse text with
      | .error cause => ({} : Outcome).fail (.listing cause)
      | .ok asm => process options settings asm

end ShaderIR.CommandLine
