import ShaderIR.Pipeline
import ShaderIR.Text.Number

/-!
The options of the command line: `--target ir`, `--target=ir`, `-t ir`, `-tir` and `-t=ir` are the
same.
-/

namespace ShaderIR.CommandLine

/-! ## Options -/

inductive ValueOption
  | target | output | config | optimize | validation
deriving DecidableEq, Inhabited

inductive Flag
  | emitListing | dryRun | verbose
deriving DecidableEq, Inhabited

def ValueOption.ofName? : String → Option ValueOption
  | "target" => some .target
  | "output" => some .output
  | "config" => some .config
  | "opt-level" => some .optimize
  | "validation" => some .validation
  | _ => none

def ValueOption.ofLetter? : Char → Option ValueOption
  | 't' => some .target
  | 'o' => some .output
  | _ => none

def Flag.ofName? : String → Option Flag
  | "emit-ir" => some .emitListing
  | "dry-run" => some .dryRun
  | "verbose" => some .verbose
  | _ => none

def Flag.ofLetter? : Char → Option Flag
  | 'v' => some .verbose
  | _ => none

inductive UsageError
  | unknownArgument (arg : String)
  | missingValue (option : ValueOption)
  | unexpectedValue (flag : Flag)
  | invalidValue (option : ValueOption) (value : String)
  | repeatedOption (option : ValueOption)
  | repeatedFlag (flag : Flag)
  | emptyInput
  | extraInput (arg : String)
  | missingInput
deriving DecidableEq, Inhabited

structure Draft where
  input : Option String := none
  target : Option String := none
  output : Option String := none
  config : Option String := none
  optimize : Option OptimizeLevel := none
  validation : Option ValidationLevel := none
  emitListing : Bool := false
  dryRun : Bool := false
  verbosity : Nat := 0
deriving DecidableEq, Inhabited

/-! ## Values -/

/-- Reads a number that fits into a byte. A plus sign may stand in front. -/
def byte? (s : String) : Option Nat :=
  let digits := match s.toList with
    | '+' :: rest => rest
    | cs => cs
  (Text.readDigits? 10 digits).filter (· < 256)

def path? (s : String) : Option String := if s.isEmpty then none else some s

namespace Draft

def fill {α : Type} (option : ValueOption) (text : String) (old new : Option α)
    (done : Option α → Draft) : Except UsageError Draft :=
  match old, new with
  | some _, _ => .error (.repeatedOption option)
  | none, none => .error (.invalidValue option text)
  | none, some v => .ok (done (some v))

def setValue (d : Draft) (option : ValueOption) (v : String) : Except UsageError Draft :=
  match option with
  | .target => fill option v d.target (some v) fun target => { d with target }
  | .output => fill option v d.output (path? v) fun output => { d with output }
  | .config => fill option v d.config (path? v) fun config => { d with config }
  | .optimize =>
    fill option v d.optimize ((byte? v).bind OptimizeLevel.ofNumber?) fun optimize =>
      { d with optimize }
  | .validation =>
    fill option v d.validation (ValidationLevel.ofName v).toOption fun validation =>
      { d with validation }

/-- Takes a flag. Only the one for more messages may be repeated. -/
def setFlag (d : Draft) (flag : Flag) : Except UsageError Draft :=
  match flag with
  | .emitListing =>
    if d.emitListing then .error (.repeatedFlag flag) else .ok { d with emitListing := true }
  | .dryRun => if d.dryRun then .error (.repeatedFlag flag) else .ok { d with dryRun := true }
  | .verbose => .ok { d with verbosity := d.verbosity + 1 }

def setInput (d : Draft) (arg : String) : Except UsageError Draft :=
  match d.input with
  | some _ => .error (.extraInput arg)
  | none => if arg.isEmpty then .error .emptyInput else .ok { d with input := some arg }

end Draft

/-! ## Arguments -/

inductive Taken
  | complete (d : Draft)
  | awaiting (d : Draft) (option : ValueOption)
deriving DecidableEq, Inhabited

def takeLong (d : Draft) (name : String) (value : Option String) : Except UsageError Taken :=
  match ValueOption.ofName? name, Flag.ofName? name, value with
  | some option, _, some v => return .complete (← d.setValue option v)
  | some option, _, none => return .awaiting d option
  | none, some flag, some _ => .error (.unexpectedValue flag)
  | none, some flag, none => return .complete (← d.setFlag flag)
  | none, none, _ => .error (.unknownArgument name)

def takeLetters (d : Draft) : List Char → Except UsageError Taken
  | [] => .ok (.complete d)
  | c :: rest =>
    match ValueOption.ofLetter? c, Flag.ofLetter? c, rest with
    | some option, _, [] => .ok (.awaiting d option)
    | some option, _, '=' :: v => return .complete (← d.setValue option (String.ofList v))
    | some option, _, v => return .complete (← d.setValue option (String.ofList v))
    | none, some flag, rest => do takeLetters (← d.setFlag flag) rest
    | none, none, _ => .error (.unknownArgument (String.singleton c))

def isName (arg : String) : Bool :=
  match arg.toList with
  | '-' :: _ :: _ => true
  | _ => false

def takeArgument (d : Draft) (arg : String) : Except UsageError Taken :=
  match arg.toList with
  | '-' :: '-' :: cs =>
    match cs.span (· != '=') with
    | (name, []) => takeLong d (String.ofList name) none
    | (name, _ :: v) => takeLong d (String.ofList name) (some (String.ofList v))
  | '-' :: c :: cs => takeLetters d (c :: cs)
  | _ => do return .complete (← d.setInput arg)

def takeAll (d : Draft) : List String → Except UsageError Draft
  | [] => .ok d
  | "--" :: rest => rest.foldlM Draft.setInput d
  | arg :: rest => do
    match ← takeArgument d arg, rest with
    | .complete d, rest => takeAll d rest
    | .awaiting _ option, [] => .error (.missingValue option)
    | .awaiting d option, v :: rest =>
      if isName v then .error (.missingValue option) else takeAll (← d.setValue option v) rest

structure Options where
  input : String
  target : String
  output : Option String
  config : Option String
  optimize : Option OptimizeLevel
  validation : Option ValidationLevel
  emitListing : Bool
  dryRun : Bool
  verbosity : Nat
deriving DecidableEq, Inhabited

def defaultTarget : String := "spirv"

def Options.parse (args : List String) : Except UsageError Options := do
  let d ← takeAll {} args
  match d.input with
  | none => throw .missingInput
  | some input =>
    return {
      input
      target := d.target.getD defaultTarget
      output := d.output
      config := d.config
      optimize := d.optimize
      validation := d.validation
      emitListing := d.emitListing
      dryRun := d.dryRun
      verbosity := d.verbosity }

end ShaderIR.CommandLine
