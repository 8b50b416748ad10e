import ShaderIR.Settings
import ShaderIR.Toml.Reader

/-!
Reading settings from TOML. Keys that are left out keep their defaults, and unknown keys mean
nothing.
-/

namespace ShaderIR.Settings

open Toml

/-- The name of a level: a string, or a table whose only key is the name and holds nothing. -/
def levelName? : Value → Option String
  | .string s => some s
  | .table _ [(name, .table _ [])] | .table _ [(name, .array [])] => some name
  | _ => none

def optimizeLevel? (v : Value) : Option OptimizeLevel := (levelName? v).bind OptimizeLevel.ofName?

def validationLevel? (v : Value) : Option ValidationLevel :=
  (levelName? v).bind fun name => (ValidationLevel.ofName name).toOption

def insertSorted (e : String × String) : List (String × String) → List (String × String)
  | [] => [e]
  | d :: rest => if e.1 < d.1 then e :: d :: rest else d :: insertSorted e rest

def stringTable? : Value → Option (List (String × String))
  | .table _ entries => do
    let pairs ← entries.mapM fun
      | (key, .string s) => some (key, s)
      | _ => none
    return pairs.foldl (fun sorted e => insertSorted e sorted) []
  | _ => none

def byte? : Value → Option UInt8
  | .integer n => if 0 ≤ n && n < 256 then some n.toNat.toUInt8 else none
  | _ => none

def version? : Value → Option (UInt8 × UInt8)
  | .array [major, minor] => do return (← byte? major, ← byte? minor)
  | _ => none

def keyed {α : Type} (document : Entries) (key : String) (default : α)
    (read : Value → Option α) : Option α :=
  match document.get? key with
  | none => some default
  | some v => read v

def parse? (text : String) : Option Settings := do
  let document ← Toml.parse? text
  let defaults : Settings := {}
  return {
    optimize := ← keyed document "opt_level" defaults.optimize optimizeLevel?
    validation := ← keyed document "validation" defaults.validation validationLevel?
    dynamicTypes := ← keyed document "dynamic_types" defaults.dynamicTypes stringTable?
    version := ← keyed document "spirv_version" defaults.version version? }

end ShaderIR.Settings
