import ShaderIR.Pipeline

/-!
The settings that every stage of a compilation shares.
-/

namespace ShaderIR

structure Settings where
  optimize : OptimizeLevel := .debug
  validation : ValidationLevel := .basic
  /-- The types that stand for names left open in the source, sorted by name. -/
  dynamicTypes : List (String × String) := []
  version : UInt8 × UInt8 := (1, 5)
deriving DecidableEq, Inhabited

def OptimizeLevel.title : OptimizeLevel → String
  | .debug => "Debug"
  | .basic => "Basic"
  | .balanced => "Balanced"
  | .performance => "Performance"

def ValidationLevel.title : ValidationLevel → String
  | .none => "None"
  | .basic => "Basic"
  | .full => "Full"

namespace Settings

def versionText (s : Settings) : String :=
  toString s.version.1.toNat ++ "." ++ toString s.version.2.toNat

def pipeline (s : Settings) : Pipeline := .ofLevels s.optimize s.validation

def text (s : Settings) : String :=
  "BackendOptions \x7b opt_level: " ++ s.optimize.title ++ ", validation: " ++ s.validation.title
    ++ ", spirv: " ++ s.versionText ++ " \x7d"

end Settings

end ShaderIR
