import ShaderIR.Assembler.Compaction
import ShaderIR.Assembler.LiteralMerge
import ShaderIR.Validation

/-!
Passes over a stream, and pipelines that run their transforming passes until nothing changes.
-/

namespace ShaderIR

inductive OptimizeLevel
  | debug | basic | balanced | performance
deriving DecidableEq, Inhabited

namespace OptimizeLevel

def all : List OptimizeLevel := [.debug, .basic, .balanced, .performance]

def ofNumber? (n : Nat) : Option OptimizeLevel := all[n]?

def name : OptimizeLevel → String
  | .debug => "debug"
  | .basic => "basic"
  | .balanced => "balanced"
  | .performance => "performance"

def ofName? (s : String) : Option OptimizeLevel := all.find? (·.name == s)

end OptimizeLevel

inductive Pass
  | mergeLiterals
  | flatten
  | validation (level : ValidationLevel)
deriving DecidableEq, Inhabited

namespace Pass

def name : Pass → String
  | .mergeLiterals => "literal-merge"
  | .flatten => "flatten"
  | .validation _ => "cllr-validation"

/-- Runs a pass. The second result says whether the stream changed; validation only records. -/
def run (asm : Assembler) : Pass → Assembler × Bool
  | .mergeLiterals =>
    let (redirected, asm) := asm.mergeLiterals
    (asm, 0 < redirected)
  | .flatten =>
    let size := asm.code.size
    let (renumbered, asm) := asm.flatten
    (asm, 0 < renumbered || asm.code.size != size)
  | .validation level =>
    let findings := asm.validate level
    ({ asm with log := asm.log.extend findings }, false)

end Pass

structure Pipeline where
  passes : List Pass := []
  checks : List Pass := []
deriving DecidableEq, Inhabited

namespace Pipeline

def maxRounds : Nat := 10

def ofLevel : OptimizeLevel → Pipeline
  | .debug => {}
  | .basic => { passes := [.flatten] }
  | .balanced | .performance => { passes := [.mergeLiterals, .flatten] }

def ofLevels (opt : OptimizeLevel) (validation : ValidationLevel) : Pipeline :=
  let p := ofLevel opt
  match validation with
  | .none => p
  | level => { p with checks := [.validation level] }

def passNames (p : Pipeline) : List String := (p.passes ++ p.checks).map (·.name)

/-- Runs passes one after the other, and says whether one of them changed the stream. -/
def runAll (passes : List Pass) (asm : Assembler) : Assembler × Bool :=
  passes.foldl
    (fun (asm, changed) pass =>
      let (asm, now) := pass.run asm
      (asm, changed || now))
    (asm, false)

def settle (passes : List Pass) : Nat → Assembler → Assembler
  | 0, asm => asm
  | rounds + 1, asm =>
    let (asm, changed) := runAll passes asm
    if changed then settle passes rounds asm else asm

def run (p : Pipeline) (asm : Assembler) : Assembler :=
  (runAll p.checks (settle p.passes maxRounds asm)).1

end Pipeline

end ShaderIR
