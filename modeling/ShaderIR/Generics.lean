import ShaderIR.Error
import ShaderIR.Table

/-!
Generic parameters and the cache of their instantiations.
-/

namespace ShaderIR

inductive GenericArg
  | type (id : ResultId)
  | const (n : UInt64)
deriving DecidableEq, Inhabited

def GenericArg.kind : GenericArg → GenericKind
  | .type _ => .type
  | .const _ => .const

structure GenericParam where
  kind : GenericKind
  name : String
  default : Option GenericArg := none
deriving DecidableEq, Inhabited

/-- The parameters of a generic declaration, as in `vec<T, N = 4>`. -/
structure GenericSignature where
  params : List GenericParam := []
deriving DecidableEq, Inhabited

namespace GenericSignature

def minArgs (sig : GenericSignature) : Nat := (sig.params.takeWhile (·.default.isNone)).length

def maxArgs (sig : GenericSignature) : Nat := sig.params.length

def defaults? : List GenericParam → Option (List GenericArg)
  | [] => some []
  | p :: rest => do
    let arg ← p.default
    let args ← defaults? rest
    return arg :: args

def mismatch? (params : List GenericParam) (args : List GenericArg) : Option GenericParam :=
  ((params.zip args).find? fun (p, arg) => arg.kind ≠ p.kind).map (·.1)

def complete (sig : GenericSignature) (args : List GenericArg) :
    Except AssemblyError (List GenericArg) :=
  let arity : AssemblyError := .genericArity sig.minArgs sig.maxArgs args.length
  if args.length < sig.minArgs || sig.maxArgs < args.length then .error arity
  else match defaults? (sig.params.drop args.length) with
    | none => .error arity
    | some rest =>
      let full := args ++ rest
      match mismatch? sig.params full with
      | some p => .error (.genericKind p.name p.kind)
      | none => .ok full

end GenericSignature

structure InstantiationCache (δ α : Type) where
  entries : Table (δ × List GenericArg) α := {}
deriving Inhabited

namespace InstantiationCache

variable {δ α σ : Type} [DecidableEq δ]

def size (cache : InstantiationCache δ α) : Nat := cache.entries.size

/-- The instantiation of `decl` for `args`. Building may change a state, even if it fails. -/
def instantiate (cache : InstantiationCache δ α) (decl : δ) (sig : GenericSignature)
    (args : List GenericArg) (build : List GenericArg → σ → Except AssemblyError α × σ) (s : σ) :
    Except AssemblyError α × InstantiationCache δ α × σ :=
  match sig.complete args with
  | .error e => (.error e, cache, s)
  | .ok full =>
    match cache.entries.get? (decl, full) with
    | some hit => (.ok hit, cache, s)
    | none =>
      match build full s with
      | (.error e, s) => (.error e, cache, s)
      | (.ok v, s) => (.ok v, ⟨cache.entries.insert (decl, full) v⟩, s)

end InstantiationCache

end ShaderIR
