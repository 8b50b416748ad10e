import ShaderIR.Instruction
import ShaderIR.Table

/-!
Type descriptors and struct layouts. Nested types are named by the position of their descriptor, so
that equal types have equal descriptors.
-/

namespace ShaderIR

/-- Position of a descriptor among the distinct descriptors of a registry. -/
structure TypeHandle where
  slot : Nat
deriving DecidableEq, Inhabited

structure LayoutHandle where
  slot : Nat
deriving DecidableEq, Inhabited

inductive TypeDesc
  | void
  | bool
  | float (width : UInt32)
  | sint (width : UInt32)
  | uint (width : UInt32)
  | array (inner : TypeHandle) (length : UInt32)
  | vector (inner : TypeHandle) (lanes : UInt32)
  | matrix (inner : TypeHandle) (columns rows : UInt32)
  | pointer (inner : TypeHandle)
  | tuple (fst snd : TypeHandle)
  | record (layout : LayoutHandle)
deriving DecidableEq, Inhabited

namespace TypeDesc

def isInt : TypeDesc → Bool
  | .sint _ | .uint _ => true
  | _ => false

def isFloat : TypeDesc → Bool
  | .float _ => true
  | _ => false

def isScalar (d : TypeDesc) : Bool := d.isInt || d.isFloat || d == .bool

def scalarWidth? : TypeDesc → Option UInt32
  | .float w | .sint w | .uint w => some w
  | _ => none

/-- The descriptors nested directly in this one; the members of a struct are not among them. -/
def inner : TypeDesc → List TypeHandle
  | .array h _ | .vector h _ | .matrix h _ _ | .pointer h => [h]
  | .tuple a b => [a, b]
  | _ => []

end TypeDesc

/-- Members, conversions and methods of one struct declaration. Member names are unique. -/
structure StructLayout where
  name : String := ""
  members : List (String × ResultId) := []
  conversions : Table ResultId ResultId := {}
  methods : Table String (List ResultId) := {}
deriving DecidableEq, Inhabited

namespace StructLayout

variable (l : StructLayout)

def addMember? (name : String) (type : ResultId) : Option StructLayout :=
  if l.members.any (·.1 == name) then none
  else some { l with members := l.members ++ [(name, type)] }

def member? (name : String) : Option (Nat × ResultId) := do
  let i ← l.members.findIdx? (·.1 == name)
  let (_, type) ← l.members[i]?
  return (i, type)

def addConversion (target function : ResultId) : StructLayout :=
  { l with conversions := l.conversions.insert target function }

def conversion? (target : ResultId) : Option ResultId :=
  l.conversions.get? target

def addMethod (name : String) (function : ResultId) : StructLayout :=
  { l with methods := l.methods.insert name ((l.methods.get? name).getD [] ++ [function]) }

def overloads (name : String) : List ResultId :=
  (l.methods.get? name).getD []

/-- Renames every id. Conversions and methods that lose an id are forgotten. -/
def rename (f : ResultId → ResultId) : StructLayout :=
  { l with
    members := l.members.map fun (name, type) => (name, f type)
    conversions := l.conversions.filterMap fun target function =>
      if (f target).isVoid || (f function).isVoid then none else some (f target, f function)
    methods := l.methods.filterMap fun name functions =>
      some (name, (functions.map f).filter (!·.isVoid)) }

end StructLayout

end ShaderIR
