import ShaderIR.Instruction

/-!
Resolved names: lexically scoped tables whose modules hold tables of their own.
-/

namespace ShaderIR

/-- Everything that a name can stand for. A module holds the scopes of its own table, innermost
first. -/
inductive Symbol
  | module (scopes : List (List (String × Symbol)))
  | function (id type : ResultId)
  | value (v : TypedValue)
  | storage (var type : ResultId)
  | type (id : ResultId)
  | none
deriving Inhabited

def Symbol.typedValue? : Symbol → Option TypedValue
  | .function id ty => some ⟨ty, id⟩
  | .value v => some v
  | .storage var ty => some ⟨ty, var⟩
  | .module _ | .type _ | .none => Option.none

/-- Scopes of names, innermost first. There is always an outermost scope. -/
structure SymbolTable where
  scopes : List (List (String × Symbol)) := [[]]
deriving Inhabited

namespace SymbolTable

variable (t : SymbolTable)

def pushScope : SymbolTable := ⟨[] :: t.scopes⟩

def popScope : SymbolTable :=
  match t.scopes with
  | _ :: outer :: rest => ⟨outer :: rest⟩
  | scopes => ⟨scopes⟩

def depth : Nat := t.scopes.length

def toSymbol : Symbol := .module t.scopes

def add? (name : String) (symbol : Symbol) : Option SymbolTable :=
  match t.scopes with
  | [] => none
  | scope :: outer =>
    if scope.any (·.1 == name) then none else some ⟨((name, symbol) :: scope) :: outer⟩

def find? (name : String) : Option Symbol :=
  t.scopes.findSome? fun scope => (scope.find? (·.1 == name)).map (·.2)

/-- Follows a path through modules; all but the last name have to be modules. -/
def findPath? (t : SymbolTable) : List String → Option Symbol
  | [] => none
  | [name] => t.find? name
  | name :: rest =>
    match t.find? name with
    | some (.module scopes) => findPath? ⟨scopes⟩ rest
    | _ => none

end SymbolTable

end ShaderIR
