/-!
Values of TOML documents, and the rules on which tables may be extended.
-/

namespace ShaderIR.Toml

inductive Origin
  /-- Opened by its own header. -/
  | header
  /-- Passed through by the header of another table. -/
  | implied
  /-- Passed through by a dotted key. -/
  | dotted
  /-- Written in braces. -/
  | inline
deriving DecidableEq, Inhabited

/-- A value of a document. Floats and dates are kept as they are spelled. -/
inductive Value
  | string (s : String)
  | integer (n : Int)
  | float (spelling : String)
  | boolean (b : Bool)
  | dateTime (spelling : String)
  | array (items : List Value)
  | table (origin : Origin) (entries : List (String × Value))
  /-- Tables opened by headers in double brackets, the last one first. -/
  | tables (items : List (List (String × Value)))
deriving Inhabited

abbrev Entries := List (String × Value)

namespace Entries

def get? (es : Entries) (key : String) : Option Value := (es.find? (·.1 == key)).map (·.2)

def set (es : Entries) (key : String) (v : Value) : Entries :=
  es.map fun e => if e.1 == key then (key, v) else e

def add? (es : Entries) (key : String) (v : Value) : Option Entries :=
  if (es.get? key).isSome then none else some (es ++ [(key, v)])

/-- Adds a value below the tables that a dotted key passes through; `open'` says whether this one
may take it. -/
def addDotted? (open' : Bool) (path : List String) (key : String) (v : Value) (es : Entries) :
    Option Entries :=
  match path with
  | [] => if open' then es.add? key v else none
  | k :: rest =>
    match es.get? k with
    | none => do return es ++ [(k, .table .dotted (← addDotted? true rest key v []))]
    | some (.table .dotted inner) => do
      return es.set k (.table .dotted (← addDotted? true rest key v inner))
    | some (.table .implied inner) => do
      return es.set k (.table .implied (← addDotted? false rest key v inner))
    | some (.tables (last :: earlier)) => do
      return es.set k (.tables ((← addDotted? false rest key v last) :: earlier))
    | some _ => none

/-- Changes what stands at a path of keys. Tables on the way are made if they are missing. -/
def modifyAt? (path : List String) (key : String) (f : Option Value → Option Value)
    (es : Entries) : Option Entries :=
  match path with
  | [] =>
    match es.get? key with
    | none => do return es ++ [(key, ← f none)]
    | some v => do return es.set key (← f (some v))
  | k :: rest =>
    match es.get? k with
    | none => do return es ++ [(k, .table .implied (← modifyAt? rest key f []))]
    | some (.table .inline _) => none
    | some (.table origin inner) => do
      return es.set k (.table origin (← modifyAt? rest key f inner))
    | some (.tables (last :: earlier)) => do
      return es.set k (.tables ((← modifyAt? rest key f last) :: earlier))
    | some _ => none

def openTable? (path : List String) (key : String) (es : Entries) : Option Entries :=
  es.modifyAt? path key fun
    | none => some (.table .header [])
    | some (.table .implied inner) => some (.table .header inner)
    | some _ => none

def openElement? (path : List String) (key : String) (es : Entries) : Option Entries :=
  es.modifyAt? path key fun
    | none => some (.tables [[]])
    | some (.tables items) => some (.tables ([] :: items))
    | some _ => none

def modifyOpen? (path : List String) (key : String) (f : Entries → Option Entries)
    (es : Entries) : Option Entries :=
  es.modifyAt? path key fun
    | some (.table origin inner) => do return .table origin (← f inner)
    | some (.tables (last :: earlier)) => do return .tables ((← f last) :: earlier)
    | _ => none

end Entries

end ShaderIR.Toml
