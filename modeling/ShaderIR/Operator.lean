/-!
The operators that expressions, comparisons and conversions carry as an operand word.
-/

namespace ShaderIR

inductive Operator
  | none
  | add | sub | mul | div | intDiv | mod | pow
  | bitAnd | bitOr | bitXor | shiftLeft | shiftRight
  | eq | ne | gt | lt | ge | le
  | logicAnd | logicOr
  | append
  | abs | neg | bitNot | boolNot
deriving DecidableEq, Inhabited

inductive OperatorFamily
  | arithmetic | bitwise | logical | unary | misc
deriving DecidableEq, Inhabited

namespace Operator

def all : List Operator :=
  [.none, .add, .sub, .mul, .div, .intDiv, .mod, .pow, .bitAnd, .bitOr, .bitXor, .shiftLeft,
   .shiftRight, .eq, .ne, .gt, .lt, .ge, .le, .logicAnd, .logicOr, .append, .abs, .neg, .bitNot,
   .boolNot]

def code (op : Operator) : Nat := op.ctorIdx

def ofCode? (n : Nat) : Option Operator := all[n]?

def family : Operator → OperatorFamily
  | .add | .sub | .mul | .div | .intDiv | .mod | .pow => .arithmetic
  | .bitAnd | .bitOr | .bitXor | .shiftLeft | .shiftRight => .bitwise
  | .eq | .ne | .gt | .lt | .ge | .le | .logicAnd | .logicOr => .logical
  | .abs | .neg | .bitNot | .boolNot => .unary
  | .none | .append => .misc

def isLogical : Operator → Bool
  | .logicAnd | .logicOr | .boolNot => true
  | _ => false

def isComparison : Operator → Bool
  | .eq | .ne | .gt | .lt | .ge | .le => true
  | _ => false

def symbol : Operator → String
  | .none => "none"
  | .add => "+"
  | .sub => "-"
  | .mul => "*"
  | .div => "/"
  | .intDiv => "//"
  | .mod => "%"
  | .pow => "**"
  | .bitAnd => "&"
  | .bitOr => "|"
  | .bitXor => "^"
  | .shiftLeft => "<<"
  | .shiftRight => ">>"
  | .eq => "=="
  | .ne => "!="
  | .gt => ">"
  | .lt => "<"
  | .ge => ">="
  | .le => "<="
  | .logicAnd => "&&"
  | .logicOr => "||"
  | .append => "~"
  | .abs => "abs"
  | .neg => "neg"
  | .bitNot => "bitneg"
  | .boolNot => "!"

end Operator

end ShaderIR
