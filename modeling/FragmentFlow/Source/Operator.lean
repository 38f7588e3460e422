/-!
# Operators and literals

The operators of expressions with the symbols they are written with, and the
literal constants.
-/

namespace FragmentFlow

/-- Binary operators; `and` and `or` evaluate their right operand only when the
left one does not decide. -/
inductive BinaryOp where
  | add | sub | mul | div | rem
  | eq | ne | lt | le | gt | ge
  | and | or
  deriving DecidableEq, Repr

namespace BinaryOp

/-- All binary operators. -/
def all : List BinaryOp :=
  [.add, .sub, .mul, .div, .rem, .eq, .ne, .lt, .le, .gt, .ge, .and, .or]

/-- The word that names an operator in a unit. -/
def tag : BinaryOp → String
  | add => "add" | sub => "sub" | mul => "mul" | div => "div" | rem => "rem"
  | eq => "eq" | ne => "ne" | lt => "lt" | le => "le" | gt => "gt" | ge => "ge"
  | and => "and" | or => "or"

/-- The symbol of an operator in source text. -/
def symbol : BinaryOp → String
  | add => "+" | sub => "-" | mul => "*" | div => "/" | rem => "%"
  | eq => "==" | ne => "!=" | lt => "<" | le => "<=" | gt => ">" | ge => ">="
  | and => "&&" | or => "||"

/-- Whether the right operand may be skipped. -/
def isShortCircuit : BinaryOp → Bool
  | and | or => true
  | _ => false

/-- Whether evaluation may raise: division and remainder do so on a zero
divisor. -/
def canThrow : BinaryOp → Bool
  | div | rem => true
  | _ => false

/-- The operator with a given tag. -/
def ofTag? (tag : String) : Option BinaryOp :=
  all.find? fun op => op.tag == tag

/-- A binary operator is found by its tag. -/
theorem ofTag?_tag (op : BinaryOp) : ofTag? op.tag = some op := by
  cases op <;> decide

end BinaryOp

/-- Unary operators. -/
inductive UnaryOp where
  | not | neg
  deriving DecidableEq, Repr

namespace UnaryOp

/-- All unary operators. -/
def all : List UnaryOp := [.not, .neg]

/-- The word that names an operator in a unit. -/
def tag : UnaryOp → String
  | not => "not" | neg => "neg"

/-- The symbol of an operator in source text. -/
def symbol : UnaryOp → String
  | not => "!" | neg => "-"

/-- The operator with a given tag. -/
def ofTag? (tag : String) : Option UnaryOp :=
  all.find? fun op => op.tag == tag

/-- A unary operator is found by its tag. -/
theorem ofTag?_tag (op : UnaryOp) : ofTag? op.tag = some op := by
  cases op <;> decide

end UnaryOp

/-- Literal constants; integers are signed 64-bit words. -/
inductive Literal where
  | int (value : Int64)
  | bool (value : Bool)
  | str (value : String)
  | null
  deriving DecidableEq, Repr

end FragmentFlow
