import FragmentFlow.Tree.Render

/-!
# The lattice of constants

What is known about the value of an expression: nothing reaches it, it is one
known constant, or it may be anything.
-/

namespace FragmentFlow

/-- A value of the flat lattice of constants. -/
inductive Constant where
  | bottom
  | int (value : Int64)
  | bool (value : Bool)
  | str (value : String)
  | null
  | top
  deriving DecidableEq, Repr

namespace Constant

/-- The constant of a literal. -/
def ofLiteral : Literal → Constant
  | .int value => int value
  | .bool value => bool value
  | .str value => str value
  | .null => null

/-- The least constant above two constants. -/
def join (a b : Constant) : Constant :=
  match a, b with
  | bottom, c | c, bottom => c
  | a, b => if a = b then a else top

/-- The order of the lattice. -/
def isBelow (a b : Constant) : Bool :=
  a = bottom || b = top || a = b

/-- Whether a constant is a single known value. -/
def isKnown : Constant → Bool
  | bottom | top => false
  | _ => true

/-- The truth value of a constant. -/
def bool? : Constant → Option Bool
  | bool value => some value
  | _ => none

/-- The integer of a constant. -/
def int? : Constant → Option Int64
  | int value => some value
  | _ => none

/-- A constant in words. -/
def describe : Constant → String
  | bottom => "⊥"
  | int value => (Literal.int value).render
  | bool value => (Literal.bool value).render
  | str value => (Literal.str value).render
  | null => Literal.null.render
  | top => "⊤"

end Constant

end FragmentFlow
