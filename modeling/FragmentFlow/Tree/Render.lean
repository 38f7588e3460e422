import FragmentFlow.Text.Quoted
import FragmentFlow.Tree.Walk

/-!
# Source text of nodes

Expressions are rendered as source text; binary, conditional and assignment
operands stand in parentheses.  Every other node is named by its kind.
-/

namespace FragmentFlow

/-- A literal as source text. -/
def Literal.render : Literal → String
  | int value => toString value.toInt
  | bool true => "true"
  | bool false => "false"
  | str value => Text.quote value
  | null => "null"

namespace Tree

/-- What a node is called. -/
def Node.kindName (node : Node) : String :=
  node.shape.name

/-- Whether an expression stands in parentheses when it is an operand. -/
def Expr.needsParens : Expr → Bool
  | binary .. | conditional .. | assign .. => true
  | _ => false

/-- An operand in parentheses if it needs them. -/
def parenthesize (needed : Bool) (text : String) : String :=
  if needed then "(" ++ text ++ ")" else text

mutual

/-- An expression as source text. -/
def Expr.render : Expr → String
  | .literal _ value => value.render
  | .ident _ name => name
  | .assign _ target value => target ++ " = " ++ value.render
  | .binary _ op lhs rhs =>
    parenthesize lhs.needsParens lhs.render ++ " " ++ op.symbol ++ " " ++
      parenthesize rhs.needsParens rhs.render
  | .unary _ op operand => op.symbol ++ parenthesize operand.needsParens operand.render
  | .conditional _ cond whenTrue whenFalse =>
    parenthesize cond.needsParens cond.render ++ " ? " ++
      parenthesize whenTrue.needsParens whenTrue.render ++ " : " ++
      parenthesize whenFalse.needsParens whenFalse.render
  | .call _ callee args => callee ++ "(" ++ ", ".intercalate (renderArgs args) ++ ")"
  | .new _ ty args => "new " ++ ty ++ "(" ++ ", ".intercalate (renderArgs args) ++ ")"
  | .lambda _ params _ => "(" ++ ", ".intercalate params ++ ") -> \x7b...\x7d"

/-- Arguments as source text. -/
def renderArgs : List Expr → List String
  | [] => []
  | arg :: args => arg.render :: renderArgs args

end

/-- A node as source text. -/
def Node.render : Node → String
  | expr inner => inner.render
  | node => "<" ++ node.kindName ++ ">"

end Tree

end FragmentFlow
