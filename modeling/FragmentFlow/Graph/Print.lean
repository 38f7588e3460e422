import FragmentFlow.Graph.Basic
import FragmentFlow.Tree.Render

/-!
# Flow graphs as text

A heading with the name and the number of nodes, then a line for every node with
its operands and its successors.
-/

namespace FragmentFlow

/-- An action in words. -/
def Graph.Action.describe : Graph.Action → String
  | entry => "entry"
  | exit => "exit"
  | exceptionalExit => "exceptional-exit"
  | param name => "param " ++ name
  | decl name => "decl " ++ name
  | literal value => "lit " ++ value.render
  | ident name => "ident " ++ name
  | assign target => "assign " ++ target
  | binary op => "binary " ++ op.symbol
  | unary op => "unary " ++ op.symbol
  | conditional => "conditional"
  | call callee => "call " ++ callee
  | new ty => "new " ++ ty
  | lambda => "lambda"
  | returnValue => "return"
  | throwValue => "throw"
  | catchParam name ty => "catch " ++ ty ++ " " ++ name
  | loopHead => "loop-head"
  | rethrow => "rethrow"

namespace Graph

/-- The name of a node in text. -/
def nodeName (id : Nat) : String :=
  "n" ++ toString id

/-- An edge as its source lists it. -/
def Edge.describe (edge : Edge) : String :=
  match edge.kind with
  | .normal => nodeName edge.target
  | kind => nodeName edge.target ++ ":" ++ kind.describe

/-- The line of a node. -/
def nodeLine (graph : Graph) (id : Nat) (node : Node) : String :=
  let operands :=
    if node.operands.isEmpty then ""
    else " [" ++ ", ".intercalate (node.operands.map nodeName) ++ "]"
  let successors := graph.successors id
  let followers :=
    if successors.isEmpty then ""
    else " -> " ++ ", ".intercalate (successors.map Edge.describe)
  "  " ++ nodeName id ++ " " ++ node.action.describe ++ operands ++ followers ++ "\n"

/-- A graph as text. -/
def print (graph : Graph) : String :=
  graph.label ++ " (" ++ toString graph.size ++ " nodes)\n" ++
    String.join (graph.nodes.toList.mapIdx graph.nodeLine)

end Graph

end FragmentFlow
