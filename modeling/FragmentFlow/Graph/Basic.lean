import FragmentFlow.NameSet
import FragmentFlow.Source.Operator

/-!
# Flow graphs

A flow graph has one node for every evaluation of a fragment and an edge for
every way in which control passes from one node to another.  Edges are numbered
in the order in which they were drawn; every node lists the numbers of its own
edges in that order.  The graph starts at node 0 and ends at one of two exits.
-/

namespace FragmentFlow

namespace Graph

/-- How control comes to the target of an edge. -/
inductive EdgeKind where
  | normal
  /-- The source evaluated to true. -/
  | onTrue
  /-- The source evaluated to false. -/
  | onFalse
  /-- The source raised. -/
  | exception
  | breakLoop
  | continueLoop
  | returnValue
  deriving DecidableEq, Repr

namespace EdgeKind

/-- Whether an edge depends on the truth of its source. -/
def isConditional : EdgeKind → Bool
  | onTrue | onFalse => true
  | _ => false

/-- Whether an edge leaves the normal order of evaluation. -/
def isAbrupt : EdgeKind → Bool
  | exception | breakLoop | continueLoop | returnValue => true
  | _ => false

/-- The name of an edge kind. -/
def describe : EdgeKind → String
  | normal => "normal"
  | onTrue => "true"
  | onFalse => "false"
  | exception => "exception"
  | breakLoop => "break"
  | continueLoop => "continue"
  | returnValue => "return"

end EdgeKind

/-- A way in which control passes from one node to another. -/
structure Edge where
  source : Nat
  target : Nat
  kind : EdgeKind
  deriving DecidableEq, Repr

/-- What a node evaluates. -/
inductive Action where
  | entry
  | exit
  | exceptionalExit
  /-- Binds a parameter. -/
  | param (name : String)
  /-- Declares a variable; its operand is the initial value. -/
  | decl (name : String)
  | literal (value : Literal)
  | ident (name : String)
  /-- Assigns its operand. -/
  | assign (target : String)
  | binary (op : BinaryOp)
  | unary (op : UnaryOp)
  /-- Ends a conditional expression; the operands are the condition and both
  branches. -/
  | conditional
  | call (callee : String)
  | new (ty : String)
  /-- Creates a lambda; its body is a fragment of its own. -/
  | lambda
  | returnValue
  | throwValue
  /-- Enters a catch clause. -/
  | catchParam (name ty : String)
  | loopHead
  /-- Raises again what a `finally` block interrupted. -/
  | rethrow
  deriving DecidableEq, Repr

namespace Action

/-- Whether evaluation may raise. -/
def canThrow : Action → Bool
  | call _ | new _ | throwValue | rethrow => true
  | binary op => op.canThrow
  | _ => false

/-- The variable that is declared. -/
def declared? : Action → Option String
  | param name | decl name | catchParam name _ => some name
  | _ => none

/-- The variable that is read or assigned. -/
def used? : Action → Option String
  | ident name | assign name => some name
  | _ => none

end Action

/-- A node of a flow graph. -/
structure Node where
  action : Action
  /-- The node of the tree that is evaluated, if there is one. -/
  tree : Option Nat
  /-- Whether this is a further copy of what stands once in the tree. -/
  isCopy : Bool
  /-- The nodes whose values are used, in order of evaluation. -/
  operands : List Nat
  /-- The numbers of the edges that start here. -/
  outgoing : List Nat := []
  /-- The numbers of the edges that end here. -/
  incoming : List Nat := []
  deriving DecidableEq, Repr

/-- The nodes that evaluate the nodes of a tree, which stand in the order in which they were
first met. -/
abbrev Index := List (Nat × List Nat)

namespace Index

/-- The nodes that evaluate a node of the tree. -/
def find (index : Index) (tree : Nat) : List Nat :=
  (index.lookup tree).getD []

/-- Adds a node that evaluates a node of the tree: a copy behind the others, every other
node before them. -/
def add (tree id : Nat) (isCopy : Bool) : Index → Index
  | [] => [(tree, [id])]
  | (key, ids) :: rest =>
    if key = tree then (key, if isCopy then ids ++ [id] else id :: ids) :: rest
    else (key, ids) :: add tree id isCopy rest

end Index

/-- The names that some nodes declare. -/
def declaredNames (nodes : Array Node) : NameSet :=
  .ofList (nodes.toList.filterMap fun node => node.action.declared?)

/-- The names that some nodes read or assign. -/
def usedNames (nodes : Array Node) : NameSet :=
  .ofList (nodes.toList.filterMap fun node => node.action.used?)

end Graph

/-- The flow graph of a fragment. -/
structure Graph where
  /-- The name of the fragment. -/
  label : String
  nodes : Array Graph.Node
  edges : Array Graph.Edge
  /-- The nodes by what they evaluate. -/
  index : Graph.Index
  /-- The node at which the fragment completes. -/
  exit : Nat
  /-- The node at which the fragment ends with an exception. -/
  exceptionalExit : Nat
  /-- Names that are used and nowhere declared: fields and captured variables. -/
  freeNames : NameSet
  deriving DecidableEq

namespace Graph

/-- The node at which a graph starts. -/
def entry : Nat := 0

/-- The number of nodes. -/
def size (graph : Graph) : Nat :=
  graph.nodes.size

/-- The action of a node. -/
def action? (graph : Graph) (node : Nat) : Option Action :=
  graph.nodes[node]?.map Node.action

/-- The edges that start at a node, in the order in which they were drawn. -/
def successors (graph : Graph) (node : Nat) : List Edge :=
  match graph.nodes[node]? with
  | some node => node.outgoing.filterMap (graph.edges[·]?)
  | none => []

/-- The edges that end at a node, in the order in which they were drawn. -/
def predecessors (graph : Graph) (node : Nat) : List Edge :=
  match graph.nodes[node]? with
  | some node => node.incoming.filterMap (graph.edges[·]?)
  | none => []

/-- The nodes that evaluate a node of the tree: the first one is in its place, the
others are copies. -/
def nodesFor (graph : Graph) (tree : Nat) : List Nat :=
  graph.index.find tree

/-- The parameters in order. -/
def parameters (graph : Graph) : List String :=
  graph.nodes.toList.filterMap fun node =>
    match node.action with
    | .param name => some name
    | _ => none

/-- All names that are declared, read or assigned. -/
def variableNames (graph : Graph) : NameSet :=
  .ofList (graph.nodes.toList.filterMap fun node => node.action.declared? <|> node.action.used?)

end Graph

end FragmentFlow
