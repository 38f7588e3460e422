import FragmentFlow.Graph.Basic

/-!
# Forward analyses

An analysis carries a store along the edges of a flow graph and may give every
node a value.  Stores that meet at a node are joined; values are joined only
where one expression is evaluated by several nodes.
-/

namespace FragmentFlow

/-- A forward analysis. -/
structure Analysis (Value Store : Type) where
  /-- The store at the entry of a graph. -/
  initial : Graph → Store
  /-- The value of a node and the store after it, from the store before it and the
  latest values of all nodes. -/
  transfer : Graph → Nat → Store → (Nat → Option Value) → Option Value × Store
  /-- The store that an edge carries, from the store at its source. -/
  onEdge : Graph → Graph.Edge → Store → Store := fun _ _ store => store
  /-- The store where two stores meet. -/
  join : Store → Store → Store
  /-- The value of an expression with two values. -/
  joinValues : Value → Value → Value

namespace Analysis

/-- What is known at a node. -/
structure Facts (Value Store : Type) where
  value : Option Value
  /-- The store before the node. -/
  input : Store
  /-- The store after the node. -/
  output : Store
  deriving DecidableEq

/-- Whether facts differ in some part. -/
def Facts.differ {Value Store : Type} [BEq Value] [BEq Store]
    (facts other : Facts Value Store) : Bool :=
  facts.value != other.value || facts.output != other.output || facts.input != other.input

/-- Joins the elements of a list in their order; there is nothing to join in an
empty one. -/
def joinAll? {α : Type} (join : α → α → α) : List α → Option α
  | [] => none
  | first :: rest => some (rest.foldl join first)

end Analysis

/-- What an analysis found out about the nodes of a graph.  A node without facts
was not reached. -/
structure Solution (Value Store : Type) where
  facts : Array (Option (Analysis.Facts Value Store))
  /-- How often each node was evaluated, as far as 32 bits can tell. -/
  nodeVisits : Array UInt32
  /-- How many nodes were taken off the worklist. -/
  visits : Nat
  deriving DecidableEq

namespace Solution

variable {Value Store : Type}

/-- The facts at a node. -/
def facts? (solution : Solution Value Store) (node : Nat) : Option (Analysis.Facts Value Store) :=
  solution.facts[node]?.join

/-- How often a node was evaluated, as far as 32 bits can tell. -/
def visitsOf (solution : Solution Value Store) (node : Nat) : UInt32 :=
  solution.nodeVisits[node]?.getD 0

end Solution

end FragmentFlow
