import FragmentFlow.Analysis.Basic

/-!
# Results for nodes of the tree

Code in a `finally` block is evaluated by several nodes of the graph.  What holds
of such code is the join over the nodes that were reached.
-/

namespace FragmentFlow.Analysis

variable {Value Store : Type}

/-- The value of an expression of the tree. -/
def valueAt (analysis : Analysis Value Store) (graph : Graph) (solution : Solution Value Store)
    (tree : Nat) : Option Value :=
  joinAll? analysis.joinValues
    ((graph.nodesFor tree).filterMap fun node => (solution.facts? node).bind Facts.value)

/-- The store before a node of the tree. -/
def storeBefore (analysis : Analysis Value Store) (graph : Graph)
    (solution : Solution Value Store) (tree : Nat) : Option Store :=
  joinAll? analysis.join
    ((graph.nodesFor tree).filterMap fun node => (solution.facts? node).map Facts.input)

/-- The store after a node of the tree. -/
def storeAfter (analysis : Analysis Value Store) (graph : Graph)
    (solution : Solution Value Store) (tree : Nat) : Option Store :=
  joinAll? analysis.join
    ((graph.nodesFor tree).filterMap fun node => (solution.facts? node).map Facts.output)

/-- The store with which the fragment completes. -/
def exitStore (graph : Graph) (solution : Solution Value Store) : Option Store :=
  (solution.facts? graph.exit).map Facts.input

end FragmentFlow.Analysis
