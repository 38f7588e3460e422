import FragmentFlow.Analysis.Basic
import FragmentFlow.Failure
import FragmentFlow.Graph.Order
import FragmentFlow.Settings.Limits

/-!
# Solving an analysis

The nodes whose predecessors have changed wait on a worklist in reverse
postorder.  A step takes the first node off the list, evaluates it, and puts its
successors on the list if its facts have changed.  The search ends when nothing
waits, or fails when it has taken more steps than it may.
-/

namespace FragmentFlow.Analysis

variable {Value Store : Type}

/-- Whether a node comes before another in the order of a worklist. -/
def comesBefore (ranks : Array (Option Nat)) (node other : Nat) : Bool :=
  let rank := ranks[node]?.join.getD ranks.size
  let otherRank := ranks[other]?.join.getD ranks.size
  rank < otherRank || (rank == otherRank && node < other)

/-- Puts a node on a worklist unless it is there. -/
def enqueue (ranks : Array (Option Nat)) (node : Nat) : List Nat → List Nat
  | [] => [node]
  | first :: rest =>
    if comesBefore ranks node first then node :: first :: rest
    else if node = first then first :: rest
    else first :: enqueue ranks node rest

/-- Puts several nodes on a worklist. -/
def enqueueAll (ranks : Array (Option Nat)) (nodes worklist : List Nat) : List Nat :=
  nodes.foldl (fun worklist node => enqueue ranks node worklist) worklist

/-- A search under way. -/
structure Search (Value Store : Type) extends Solution Value Store where
  /-- The nodes that wait, first one first. -/
  worklist : List Nat
  deriving DecidableEq

/-- The latest value of a node. -/
def Search.valueOf (search : Search Value Store) (node : Nat) : Option Value :=
  (search.facts? node).bind Facts.value

/-- The store that arrives along an edge, if its source has been reached.  An
exception leaves with the store before its source. -/
def arriving (analysis : Analysis Value Store) (graph : Graph) (solution : Solution Value Store)
    (edge : Graph.Edge) : Option Store :=
  (solution.facts? edge.source).map fun facts =>
    analysis.onEdge graph edge (if edge.kind = .exception then facts.input else facts.output)

/-- The store before a node: the join of all that arrives. -/
def inputAt (analysis : Analysis Value Store) (graph : Graph) (solution : Solution Value Store)
    (node : Nat) : Option Store :=
  joinAll? analysis.join ((graph.predecessors node).filterMap (analysis.arriving graph solution))

/-- The search at the entry of a graph, with a store given there. -/
def start (graph : Graph) (ranks : Array (Option Nat)) (initial : Store) : Search Value Store where
  facts := (Array.replicate graph.size none).setIfInBounds Graph.entry
    (some { value := none, input := initial, output := initial })
  nodeVisits := Array.replicate graph.size 0
  visits := 0
  worklist := enqueueAll ranks (graph.targets Graph.entry) []

variable [BEq Value] [BEq Store]

/-- Evaluates a node; its successors wait if its facts have changed. -/
def visit (analysis : Analysis Value Store) (graph : Graph) (ranks : Array (Option Nat))
    (search : Search Value Store) (node : Nat) : Search Value Store :=
  match analysis.inputAt graph search.toSolution node with
  | none => search
  | some input =>
    let (value, output) := analysis.transfer graph node input search.valueOf
    let facts : Facts Value Store := { value, input, output }
    let search := { search with nodeVisits := search.nodeVisits.modify node (· + 1) }
    if (search.facts? node).all (·.differ facts) then
      { search with
        facts := search.facts.setIfInBounds node (some facts)
        worklist := enqueueAll ranks (graph.targets node) search.worklist }
    else search

/-- Takes the first node off the worklist and visits it; a search without work
stays as it is. -/
def step (analysis : Analysis Value Store) (graph : Graph) (ranks : Array (Option Nat))
    (search : Search Value Store) : Search Value Store :=
  match search.worklist with
  | [] => search
  | node :: rest =>
    analysis.visit graph ranks { search with worklist := rest, visits := search.visits + 1 } node

theorem visits_visit (analysis : Analysis Value Store) (graph : Graph)
    (ranks : Array (Option Nat)) (search : Search Value Store) (node : Nat) :
    (analysis.visit graph ranks search node).visits = search.visits := by
  unfold visit
  split
  · rfl
  · dsimp only
    split <;> rfl

/-- Steps until no work is left.  A search that takes a node off the worklist more often
than `limit` fails with its count. -/
def run (analysis : Analysis Value Store) (graph : Graph) (ranks : Array (Option Nat))
    (limit : Nat) (search : Search Value Store) : Except Nat (Solution Value Store) :=
  match search.worklist with
  | [] => .ok search.toSolution
  | node :: rest =>
    let taken := { search with worklist := rest, visits := search.visits + 1 }
    if limit < taken.visits then .error taken.visits
    else run analysis graph ranks limit (analysis.visit graph ranks taken node)
termination_by limit - search.visits
decreasing_by
  rename_i within
  change ¬ limit < search.visits + 1 at within
  rw [visits_visit]
  change limit - (search.visits + 1) < limit - search.visits
  omega

/-- Solves an analysis from a store at the entry. -/
def solveFrom (analysis : Analysis Value Store) (limits : Limits) (graph : Graph)
    (initial : Store) : Except Failure (Solution Value Store) :=
  let limit := limits.visitLimit graph.size
  let ranks := graph.ranks
  match analysis.run graph ranks limit (start graph ranks initial) with
  | .ok solution => .ok solution
  | .error visits => .error (.nonConvergent graph.label visits limit)

/-- Solves an analysis. -/
def solve (analysis : Analysis Value Store) (limits : Limits) (graph : Graph) :
    Except Failure (Solution Value Store) :=
  analysis.solveFrom limits graph (analysis.initial graph)

end FragmentFlow.Analysis
