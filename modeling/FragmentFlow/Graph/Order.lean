import FragmentFlow.Graph.Basic

/-!
# Reverse postorder

A depth-first walk from the entry follows the edges of a node in their order and
finishes a node after everything found from it.  The last node finished comes
first in reverse postorder, so that a node comes before its successors except
where an edge leads back.
-/

namespace FragmentFlow.Graph

/-- A node that the walk has entered, with the targets it has not looked at. -/
abbrev Visit := Nat × List Nat

/-- The targets of a node's edges. -/
def targets (graph : Graph) (node : Nat) : List Nat :=
  (graph.successors node).map Edge.target

/-- The turns that a stack of visits still takes: one for each target and one to finish each
visit. -/
def stackTurns : List Visit → Nat
  | [] => 0
  | visit :: outer => visit.2.length + 1 + stackTurns outer

/-- The turns that go to nodes which have not been entered, from the node `first` on. -/
def turnsAhead (graph : Graph) (first : Nat) : List Bool → Nat
  | [] => 0
  | isEntered :: later =>
    bif isEntered then graph.turnsAhead (first + 1) later
    else (graph.targets first).length + 1 + graph.turnsAhead (first + 1) later

/-- The turns of a node are no longer ahead when it is entered. -/
theorem turnsAhead_set (graph : Graph) {entered : List Bool} {next : Nat}
    (fresh : entered[next]? = some false) (first : Nat) :
    graph.turnsAhead first entered =
      (graph.targets (first + next)).length + 1 +
        graph.turnsAhead first (entered.set next true) := by
  induction entered generalizing first next with
  | nil => cases fresh
  | cons isEntered later ih =>
      cases next with
      | zero =>
          cases fresh
          rfl
      | succ next =>
          have rest := ih fresh (first + 1)
          rw [Nat.add_right_comm first 1 next] at rest
          cases isEntered with
          | true => exact rest
          | false =>
              simp only [turnsAhead, List.set_cons_succ, cond_false, rest]
              exact Nat.add_left_comm ..

/-- Continues a walk: the visits under way, innermost first, which nodes have been
entered, and the finished nodes, last one first. -/
def walk (graph : Graph) (stack : List Visit) (entered : Array Bool) (finished : List Nat) :
    List Nat :=
  match stack with
  | [] => finished
  | (node, []) :: outer => walk graph outer entered (node :: finished)
  | (node, next :: later) :: outer =>
    if fresh : entered[next]? = some false then
      walk graph ((next, graph.targets next) :: (node, later) :: outer)
        (entered.set next true (Array.getElem?_eq_some_iff.1 fresh).1) finished
    else walk graph ((node, later) :: outer) entered finished
termination_by graph.turnsAhead 0 entered.toList + stackTurns stack
decreasing_by
  · simp only [stackTurns]
    omega
  · have left := graph.turnsAhead_set (Array.getElem?_toList.trans fresh) 0
    rw [Nat.zero_add] at left
    simp only [stackTurns, List.length_cons, Array.toList_set]
    omega
  · simp only [stackTurns, List.length_cons]
    omega

/-- The nodes that control can reach, in reverse postorder. -/
def reversePostorder (graph : Graph) : List Nat :=
  graph.walk [(entry, graph.targets entry)]
    ((Array.replicate graph.size false).setIfInBounds entry true) []

/-- The nodes that control can reach, each after what was found from it. -/
def postorder (graph : Graph) : List Nat :=
  graph.reversePostorder.reverse

/-- The place of every node in reverse postorder; nodes that control cannot reach
have none. -/
def ranks (graph : Graph) : Array (Option Nat) :=
  let order := graph.reversePostorder
  Array.ofFn fun node : Fin graph.size => order.idxOf? node.1

end FragmentFlow.Graph
