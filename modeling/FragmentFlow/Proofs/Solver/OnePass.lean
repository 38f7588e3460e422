import FragmentFlow.Proofs.Graph.Cycles
import FragmentFlow.Proofs.Graph.Operands
import FragmentFlow.Proofs.Solver.Search

/-!
# Graphs without edges back are solved in one pass

If every edge leads to a later node, a node waits only behind all nodes that have
facts.  So no node is evaluated twice, and the values that a node was evaluated with are
those of the solution, as far as they belong to earlier nodes.
-/

namespace FragmentFlow.Analysis

variable {Value Store : Type} {analysis : Analysis Value Store} {graph : Graph} {initial : Store}
  {search next : Search Value Store} {node : Nat} {facts : Facts Value Store}

/-- A search that does not come back to a node. -/
structure Passing (analysis : Analysis Value Store) (graph : Graph)
    (search : Search Value Store) : Prop where
  ahead : ∀ waiting ∈ search.worklist, ∀ node, (search.facts? node).isSome →
    graph.rank node < graph.rank waiting
  evaluated : ∀ node facts, node ≠ Graph.entry → search.facts? node = some facts →
    ∃ values, analysis.transfer graph node facts.input values = (facts.value, facts.output) ∧
      ∀ other, (graph.Reaches other → graph.rank other < graph.rank node) →
        values other = search.valueOf other

/-- In an ordered graph targets have larger ranks. -/
theorem rank_lt_target (ordered : graph.Ordered) (well : graph.WellDrawn)
    (reaches : graph.Reaches node) {target : Nat} (behind : target ∈ graph.targets node) :
    graph.rank node < graph.rank target := by
  obtain ⟨edge, leaving, rfl⟩ := List.mem_map.1 behind
  obtain ⟨drawn, rfl⟩ := well.mem_successors.1 leaving
  exact ordered edge drawn reaches

/-- At the start a search passes through the graph once. -/
theorem Passing.start (ordered : graph.Ordered) (well : graph.WellDrawn) (initial : Store) :
    Passing analysis graph (start graph graph.ranks initial) where
  ahead waiting member node reached := by
    rw [facts?_start well] at reached
    split at reached
    · rename_i isEntry
      subst isEntry
      rcases mem_enqueueAll.1 member with behind | absent
      · exact rank_lt_target ordered well (.entry graph) behind
      · cases absent
    · cases reached
  evaluated node facts different found := by
    rw [facts?_start well, if_neg different] at found
    cases found

/-- A node that waits has no facts. -/
theorem Passing.facts?_eq_none (passing : Passing analysis graph search)
    (waits : node ∈ search.worklist) : search.facts? node = none := by
  cases found : search.facts? node with
  | none => rfl
  | some stored =>
      have before := passing.ahead node waits node (by rw [found]; rfl)
      exact absurd before (Nat.lt_irrefl _)

variable [BEq Value] [BEq Store]

/-- An evaluation gives a node its first facts, and only later nodes wait then. -/
theorem Passing.update (ordered : graph.Ordered) (well : graph.WellDrawn)
    (consistent : Consistent analysis graph initial search)
    (updated : Updated analysis graph search next node facts)
    (passing : Passing analysis graph search) : Passing analysis graph next where
  ahead waiting member other reached := by
    have upTo : graph.rank other ≤ graph.rank node := by
      rcases updated.of_reached reached with rfl | old
      · exact Nat.le_refl _
      · exact Nat.le_of_lt (passing.ahead node updated.waiting other old)
    have beyond : graph.rank node < graph.rank waiting := by
      rcases updated.fresh waiting member with behind | ⟨-, later⟩
      · have reaches := consistent.sorted.reached node updated.waiting
        exact rank_lt_target ordered well reaches behind
      · exact later
    exact Nat.lt_of_le_of_lt upTo beyond
  evaluated other stored different found := by
    have reaches := consistent.sorted.reached node updated.waiting
    by_cases same : other = node
    · subst same
      cases updated.self.symm.trans found
      have fresh := passing.facts?_eq_none updated.waiting
      refine ⟨search.valueOf, updated.transfer_of_fresh fresh, fun earlier before => ?_⟩
      refine (updated.valueOf fun isNode => ?_).symm
      subst isNode
      exact Nat.lt_irrefl _ (before reaches)
    · rw [updated.other same] at found
      obtain ⟨values, transfer, agrees⟩ := passing.evaluated other stored different found
      refine ⟨values, transfer, fun earlier before => ?_⟩
      rw [agrees earlier before]
      refine (updated.valueOf fun isNode => ?_).symm
      subst isNode
      have ahead := passing.ahead earlier updated.waiting other (by rw [found]; rfl)
      exact Nat.lt_asymm ahead (before reaches)

/-- In a solution of a graph without loop heads, the facts of a node are what it gets
from the values of earlier nodes in the solution. -/
theorem transfer_of_loopFree (loopFree : graph.LoopFree)
    (well : graph.WellDrawn) {limits : Limits} {solution : Solution Value Store}
    (solved : analysis.solveFrom limits graph initial = .ok solution)
    (notEntry : node ≠ Graph.entry) (found : solution.facts? node = some facts) :
    ∃ values, analysis.transfer graph node facts.input values = (facts.value, facts.output) ∧
      ∀ other, (graph.Reaches other → graph.rank other < graph.rank node) →
        values other = solution.recorded other := by
  have ordered : graph.Ordered := fun _ drawn reaches => loopFree.rank_lt well drawn reaches
  obtain ⟨final, -, passing, -, rfl⟩ := of_solveFrom (Passing analysis graph) well
    (.start ordered well initial)
    (fun _ _ _ _ consistent updated passing => passing.update ordered well consistent updated)
    solved
  exact passing.evaluated node facts notEntry found

end FragmentFlow.Analysis
