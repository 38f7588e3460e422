import FragmentFlow.Proofs.Graph.Operands
import FragmentFlow.Proofs.Solver.Search

/-!
# The evaluations of a run

The facts of a node come from its last evaluation, after which its predecessors have
kept theirs.  A node is evaluated only when its operands have facts: the nodes that
wait come no earlier than it, and its operands do.
-/

namespace FragmentFlow.Analysis

variable {Value Store : Type} {analysis : Analysis Value Store} {graph : Graph} {initial : Store}
  {first search next : Search Value Store} {id : Nat} {facts : Facts Value Store}

section Evaluated

variable [BEq Value] [BEq Store]

/-- A node got its facts along a run, and its predecessors have kept theirs since then
unless it waits. -/
def Evaluated (analysis : Analysis Value Store) (graph : Graph) (first search : Search Value Store)
    (id : Nat) (facts : Facts Value Store) : Prop :=
  ∃ earlier next, Run analysis graph first earlier ∧
    Updated analysis graph earlier next id facts ∧ Run analysis graph next search ∧
    (id ∈ search.worklist ∨ ∀ edge ∈ graph.predecessors id,
      search.facts? edge.source = earlier.facts? edge.source)

/-- An evaluation of another node does not change what a node was evaluated with. -/
theorem Evaluated.update (well : graph.WellDrawn) {other : Nat} {stored : Facts Value Store}
    (evaluated : Evaluated analysis graph first search other stored) (different : other ≠ id)
    (updated : Updated analysis graph search next id facts) :
    Evaluated analysis graph first next other stored := by
  obtain ⟨earlier, after, run, gained, further, kept⟩ := evaluated
  refine ⟨earlier, after, run, gained, .step further updated, ?_⟩
  rcases kept with waits | kept
  · exact Or.inl ((updated.still other waits).resolve_left different)
  · exact (updated.sources well other).imp_right fun same edge entering =>
      (same edge entering).trans (kept edge entering)

/-- The facts of every node but the entry come from its last evaluation. -/
theorem Run.evaluated (well : graph.WellDrawn)
    (run : Run analysis graph (start graph graph.ranks initial) search)
    (notEntry : id ≠ Graph.entry) (found : search.facts? id = some facts) :
    Evaluated analysis graph (start graph graph.ranks initial) search id facts := by
  induction run with
  | refl =>
      rw [facts?_start well, if_neg notEntry] at found
      cases found
  | @step middle next node given run updated ih =>
      by_cases same : id = node
      · subst same
        cases updated.self.symm.trans found
        exact ⟨middle, next, run, updated, .refl, updated.sources well id⟩
      · rw [updated.other same] at found
        exact (ih found).update well same updated

end Evaluated

namespace Consistent

/-- What dominates a node that waits has facts. -/
theorem dominator_of_waiting (well : graph.WellDrawn)
    (consistent : Consistent analysis graph initial search) {origin : Nat}
    (waits : id ∈ search.worklist) (dominates : graph.Dominates origin id)
    (different : origin ≠ id) : (search.facts? origin).isSome := by
  obtain ⟨-, edge, entering, has⟩ := consistent.waiting id waits
  obtain ⟨drawn, rfl⟩ := well.mem_predecessors.1 entering
  obtain ⟨nodes, path, traced⟩ := consistent.traced edge.source has
  have passed := dominates _ (.step path (well.mem_successors.2 ⟨drawn, rfl⟩))
  rw [← List.cons_append] at passed
  rcases List.mem_append.1 passed with earlier | here
  · exact traced origin earlier
  · exact absurd (List.mem_singleton.1 here) different

/-- The nodes of a sealed interval that come before all that wait have facts if its
origin has. -/
theorem isSome_inside (well : graph.WellDrawn)
    (consistent : Consistent analysis graph initial search) {low high origin : Nat}
    {kind : Graph.EdgeKind} (isSealed : graph.toBuilder.Sealed low high origin kind)
    (outside : origin ≤ low) (has : (search.facts? origin).isSome) (above : low < id)
    (below : id ≤ high) (ahead : ∀ waiting ∈ search.worklist, graph.rank id < graph.rank waiting) :
    (search.facts? id).isSome := by
  have reaches := consistent.reached origin has
  induction id using Nat.strongRecOn with
  | ind id ih =>
      obtain ⟨edge, drawn, rfl⟩ := isSealed.linked id above below
      have source : graph.Reaches edge.source ∧ (graph.rank edge.source < graph.rank edge.target →
          (search.facts? edge.source).isSome) := by
        rcases isSealed.entered edge drawn above below with ⟨inside, stays⟩ | ⟨isOrigin, -⟩
        · have upward := well.source_lt_of_valued drawn (isSealed.valued _ above below)
          refine ⟨reaches.inside well isSealed inside stays, fun less => ?_⟩
          exact ih edge.source upward inside stays fun waiting member =>
            Nat.lt_trans less (ahead waiting member)
        · rw [isOrigin]
          exact ⟨reaches, fun _ => has⟩
      have less := Graph.rank_lt_of_sealed well isSealed outside drawn source.1 above below
      rcases consistent.closed edge drawn (source.2 less) with found | waits
      · exact found
      · exact absurd (ahead edge.target waits) (Nat.lt_irrefl _)

end Consistent

/-- When a node is evaluated, its operands have facts. -/
theorem Updated.operands [BEq Value] [BEq Store] (well : graph.WellDrawn)
    (consistent : Consistent analysis graph initial search)
    (updated : Updated analysis graph search next id facts) {node : Graph.Node}
    (found : graph.nodes[id]? = some node) (uses : node.action.usesOperands = true)
    {operand : Nat} (member : operand ∈ node.operands) : (search.facts? operand).isSome := by
  have waits := updated.waiting
  obtain ⟨-, -, reaches, -⟩ := consistent.exists_input well waits
  have behind : ∀ {source kind}, ⟨source, id, kind⟩ ∈ graph.edges → source < id :=
    well.source_lt_of_uses found uses
  have before := Graph.rank_operand_lt well found uses reaches member
  obtain ⟨-, placed⟩ := Graph.operands_placed well found uses operand member
  cases placed with
  | next drawn dominates =>
      exact consistent.dominator_of_waiting well waits dominates (Nat.ne_of_lt (behind drawn))
  | inside drawn dominates isSealed outside less =>
      have last := behind drawn
      have origin := consistent.dominator_of_waiting well waits dominates (by omega)
      exact consistent.isSome_inside well isSealed outside origin less (Nat.le_refl _)
        fun waiting member => Nat.lt_of_lt_of_le before (updated.least waiting member)
  | origin drawn dominates _ outside less =>
      have last := behind drawn
      exact consistent.dominator_of_waiting well waits dominates (by omega)

end FragmentFlow.Analysis
