import FragmentFlow.Proofs.Solver.Limits
import Mathlib.Algebra.BigOperators.Group.List.Basic
import Mathlib.Algebra.Group.Action.Defs
import Mathlib.Algebra.GroupWithZero.Nat

/-!
# Searches within a budget

A node that changes sends one node to the worklist for each of its edges.  If the facts of
a node can change only so often, the changes that are left pay for these visits: a step
costs a visit, and what it adds to the worklist is taken from the changes that the source
of every edge has left.
-/

namespace FragmentFlow.Analysis

variable {Value Store : Type} {analysis : Analysis Value Store} {graph : Graph} {initial : Store}
  {search next : Search Value Store} {node : Nat} {facts : Facts Value Store}
  {height : Facts Value Store → Nat} {bound : Nat}

/-- How often the facts at a node can still change; the first facts are a change too. -/
def changesLeft (height : Facts Value Store → Nat) (bound : Nat) :
    Option (Facts Value Store) → Nat
  | none => bound
  | some facts => bound - (height facts + 1)

/-- Facts below a bound that are no others than the old ones or higher. -/
structure Climbs (height : Facts Value Store → Nat) (bound : Nat)
    (old : Option (Facts Value Store)) (facts : Facts Value Store) : Prop where
  below : height facts < bound
  higher : ∀ earlier, old = some earlier → earlier = facts ∨ height earlier < height facts

/-- Every change uses up one of those that are left. -/
theorem Climbs.changesLeft_lt {old : Option (Facts Value Store)}
    (climbs : Climbs height bound old facts) (changed : old ≠ some facts) :
    changesLeft height bound (some facts) < changesLeft height bound old := by
  have below := climbs.below
  cases old with
  | none =>
      simp only [changesLeft]
      omega
  | some earlier =>
      have higher := (climbs.higher earlier rfl).resolve_left fun same =>
        changed (congrArg some same)
      simp only [changesLeft]
      omega

/-- What is less at the edges of one node and not more at the others is less by the number
of these edges. -/
theorem sum_add_targets_le (well : graph.WellDrawn) (inside : node < graph.size)
    {before after : Graph.Edge → Nat} (less : ∀ edge, edge.source = node → after edge < before edge)
    (others : ∀ edge, edge.source ≠ node → after edge ≤ before edge) :
    (graph.edges.toList.map after).sum + (graph.targets node).length ≤
      (graph.edges.toList.map before).sum := by
  rw [Graph.targets, List.length_map, well.successors_eq inside]
  induction graph.edges.toList with
  | nil => exact Nat.le_refl 0
  | cons edge edges ih =>
      rw [List.map_cons, List.sum_cons, List.map_cons, List.sum_cons, List.filter_cons]
      by_cases leaves : edge.source = node
      · have fewer := less edge leaves
        rw [if_pos (beq_iff_eq.2 leaves), List.length_cons]
        omega
      · have same := others edge leaves
        rw [if_neg (by rwa [beq_iff_eq])]
        omega

/-- The visits that are still to come: those of the nodes that wait, and along each edge one
for every change that its source has left. -/
def visitsLeft (height : Facts Value Store → Nat) (bound : Nat) (graph : Graph)
    (search : Search Value Store) : Nat :=
  search.worklist.length +
    (graph.edges.toList.map fun edge => changesLeft height bound (search.facts? edge.source)).sum

/-- At the start the budget allows for every edge as many visits as the bound says. -/
theorem visitsLeft_start (well : graph.WellDrawn) (initial : Store)
    (below : height { value := none, input := initial, output := initial } < bound) :
    visitsLeft height bound graph (start graph graph.ranks initial) ≤ graph.edges.size * bound := by
  have waiting := length_enqueueAll_le graph.ranks (graph.targets Graph.entry) []
  have edges : (graph.edges.toList.map fun edge => changesLeft height bound
      ((start graph graph.ranks initial : Search Value Store).facts? edge.source)).sum +
        (graph.targets Graph.entry).length ≤ (graph.edges.toList.map fun _ => bound).sum := by
    refine sum_add_targets_le well well.size_pos (fun edge isEntry => ?_) fun edge notEntry => ?_
    · rw [facts?_start well, if_pos isEntry]
      simp only [changesLeft]
      omega
    · rw [facts?_start well, if_neg notEntry]
      exact Nat.le_refl _
  rw [List.map_const', List.sum_replicate, smul_eq_mul, Array.length_toList] at edges
  rw [List.length_nil, Nat.zero_add] at waiting
  calc visitsLeft height bound graph (start graph graph.ranks initial)
      ≤ (graph.targets Graph.entry).length + _ := Nat.add_le_add_right waiting _
    _ = _ + (graph.targets Graph.entry).length := Nat.add_comm _ _
    _ ≤ graph.edges.size * bound := edges

variable [BEq Value] [BEq Store] [ReflBEq Value] [ReflBEq Store]

/-- A visit is one of those that were to come. -/
theorem Updated.visitsLeft_lt (well : graph.WellDrawn) (inside : node < graph.size)
    (updated : Updated analysis graph search next node facts)
    (climbs : Climbs height bound (search.facts? node) facts) :
    visitsLeft height bound graph next < visitsLeft height bound graph search := by
  rw [visitsLeft, visitsLeft]
  rcases updated.queued with ⟨same, shorter⟩ | ⟨changed, longer⟩
  · have kept : ∀ other, next.facts? other = search.facts? other := by
      intro other
      rw [updated.lookup]
      split
      · rename_i isNode
        rw [isNode, same]
      · rfl
    simp only [kept]
    omega
  · have edges : (graph.edges.toList.map fun edge =>
        changesLeft height bound (next.facts? edge.source)).sum + (graph.targets node).length ≤
          (graph.edges.toList.map fun edge =>
            changesLeft height bound (search.facts? edge.source)).sum := by
      refine sum_add_targets_le well inside (fun edge isNode => ?_) fun edge notNode => ?_
      · rw [isNode, updated.self]
        refine climbs.changesLeft_lt fun same => ?_
        exact absurd (changed facts same) (by simp [facts.differ_self])
      · rw [updated.other notNode]
    omega

/-- The visits of a run and those to come are never more than at the start. -/
theorem Run.visits_add_visitsLeft_le (well : graph.WellDrawn)
    (below : height { value := none, input := initial, output := initial } < bound)
    (climbs : ∀ search next node facts,
      Run analysis graph (start graph graph.ranks initial) search →
        Updated analysis graph search next node facts →
          Climbs height bound (search.facts? node) facts)
    (run : Run analysis graph (start graph graph.ranks initial) search) :
    search.visits + visitsLeft height bound graph search ≤ graph.edges.size * bound := by
  induction run with
  | refl =>
      have left : visitsLeft height bound graph (start graph graph.ranks initial) ≤ _ :=
        visitsLeft_start well initial below
      have visits : (start graph graph.ranks initial : Search Value Store).visits = 0 := rfl
      omega
  | @step search next node facts run updated ih =>
      obtain ⟨-, inside, -⟩ := (run.consistent well (.start well initial)).exists_input well
        updated.waiting
      have fewer := updated.visitsLeft_lt well inside (climbs search next node facts run updated)
      rw [updated.visits]
      omega

/-- A search whose facts climb ends within the budget that their height gives. -/
theorem solveFrom_of_climbs (well : graph.WellDrawn)
    (below : height { value := none, input := initial, output := initial } < bound)
    (climbs : ∀ search next node facts,
      Run analysis graph (start graph graph.ranks initial) search →
        Updated analysis graph search next node facts →
          Climbs height bound (search.facts? node) facts)
    {limits : Limits} (enough : graph.edges.size * bound ≤ limits.visitLimit graph.size) :
    ∃ solution, analysis.solveFrom limits graph initial = .ok solution ∧
      solution.visits ≤ graph.edges.size * bound := by
  have within : ∀ steps,
      (searchAfter analysis graph initial steps).visits ≤ graph.edges.size * bound := by
    intro steps
    have total := (run_searchAfter well analysis initial steps).visits_add_visitsLeft_le well below
      climbs
    omega
  have idle : (searchAfter analysis graph initial (graph.edges.size * bound)).worklist = [] := by
    by_contra busy
    have visits := within (graph.edges.size * bound + 1)
    rw [visits_of_busy busy] at visits
    omega
  exact ⟨_, solveFrom_eq_ok_iff.2 ⟨_, idle, (within _).trans enough, rfl⟩, within _⟩

end FragmentFlow.Analysis
