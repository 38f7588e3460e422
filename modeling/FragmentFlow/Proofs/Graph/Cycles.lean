import FragmentFlow.Proofs.Graph.Order

/-!
# Cycles

Some nodes form a cycle if edges lead from one of them back to it.  If no node on a
cycle can be reached, every edge that control can take leads to a later node in
reverse postorder; and where some measure grows along the edges, there is no cycle.
-/

namespace FragmentFlow.Graph

variable {graph : Graph}

/-- No path leads from a node that control can reach back to it. -/
def Acyclic (graph : Graph) : Prop :=
  ∀ node nodes, graph.Reaches node → graph.Path node nodes node → nodes = []

/-- Every edge that control can take leads to a later node. -/
def Ordered (graph : Graph) : Prop :=
  ∀ edge ∈ graph.edges, graph.Reaches edge.source →
    graph.rank edge.source < graph.rank edge.target

theorem Path.trans {start middle last : Nat} {before after : List Nat}
    (first : graph.Path start before middle) (second : graph.Path middle after last) :
    graph.Path start (before ++ after) last := by
  induction second with
  | stay =>
      rw [List.append_nil]
      exact first
  | step _ leaving ih =>
      rw [← List.append_assoc]
      exact .step ih leaving

/-- Control goes on along paths. -/
theorem Reaches.path {start last : Nat} {nodes : List Nat} (reaches : graph.Reaches start)
    (path : graph.Path start nodes last) : graph.Reaches last := by
  obtain ⟨before, toStart⟩ := reaches
  exact ⟨_, toStart.trans path⟩

/-- Along a path a measure grows that grows along every edge. -/
theorem Path.measure_lt {measure : Nat → Nat}
    (grows : ∀ edge ∈ graph.edges, graph.Reaches edge.source →
      measure edge.source < measure edge.target)
    (well : graph.WellDrawn) {start last : Nat} {nodes : List Nat} (reaches : graph.Reaches start)
    (path : graph.Path start nodes last) : nodes = [] ∧ start = last ∨
      measure start < measure last := by
  induction path with
  | stay => exact Or.inl ⟨rfl, rfl⟩
  | step path leaving ih =>
      obtain ⟨drawn, rfl⟩ := well.mem_successors.1 leaving
      have further := grows _ drawn (reaches.path path)
      rcases ih with ⟨-, rfl⟩ | less
      · exact Or.inr further
      · exact Or.inr (Nat.lt_trans less further)

/-- A graph is acyclic if some measure grows along its edges. -/
theorem acyclic_of_measure (measure : Nat → Nat) (well : graph.WellDrawn)
    (grows : ∀ edge ∈ graph.edges, graph.Reaches edge.source →
      measure edge.source < measure edge.target) : graph.Acyclic := by
  intro node nodes reaches path
  rcases path.measure_lt grows well reaches with ⟨none, -⟩ | less
  · exact none
  · exact absurd less (Nat.lt_irrefl _)

/-- Where no edge goes back, there is no cycle. -/
theorem Ordered.acyclic (ordered : graph.Ordered) (well : graph.WellDrawn) : graph.Acyclic :=
  acyclic_of_measure graph.rank well ordered

/-- An edge that retreats closes a cycle. -/
theorem Retreats.exists_cycle (well : graph.WellDrawn) {edge : Edge} (drawn : edge ∈ graph.edges)
    (retreats : graph.Retreats edge.source edge.target) :
    graph.Reaches edge.target ∧ ∃ nodes, graph.Path edge.target (nodes ++ [edge.target])
      edge.target := by
  obtain ⟨nodes, path, -, member⟩ := retreats
  obtain ⟨before, after, -, toTarget, back⟩ := path.split member
  exact ⟨⟨before, toTarget⟩, after, .step back (well.mem_successors.2 ⟨drawn, rfl⟩)⟩

/-- In an acyclic graph every edge leads to a larger rank. -/
theorem Acyclic.ordered (acyclic : graph.Acyclic) (well : graph.WellDrawn) : graph.Ordered := by
  intro edge drawn reaches
  refine (rank_lt_or_retreats well drawn reaches).resolve_right fun retreats => ?_
  obtain ⟨reachesTarget, nodes, cycle⟩ := retreats.exists_cycle well drawn
  exact List.append_ne_nil_of_right_ne_nil nodes (List.cons_ne_nil _ _)
    (acyclic _ _ reachesTarget cycle)

end FragmentFlow.Graph
