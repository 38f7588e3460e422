import FragmentFlow.Proofs.Drawing.Exits
import FragmentFlow.Proofs.Drawing.TypeNames
import FragmentFlow.Proofs.Graph.Cycles

/-!
# Loops are the only cycles

A loop is entered at its head alone, so the head lies on every path to the nodes of the
loop.  A cycle takes an edge that returns to the head of a loop.  An edge that does not
lead on to a later node in reverse postorder closes a cycle with a path that meets no
node twice; such a path cannot return to a head that it has passed, and so it is the
edge itself that returns.
-/

namespace FragmentFlow.Graph

variable {graph : Graph}

/-! ### Heads of loops -/

/-- The head of a loop is a node for one. -/
theorem action?_of_loops {head : Nat} (loops : graph.toBuilder.Loops head) :
    graph.action? head = some .loopHead := by
  obtain ⟨node, found, isLoop⟩ := loops
  obtain ⟨inner, present, rfl⟩ := Option.map_eq_some_iff.1 found
  exact Option.map_eq_some_iff.2 ⟨inner, present, isLoop⟩

/-- The entry has a smaller number than the head of a loop. -/
theorem WellDrawn.entry_lt_of_loops (well : graph.WellDrawn) {head : Nat}
    (loops : graph.toBuilder.Loops head) : Graph.entry < head := by
  refine Nat.pos_of_ne_zero ?_
  rintro rfl
  obtain ⟨node, found, isLoop⟩ := loops
  cases well.entry.symm.trans found
  cases isLoop

namespace Builder

/-- A drawing is within the bounds at its start. -/
theorem bounded_start : Bounded [] start where
  targets edge member := by
    rcases mem_edges_push.1 member with old | ⟨tip, -⟩
    · cases Array.not_mem_empty _ old
    · cases tip
  tips tip member := by
    cases List.mem_singleton.1 member
    exact Nat.zero_lt_one
  guards id isGuard := guards_nil (fun id => id < start.nodes.size) id isGuard

/-- The exits lie behind all loops. -/
theorem LoopSpan.finish {b : Builder} {head last : Nat} (span : b.LoopSpan head last)
    (label : String) : (b.finish label).toBuilder.LoopSpan head last := by
  have bound := span.bound
  refine span.extend grows_finish.size_le fun edge member => ?_
  have drawn : edge ∈ (b.finish label).edges := member
  refine (mem_edges_finish.1 drawn).imp_right fun new => Or.inr ?_
  rcases new with ⟨-, target⟩ | ⟨-, target⟩ <;> omega

/-- The exits are no loop heads. -/
theorem Loops.of_finish {b : Builder} {label : String} {head : Nat}
    (loops : (b.finish label).toBuilder.Loops head) : b.Loops head := by
  obtain ⟨node, found, isLoop⟩ := loops
  rw [bare?_finish] at found
  split at found
  · cases found
    cases isLoop
  · split at found
    · cases found
      cases isLoop
    · exact ⟨node, found, isLoop⟩

end Builder

/-- Every loop of a graph is entered at its head. -/
theorem exists_loopSpan {fragment : Fragment} {env : Environment}
    (built : ofFragment fragment env = .ok graph) {head : Nat}
    (loops : graph.toBuilder.Loops head) : ∃ last, graph.toBuilder.LoopSpan head last := by
  have well := wellDrawn_of_ofFragment built
  have behindEntry := well.entry_lt_of_loops loops
  obtain ⟨-, rfl⟩ := eq_finish_of_ofFragment built
  have drawn := loops.of_finish
  obtain ⟨last, span⟩ := (Builder.Confined.code .start fragment.code).loops Builder.bounded_start
    head ⟨behindEntry, Builder.lt_size_of_bare? drawn.choose_spec.1⟩ drawn
  exact ⟨last, span.finish fragment.name⟩

/-! ### Dominance -/

/-- The head of a loop dominates its nodes. -/
theorem Builder.LoopSpan.dominates {head last : Nat} (span : graph.toBuilder.LoopSpan head last)
    (well : graph.WellDrawn) (behind : Graph.entry < head) {id : Nat} (above : head ≤ id)
    (below : id ≤ last) : graph.Dominates head id := by
  intro nodes path
  induction path with
  | stay => exact absurd above (Nat.not_le.2 behind)
  | @step nodes previous edge path leaving ih =>
      obtain ⟨drawn, rfl⟩ := well.mem_successors.1 leaving
      rw [← List.cons_append]
      obtain ⟨within, enters | isHead⟩ := span.inside edge drawn above below
      · exact List.mem_append_left _ (ih enters within)
      · exact List.mem_append_right _ (List.mem_singleton.2 isHead.symm)

/-- An edge that returns to the head of a loop comes from within the loop. -/
theorem dominates_of_returns {fragment : Fragment} {env : Environment}
    (built : ofFragment fragment env = .ok graph) {edge : Edge} (drawn : edge ∈ graph.edges)
    (returns : graph.toBuilder.Returns edge) : graph.Dominates edge.target edge.source := by
  have well := wellDrawn_of_ofFragment built
  obtain ⟨last, span⟩ := exists_loopSpan built returns.loops
  exact span.dominates well (well.entry_lt_of_loops returns.loops) returns.back
    (span.inside edge drawn (Nat.le_refl _) span.le).1

/-- The edges that retreat are those that return to the head of a loop. -/
theorem Retreats.returns {fragment : Fragment} {env : Environment}
    (built : ofFragment fragment env = .ok graph) {edge : Edge} (drawn : edge ∈ graph.edges)
    (retreats : graph.Retreats edge.source edge.target) : graph.toBuilder.Returns edge := by
  have well := wellDrawn_of_ofFragment built
  obtain ⟨nodes, path, distinct, member⟩ := retreats
  obtain ⟨before, after, rfl, toTarget, back⟩ := path.split member
  rcases back.exists_returns well drawn with returns | ⟨other, isDrawn, returns, front, rest, rfl,
    toOther⟩
  · exact returns
  · -- the path has passed the head to which the other edge returns
    have passed := dominates_of_returns built isDrawn returns _ (toTarget.trans toOther)
    rw [← List.append_assoc, ← List.cons_append] at distinct
    exact absurd rfl ((List.nodup_append.1 distinct).2.2 _ passed _ List.mem_cons_self)

/-- Every cycle passes the head of a loop. -/
theorem Path.exists_loops (well : graph.WellDrawn) {node : Nat} {nodes : List Nat}
    (path : graph.Path node nodes node) (cycle : nodes ≠ []) :
    ∃ head ∈ nodes, graph.toBuilder.Loops head := by
  cases path with
  | stay => exact absurd rfl cycle
  | @step nodes previous edge path leaving =>
      obtain ⟨drawn, rfl⟩ := well.mem_successors.1 leaving
      rcases path.exists_returns well drawn with
        returns | ⟨other, -, returns, before, after, rfl, -⟩
      · exact ⟨_, List.mem_append_right _ List.mem_cons_self, returns.loops⟩
      · refine ⟨_, List.mem_append_left _ ?_, returns.loops⟩
        exact List.mem_append_right _ List.mem_cons_self

/-! ### Reducibility -/

/-- A graph is reducible, and its edges retreat only to heads of loops.  Every cycle passes
such a head, so that code without loops has none. -/
theorem ofFragment_reducible {fragment : Fragment} {env : Environment}
    (built : ofFragment fragment env = .ok graph) :
    (∀ edge ∈ graph.edges, graph.Reaches edge.source →
      graph.rank edge.source < graph.rank edge.target ∨
        graph.action? edge.target = some .loopHead ∧ graph.Dominates edge.target edge.source) ∧
    (∀ node nodes, graph.Reaches node → graph.Path node nodes node → nodes ≠ [] →
      ∃ head ∈ nodes, graph.action? head = some .loopHead) ∧
    (fragment.loopFree = true → graph.Acyclic) := by
  have well := wellDrawn_of_ofFragment built
  refine ⟨fun edge drawn reaches => ?_, fun node nodes _ path cycle => ?_, fun loopFree => ?_⟩
  · refine (rank_lt_or_retreats well drawn reaches).imp_right fun retreats => ?_
    have returns := retreats.returns built drawn
    exact ⟨action?_of_loops returns.loops, dominates_of_returns built drawn returns⟩
  · obtain ⟨head, member, loops⟩ := path.exists_loops well cycle
    exact ⟨head, member, action?_of_loops loops⟩
  · have ordered : graph.Ordered := fun edge drawn reaches =>
      (loopFree_of_ofFragment built loopFree).rank_lt well drawn reaches
    exact ordered.acyclic well

/-- A loop that goes on from a catch clause, past a copy of a `finally` block that loops:
`for (;;) try { risky(); break; } catch (IllegalStateException e) { continue; }
finally { while (busy) {} }`. -/
def retriedLoop : Fragment :=
  .initializerOf "Retry"
    [.forLoop [] none []
      [.tryCatch [.exprStmt (.call "risky" []), .breakLoop]
        [.mk "e" "IllegalStateException" [.continueLoop]]
        (some [.whileLoop (.ident "busy") []])]]

/-- The test in the copy that the catch clause passes leads back to the head of the outer
loop, which every path to it has passed. -/
theorem retriedLoop_returns : ∃ graph, ofFragment retriedLoop .builtins = .ok graph ∧
    ⟨7, 1, .onFalse⟩ ∈ graph.edges ∧ graph.rank 1 ≤ graph.rank 7 ∧
      graph.action? 1 = some .loopHead ∧ graph.Dominates 1 7 := by
  have built : ofFragment retriedLoop .builtins =
      .ok ((draw retriedLoop).finish retriedLoop.name) := by
    decide +kernel
  have found : ((draw retriedLoop).finish retriedLoop.name).edges.contains
      ⟨7, 1, .onFalse⟩ = true := by
    decide +kernel
  have visited : ((draw retriedLoop).finish retriedLoop.name).reversePostorder.contains 7 =
      true := by
    decide +kernel
  have retreats : ¬ ((draw retriedLoop).finish retriedLoop.name).rank 7 <
      ((draw retriedLoop).finish retriedLoop.name).rank 1 := by
    decide +kernel
  generalize (draw retriedLoop).finish retriedLoop.name = graph at built found visited retreats
  have drawn := Array.contains_iff_mem.1 found
  have reaches := (mem_reversePostorder (wellDrawn_of_ofFragment built)).1
    (List.contains_iff_mem.1 visited)
  have back := ((ofFragment_reducible built).1 _ drawn reaches).resolve_left retreats
  exact ⟨graph, built, drawn, Nat.le_of_not_lt retreats, back⟩

end FragmentFlow.Graph
