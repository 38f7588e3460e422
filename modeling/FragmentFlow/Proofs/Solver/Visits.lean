import FragmentFlow.Proofs.Solver.Equations
import FragmentFlow.Proofs.Solver.OnePass
import Mathlib.Data.Set.Card

/-!
# Acyclic graphs are visited once

If no node on a cycle can be reached, every step of a search gives a node its first
facts.  So the steps that are left are as many as the nodes that control can reach and
that have no facts, whatever the analysis does at them.
-/

namespace FragmentFlow

/-- The nodes that control can reach are as many as there are in reverse postorder. -/
theorem Graph.ncard_reaches {graph : Graph} (well : graph.WellDrawn) :
    {node | graph.Reaches node}.ncard = graph.reversePostorder.length := by
  have same : {node | graph.Reaches node} = (graph.reversePostorder.toFinset : Set Nat) := by
    ext node
    rw [Set.mem_ofPred_eq, Finset.mem_coe, List.mem_toFinset, mem_reversePostorder well]
  rw [same, Set.ncard_coe_finset, List.toFinset_card_of_nodup (nodup_reversePostorder well)]

namespace Analysis

variable {Value Store : Type} {analysis : Analysis Value Store} {graph : Graph} {initial : Store}
  {search next : Search Value Store} {node : Nat} {facts : Facts Value Store}

/-! ### What is ahead -/

/-- The nodes that control can reach and that have no facts. -/
def ahead (graph : Graph) (search : Search Value Store) : List Nat :=
  graph.reversePostorder.filter fun node => (search.facts? node).isNone

theorem mem_ahead (well : graph.WellDrawn) :
    node ∈ ahead graph search ↔ graph.Reaches node ∧ search.facts? node = none := by
  rw [ahead, List.mem_filter, Graph.mem_reversePostorder well, Option.isNone_iff_eq_none]

theorem nodup_ahead (well : graph.WellDrawn) (search : Search Value Store) :
    (ahead graph search).Nodup :=
  (Graph.nodup_reversePostorder well).filter _

/-- Everything but the entry is ahead at the start. -/
theorem ahead_start (well : graph.WellDrawn) (initial : Store) :
    ahead graph (start graph graph.ranks initial : Search Value Store) =
      graph.reversePostorder.erase Graph.entry := by
  rw [(Graph.nodup_reversePostorder well).erase_eq_filter, ahead]
  refine List.filter_congr fun node _ => ?_
  rw [facts?_start well]
  by_cases isEntry : node = Graph.entry <;> simp [isEntry]

section Step

variable [BEq Value] [BEq Store]

/-- A node with facts is not ahead any more. -/
theorem Updated.ahead_eq (updated : Updated analysis graph search next node facts)
    (well : graph.WellDrawn) : ahead graph next = (ahead graph search).erase node := by
  rw [(nodup_ahead well search).erase_eq_filter, ahead, ahead, List.filter_filter]
  refine List.filter_congr fun other _ => ?_
  rw [updated.lookup]
  by_cases same : other = node <;> simp [same]

end Step

namespace Passing

theorem mem_ahead (passing : Passing analysis graph search) (well : graph.WellDrawn)
    (consistent : Consistent analysis graph initial search) (waits : node ∈ search.worklist) :
    node ∈ Analysis.ahead graph search :=
  (Analysis.mem_ahead well).2 ⟨consistent.sorted.reached node waits, passing.facts?_eq_none waits⟩

/-- A search is over exactly if nothing is ahead. -/
theorem isEmpty_iff (passing : Passing analysis graph search) (well : graph.WellDrawn)
    (consistent : Consistent analysis graph initial search) :
    search.worklist.isEmpty = true ↔ (Analysis.ahead graph search).length = 0 := by
  rw [List.isEmpty_iff, List.length_eq_zero_iff]
  constructor
  · intro idle
    refine List.eq_nil_iff_forall_not_mem.2 fun node member => ?_
    obtain ⟨reaches, absent⟩ := (Analysis.mem_ahead well).1 member
    have present := (consistent.isSome_iff well idle node).2 reaches
    rw [absent] at present
    cases present
  · intro done
    refine List.eq_nil_iff_forall_not_mem.2 fun node waits => ?_
    have isAhead := passing.mem_ahead well consistent waits
    rw [done] at isAhead
    cases isAhead

/-- Every step leaves one node less ahead. -/
theorem length_ahead [BEq Value] [BEq Store] (passing : Passing analysis graph search)
    (well : graph.WellDrawn) (consistent : Consistent analysis graph initial search)
    (updated : Updated analysis graph search next node facts) :
    (Analysis.ahead graph next).length + 1 = (Analysis.ahead graph search).length := by
  rw [updated.ahead_eq well]
  exact List.length_erase_add_one (passing.mem_ahead well consistent updated.waiting)

end Passing

/-! ### Visits -/

/-- Every node with facts has been visited once, the entry apart, and no other node. -/
structure VisitedOnce (graph : Graph) (search : Search Value Store) : Prop where
  entry : search.visitsOf Graph.entry = 0
  reached : ∀ node, node ≠ Graph.entry → (search.facts? node).isSome → search.visitsOf node = 1
  unreached : ∀ node, search.facts? node = none → search.visitsOf node = 0
  visits : search.visits + (ahead graph search).length + 1 = graph.reversePostorder.length

/-- At the start no node but the entry has been visited. -/
theorem VisitedOnce.start (well : graph.WellDrawn) (initial : Store) :
    VisitedOnce graph (start graph graph.ranks initial : Search Value Store) := by
  refine ⟨visitsOf_start .., fun node different reached => ?_,
    fun node _ => visitsOf_start graph initial node, ?_⟩
  · rw [facts?_start well, if_neg different] at reached
    cases reached
  · rw [ahead_start well]
    have entered := (Graph.mem_reversePostorder well).2 (.entry graph)
    have length := List.length_erase_add_one entered
    have fresh : (Analysis.start graph graph.ranks initial : Search Value Store).visits = 0 := rfl
    omega

variable [BEq Value] [BEq Store]

/-- The node of an evaluation is visited for the first time. -/
theorem VisitedOnce.update (well : graph.WellDrawn)
    (consistent : Consistent analysis graph initial search)
    (updated : Updated analysis graph search next node facts)
    (passing : Passing analysis graph search) (once : VisitedOnce graph search) :
    VisitedOnce graph next := by
  obtain ⟨notEntry, bound, -⟩ := consistent.exists_input well updated.waiting
  have count := updated.visitsOf (consistent.visitsSize ▸ bound)
  have kept : ∀ {other : Nat}, other ≠ node → next.visitsOf other = search.visitsOf other := by
    intro other different
    rw [count, if_neg different, UInt32.add_zero]
  refine ⟨?_, fun other different reached => ?_, fun other absent => ?_, ?_⟩
  · rw [kept (Ne.symm notEntry), once.entry]
  · by_cases same : other = node
    · rw [same, count, once.unreached node (passing.facts?_eq_none updated.waiting), if_pos rfl,
        UInt32.zero_add]
    · rw [kept same]
      rw [updated.other same] at reached
      exact once.reached other different reached
  · have different : other ≠ node := by
      intro same
      rw [same, updated.self] at absent
      cases absent
    rw [kept different]
    rw [updated.other different] at absent
    exact once.unreached other absent
  · have fewer := passing.length_ahead well consistent updated
    have total := once.visits
    have more := updated.visits
    omega

/-! ### Runs -/

/-- A search needs as many steps as there are nodes ahead. -/
theorem isOk_run_iff (ordered : graph.Ordered) (well : graph.WellDrawn) {limit budget : Nat}
    (consistent : Consistent analysis graph initial search)
    (passing : Passing analysis graph search) (left : search.visits + budget = limit) :
    (analysis.run graph graph.ranks limit search).isOk = true ↔
      (ahead graph search).length ≤ budget := by
  induction budget generalizing search with
  | zero =>
      rw [run_eq, Nat.le_zero, ← passing.isEmpty_iff well consistent]
      split
      · rename_i idle
        exact iff_of_true rfl idle
      · rename_i busy
        rw [if_pos (by omega)]
        exact iff_of_false Bool.false_ne_true busy
  | succ budget ih =>
      rw [run_eq]
      split
      · rename_i idle
        have done := (passing.isEmpty_iff well consistent).1 idle
        exact iff_of_true rfl (by omega)
      · rename_i busy
        obtain ⟨node, facts, updated⟩ := consistent.exists_updated well
          (stepped analysis graph search (Bool.eq_false_iff.2 busy))
        have fewer := passing.length_ahead well consistent updated
        have visits := updated.visits
        rw [if_neg (by omega), ih (consistent.update well updated)
          (passing.update ordered well consistent updated) (by omega)]
        omega

/-- There is a solution exactly if the limit allows to visit every node but the entry. -/
theorem exists_solution_iff (ordered : graph.Ordered) (well : graph.WellDrawn) {limits : Limits} :
    (∃ solution, analysis.solveFrom limits graph initial = .ok solution) ↔
      graph.reversePostorder.length ≤ limits.visitLimit graph.size + 1 := by
  have consistent : Consistent analysis graph initial (start graph graph.ranks initial) :=
    .start well initial
  have needed := isOk_run_iff ordered well consistent (.start ordered well initial)
    (Nat.zero_add (limits.visitLimit graph.size))
  have length := List.length_erase_add_one ((Graph.mem_reversePostorder well).2 (.entry graph))
  rw [ahead_start well] at needed
  unfold solveFrom
  dsimp only
  split
  · rename_i solution found
    rw [found] at needed
    have within := needed.1 rfl
    exact iff_of_true ⟨solution, rfl⟩ (by omega)
  · rename_i found
    rw [found] at needed
    have beyond := mt needed.2 Bool.false_ne_true
    refine iff_of_false ?_ (by omega)
    rintro ⟨solution, failed⟩
    cases failed

/-- An acyclic graph is solved in one pass, whatever the analysis: it takes one visit of
every node that control can reach except the entry, and no limit below that suffices. -/
theorem solveFrom_of_acyclic {fragment : Fragment} {env : Environment}
    (built : Graph.ofFragment fragment env = .ok graph) (acyclic : graph.Acyclic)
    (analysis : Analysis Value Store) (limits : Limits) (initial : Store) :
    ((∃ solution, analysis.solveFrom limits graph initial = .ok solution) ↔
        {node | graph.Reaches node}.ncard - 1 ≤ limits.visitLimit graph.size) ∧
      ∀ solution, analysis.solveFrom limits graph initial = .ok solution →
        solution.visits = {node | graph.Reaches node}.ncard - 1 ∧
        (∀ node, graph.Reaches node → node ≠ Graph.entry → solution.visitsOf node = 1) ∧
        solution.visitsOf Graph.entry = 0 ∧
        ∀ node, ¬ graph.Reaches node → solution.visitsOf node = 0 := by
  have well := Graph.wellDrawn_of_ofFragment built
  have ordered := acyclic.ordered well
  rw [Graph.ncard_reaches well]
  refine ⟨?_, fun solution solved => ?_⟩
  · rw [exists_solution_iff ordered well]
    omega
  · obtain ⟨final, consistent, ⟨passing, once⟩, idle, rfl⟩ := of_solveFrom
      (fun search => Passing analysis graph search ∧ VisitedOnce graph search) well
      ⟨.start ordered well initial, .start well initial⟩
      (fun _ _ _ _ consistent updated ⟨passing, once⟩ =>
        ⟨passing.update ordered well consistent updated,
          once.update well consistent updated passing⟩) solved
    have reached := consistent.isSome_iff well idle
    refine ⟨?_, fun node reaches different => ?_, once.entry, fun node unreachable => ?_⟩
    · have none := (passing.isEmpty_iff well consistent).1 (List.isEmpty_iff.2 idle)
      have total := once.visits
      omega
    · exact once.reached node different ((reached node).2 reaches)
    · exact once.unreached node (Option.not_isSome_iff_eq_none.1 (mt (reached node).1 unreachable))

/-- A loop that is never repeated, with code that is never reached:
`while (more) { return; skip(); } done();`. -/
def abandonedLoop : Fragment :=
  .initializerOf "Loop"
    [.whileLoop (.ident "more") [.returnValue none, .exprStmt (.call "skip" [])],
      .exprStmt (.call "done" [])]

/-- Six visits are needed and six suffice; nothing visits the code after `return`. -/
theorem abandonedLoop_visited : ∃ graph solution,
    Graph.ofFragment abandonedLoop .builtins = .ok graph ∧ graph.Acyclic ∧
      loopCount.solveFrom ⟨0, 6⟩ graph 0 = .ok solution ∧
      solution.visits = {node | graph.Reaches node}.ncard - 1 ∧
      (∀ node, graph.Reaches node → node ≠ Graph.entry → solution.visitsOf node = 1) ∧
      solution.visitsOf Graph.entry = 0 ∧
      (∀ node, ¬ graph.Reaches node → solution.visitsOf node = 0) ∧
      5 < {node | graph.Reaches node}.ncard - 1 := by
  have built : Graph.ofFragment abandonedLoop .builtins =
      .ok ((Graph.draw abandonedLoop).finish abandonedLoop.name) := by
    decide +kernel
  have sixSuffice : (loopCount.solveFrom ⟨0, 6⟩ ((Graph.draw abandonedLoop).finish
      abandonedLoop.name) 0).isOk = true := by
    decide +kernel
  have fiveFail : (loopCount.solveFrom ⟨0, 5⟩ ((Graph.draw abandonedLoop).finish
      abandonedLoop.name) 0).isOk = false := by
    decide +kernel
  have onward : ((Graph.draw abandonedLoop).finish abandonedLoop.name).edges.all (fun edge =>
      !((Graph.draw abandonedLoop).finish abandonedLoop.name).reversePostorder.contains
          edge.source ||
        ((Graph.draw abandonedLoop).finish abandonedLoop.name).rank edge.source <
          ((Graph.draw abandonedLoop).finish abandonedLoop.name).rank edge.target) = true := by
    decide +kernel
  generalize (Graph.draw abandonedLoop).finish abandonedLoop.name = graph
    at built sixSuffice fiveFail onward
  have well := Graph.wellDrawn_of_ofFragment built
  have ordered : graph.Ordered := by
    intro edge drawn reaches
    have checked := Array.all_eq_true_iff_forall_mem.1 onward edge drawn
    simpa [(Graph.mem_reversePostorder well).2 reaches] using checked
  have acyclic := ordered.acyclic well
  cases solved : loopCount.solveFrom ⟨0, 6⟩ graph 0 with
  | error failure =>
      rw [solved] at sixSuffice
      cases sixSuffice
  | ok solution =>
      obtain ⟨visits, once, entry, never⟩ :=
        (solveFrom_of_acyclic built acyclic loopCount ⟨0, 6⟩ 0).2 solution solved
      refine ⟨graph, solution, built, acyclic, solved, visits, once, entry, never, ?_⟩
      have unsolved : ¬ ∃ solution, loopCount.solveFrom ⟨0, 5⟩ graph 0 = .ok solution := by
        rintro ⟨other, found⟩
        rw [found] at fiveFail
        cases fiveFail
      have beyond := mt (solveFrom_of_acyclic built acyclic loopCount ⟨0, 5⟩ 0).1.2 unsolved
      exact Nat.lt_of_not_le fun within => beyond (Nat.le_trans within (Nat.le_max_right _ _))

end Analysis

end FragmentFlow
