import FragmentFlow.Proofs.Solver.Equations

/-!
# Counters that start again

The visits to one node are counted in 32 bits and all visits in as many as are needed.  An
analysis that counts up to a bound goes around a loop once for every number, so it takes a lattice
of that height to bring the counter of a node back to zero.  The visits then do not add up.
-/

namespace FragmentFlow.Analysis

/-- The largest number of loop heads on a way to a node, up to a bound. -/
def cappedCount (bound : Nat) : Analysis Unit Nat where
  initial _ := 0
  transfer graph node store _ :=
    (none, if graph.action? node = some .loopHead then min (store + 1) bound else store)
  join := max
  joinValues _ _ := ()

/-- A loop without a body: `while (busy) {}`. -/
def emptyLoop : Fragment :=
  .initializerOf "Loop" [.whileLoop (.ident "busy") []]

/-- The graph of the loop: its head, its condition and the exits. -/
structure IsEmptyLoop (graph : Graph) : Prop where
  size : graph.size = 5
  ranks : graph.ranks = #[some 0, some 1, some 2, some 3, none]
  entered : graph.targets Graph.entry = [1]
  atHead : graph.targets 1 = [2] ∧ graph.action? 1 = some .loopHead ∧
    graph.predecessors 1 = [⟨0, 1, .normal⟩, ⟨2, 1, .onTrue⟩]
  atCondition : graph.targets 2 = [1, 3] ∧ graph.action? 2 = some (.ident "busy") ∧
    graph.predecessors 2 = [⟨1, 2, .normal⟩]
  atExit : graph.targets 3 = [] ∧ graph.action? 3 = some .exit ∧
    graph.predecessors 3 = [⟨2, 3, .onFalse⟩]

/-- There is a graph for the loop. -/
theorem exists_isEmptyLoop :
    ∃ graph, Graph.ofFragment emptyLoop .builtins = .ok graph ∧ IsEmptyLoop graph := by
  have built : Graph.ofFragment emptyLoop .builtins =
      .ok ((Graph.draw emptyLoop).finish emptyLoop.name) := by
    decide +kernel
  refine ⟨_, built, ?_, ?_, ?_, ?_, ?_, ?_⟩
  all_goals decide +kernel

/-- The search when the condition has been visited `turns + 1` times. -/
def turned (turns : Nat) : Search Unit Nat where
  facts := #[some ⟨none, 0, 0⟩, some ⟨none, turns, turns + 1⟩, some ⟨none, turns + 1, turns + 1⟩,
    none, none]
  nodeVisits := #[0, .ofNat (turns + 1), .ofNat (turns + 1), 0, 0]
  visits := 2 * (turns + 1)
  worklist := [1, 3]

section Steps

variable {Value Store : Type} [BEq Value] [BEq Store] {analysis : Analysis Value Store}
  {graph : Graph} {search : Search Value Store} {node : Nat} {rest : List Nat}
  {input output : Store} {value : Option Value}

/-- The first node waiting is evaluated, and its facts are not what they were. -/
theorem step_revised (first : search.worklist = node :: rest)
    (arrives : analysis.inputAt graph search.toSolution node = some input)
    (transferred : analysis.transfer graph node input search.valueOf = (value, output))
    (changed : ∀ old, search.facts? node = some old → old.differ ⟨value, input, output⟩ = true) :
    analysis.step graph graph.ranks search =
      { search with
        facts := search.facts.setIfInBounds node (some ⟨value, input, output⟩)
        nodeVisits := search.nodeVisits.modify node (· + 1)
        visits := search.visits + 1
        worklist := enqueueAll graph.ranks (graph.targets node) rest } := by
  have stepped := stepped analysis graph search (by rw [first]; rfl)
  generalize analysis.step graph graph.ranks search = next at stepped ⊢
  cases stepped with
  | skipped isFirst nothing =>
      cases first.symm.trans isFirst
      cases arrives.symm.trans nothing
  | confirmed isFirst isInput transfers present same =>
      cases first.symm.trans isFirst
      cases arrives.symm.trans isInput
      cases transferred.symm.trans transfers
      cases same.symm.trans (changed _ present)
  | revised isFirst isInput transfers _ =>
      cases first.symm.trans isFirst
      cases arrives.symm.trans isInput
      cases transferred.symm.trans transfers
      rfl

/-- The first node waiting is evaluated, and its facts are what they were. -/
theorem step_confirmed {old : Facts Value Store} (first : search.worklist = node :: rest)
    (arrives : analysis.inputAt graph search.toSolution node = some input)
    (transferred : analysis.transfer graph node input search.valueOf = (value, output))
    (present : search.facts? node = some old) (same : old.differ ⟨value, input, output⟩ = false) :
    analysis.step graph graph.ranks search =
      { search with
        nodeVisits := search.nodeVisits.modify node (· + 1)
        visits := search.visits + 1
        worklist := rest } := by
  have stepped := stepped analysis graph search (by rw [first]; rfl)
  generalize analysis.step graph graph.ranks search = next at stepped ⊢
  cases stepped with
  | skipped isFirst nothing =>
      cases first.symm.trans isFirst
      cases arrives.symm.trans nothing
  | confirmed isFirst =>
      cases first.symm.trans isFirst
      rfl
  | revised isFirst isInput transfers changed =>
      cases first.symm.trans isFirst
      cases arrives.symm.trans isInput
      cases transferred.symm.trans transfers
      cases same.symm.trans (changed old present)

end Steps

variable {graph : Graph}

/-- The search when the head has been visited once more than the condition. -/
def entering (bound turns : Nat) : Search Unit Nat where
  facts := #[some ⟨none, 0, 0⟩, some ⟨none, turns + 1, min (turns + 2) bound⟩,
    some ⟨none, turns + 1, turns + 1⟩, none, none]
  nodeVisits := #[0, .ofNat (turns + 2), .ofNat (turns + 1), 0, 0]
  visits := 2 * (turns + 1) + 1
  worklist := [2, 3]

/-- The head counts on from where the condition left off, up to the bound. -/
theorem step_turned (isLoop : IsEmptyLoop graph) (bound turns : Nat) :
    (cappedCount bound).step graph graph.ranks (turned turns) = entering bound turns := by
  obtain ⟨targets, action, predecessors⟩ := isLoop.atHead
  have arrives : (cappedCount bound).inputAt graph (turned turns).toSolution 1 =
      some (turns + 1) := by
    simp [inputAt, predecessors, arriving, Solution.facts?, turned, cappedCount, joinAll?]
  have transferred : (cappedCount bound).transfer graph 1 (turns + 1) (turned turns).valueOf =
      (none, min (turns + 2) bound) := by
    simp [cappedCount, action]
  rw [step_revised rfl arrives transferred, targets, isLoop.ranks]
  · simp [turned, entering, enqueueAll, enqueue, comesBefore, UInt32.add_assoc]
  · rintro old found
    cases found
    simp [Facts.differ]

/-- Below the bound the condition has a larger count before it, and the head waits again. -/
theorem step_entering (isLoop : IsEmptyLoop graph) {bound turns : Nat} (below : turns + 2 ≤ bound) :
    (cappedCount bound).step graph graph.ranks (entering bound turns) = turned (turns + 1) := by
  obtain ⟨targets, action, predecessors⟩ := isLoop.atCondition
  have least : min (turns + 2) bound = turns + 2 := Nat.min_eq_left below
  have arrives : (cappedCount bound).inputAt graph (entering bound turns).toSolution 2 =
      some (turns + 2) := by
    simp [inputAt, predecessors, arriving, Solution.facts?, entering, cappedCount, joinAll?, least]
  have transferred : (cappedCount bound).transfer graph 2 (turns + 2)
      (entering bound turns).valueOf = (none, turns + 2) := by
    simp [cappedCount, action]
  rw [step_revised rfl arrives transferred, targets, isLoop.ranks]
  · simp [turned, entering, enqueueAll, enqueue, comesBefore, least, UInt32.add_assoc]
    omega
  · rintro old found
    cases found
    simp [Facts.differ]

/-- The search when only the exit is left. -/
def leaving (bound : Nat) : Search Unit Nat where
  facts := #[some ⟨none, 0, 0⟩, some ⟨none, bound, bound⟩, some ⟨none, bound, bound⟩, none, none]
  nodeVisits := #[0, .ofNat (bound + 1), .ofNat (bound + 1), 0, 0]
  visits := 2 * (bound + 1)
  worklist := [3]

/-- At the bound the condition stays as it was. -/
theorem step_entering_bound (isLoop : IsEmptyLoop graph) (turns : Nat) :
    (cappedCount (turns + 1)).step graph graph.ranks (entering (turns + 1) turns) =
      leaving (turns + 1) := by
  obtain ⟨-, action, predecessors⟩ := isLoop.atCondition
  have arrives : (cappedCount (turns + 1)).inputAt graph (entering (turns + 1) turns).toSolution 2 =
      some (turns + 1) := by
    simp [inputAt, predecessors, arriving, Solution.facts?, entering, cappedCount, joinAll?]
  have transferred : (cappedCount (turns + 1)).transfer graph 2 (turns + 1)
      (entering (turns + 1) turns).valueOf = (none, turns + 1) := by
    simp [cappedCount, action]
  rw [step_confirmed rfl arrives transferred rfl (by simp [Facts.differ])]
  simp [entering, leaving, UInt32.add_assoc]
  omega

/-- The search when no work is left. -/
def settled (bound : Nat) : Search Unit Nat where
  facts := #[some ⟨none, 0, 0⟩, some ⟨none, bound, bound⟩, some ⟨none, bound, bound⟩,
    some ⟨none, bound, bound⟩, none]
  nodeVisits := #[0, .ofNat (bound + 1), .ofNat (bound + 1), 1, 0]
  visits := 2 * (bound + 1) + 1
  worklist := []

/-- The exit is visited last. -/
theorem step_leaving (isLoop : IsEmptyLoop graph) (bound : Nat) :
    (cappedCount bound).step graph graph.ranks (leaving bound) = settled bound := by
  obtain ⟨targets, action, predecessors⟩ := isLoop.atExit
  have arrives : (cappedCount bound).inputAt graph (leaving bound).toSolution 3 = some bound := by
    simp [inputAt, predecessors, arriving, Solution.facts?, leaving, cappedCount, joinAll?]
  have transferred : (cappedCount bound).transfer graph 3 bound (leaving bound).valueOf =
      (none, bound) := by
    simp [cappedCount, action]
  rw [step_revised rfl arrives transferred, targets]
  · simp [leaving, settled, enqueueAll]
  · rintro old found
    cases found

/-- The search before anything is visited. -/
theorem start_emptyLoop (isLoop : IsEmptyLoop graph) :
    (start graph graph.ranks 0 : Search Unit Nat) =
      { facts := #[some ⟨none, 0, 0⟩, none, none, none, none]
        nodeVisits := #[0, 0, 0, 0, 0]
        visits := 0
        worklist := [1] } := by
  rw [start, isLoop.size, isLoop.entered]
  rfl

/-- The head is entered from outside first. -/
theorem searchAfter_one (isLoop : IsEmptyLoop graph) (bound : Nat) :
    searchAfter (cappedCount (bound + 1)) graph 0 1 =
      { facts := #[some ⟨none, 0, 0⟩, some ⟨none, 0, 1⟩, none, none, none]
        nodeVisits := #[0, 1, 0, 0, 0]
        visits := 1
        worklist := [2] } := by
  obtain ⟨targets, action, predecessors⟩ := isLoop.atHead
  have begun := start_emptyLoop isLoop
  have arrives : (cappedCount (bound + 1)).inputAt graph
      (start graph graph.ranks 0 : Search Unit Nat).toSolution 1 = some 0 := by
    simp [begun, inputAt, predecessors, arriving, Solution.facts?, cappedCount, joinAll?]
  have transferred : (cappedCount (bound + 1)).transfer graph 1 0
      (start graph graph.ranks 0 : Search Unit Nat).valueOf = (none, 1) := by
    simp [cappedCount, action]
  rw [searchAfter, Function.iterate_one,
    step_revised (congrArg Search.worklist begun) arrives transferred, begun, targets]
  · simp [enqueueAll, enqueue]
  · intro old found
    rw [begun] at found
    cases found

/-- The first turn around the loop. -/
theorem searchAfter_two (isLoop : IsEmptyLoop graph) (bound : Nat) :
    searchAfter (cappedCount (bound + 1)) graph 0 2 = turned 0 := by
  obtain ⟨targets, action, predecessors⟩ := isLoop.atCondition
  have first := searchAfter_one isLoop bound
  have arrives : (cappedCount (bound + 1)).inputAt graph
      (searchAfter (cappedCount (bound + 1)) graph 0 1).toSolution 2 = some 1 := by
    rw [first]
    simp [inputAt, predecessors, arriving, Solution.facts?, cappedCount, joinAll?]
  have transferred : (cappedCount (bound + 1)).transfer graph 2 1
      (searchAfter (cappedCount (bound + 1)) graph 0 1).valueOf = (none, 1) := by
    simp [cappedCount, action]
  rw [searchAfter_succ, step_revised (congrArg Search.worklist first) arrives transferred, first,
    targets, isLoop.ranks]
  · simp [turned, enqueueAll, enqueue, comesBefore]
  · intro old found
    rw [first] at found
    cases found

/-- Each turn around the loop counts on by one. -/
theorem searchAfter_turned (isLoop : IsEmptyLoop graph) {bound turns : Nat}
    (below : turns + 1 ≤ bound) :
    searchAfter (cappedCount bound) graph 0 (2 * (turns + 1)) = turned turns := by
  induction turns with
  | zero =>
      obtain ⟨less, rfl⟩ := Nat.exists_eq_add_of_le' below
      exact searchAfter_two isLoop less
  | succ turns ih =>
      have two : 2 * (turns + 1 + 1) = 2 * (turns + 1) + 1 + 1 := by omega
      rw [two, searchAfter_succ, searchAfter_succ, ih (by omega), step_turned isLoop,
        step_entering isLoop (by omega)]

/-- Counting up to a bound takes one more turn around the loop than the bound, and the exit is
visited once. -/
theorem solveFrom_cappedCount (isLoop : IsEmptyLoop graph) {limits : Limits} (turns : Nat)
    (enough : 2 * (turns + 2) + 1 ≤ limits.visitLimit graph.size) :
    (cappedCount (turns + 1)).solveFrom limits graph 0 = .ok (settled (turns + 1)).toSolution := by
  have last : searchAfter (cappedCount (turns + 1)) graph 0 (2 * (turns + 1) + 1 + 1 + 1) =
      settled (turns + 1) := by
    rw [searchAfter_succ, searchAfter_succ, searchAfter_succ,
      searchAfter_turned isLoop (Nat.le_refl _), step_turned isLoop, step_entering_bound isLoop,
      step_leaving isLoop]
  refine solveFrom_eq_ok_iff.2 ⟨_, ?_, ?_, congrArg Search.toSolution last⟩
  · rw [last]
    rfl
  · rw [last]
    exact enough

/-- Where a node is visited as often as 32 bits can count and once more, its counter starts again.
The visits to the nodes then add up to one, that to the exit, and not to all visits. -/
theorem cappedCount_wraps : ∃ graph solution,
    Graph.ofFragment emptyLoop .builtins = .ok graph ∧
      (cappedCount (UInt32.size - 1)).solveFrom { leastVisits := 10000000000 } graph 0 =
        .ok solution ∧
      solution.visits = 2 * UInt32.size + 1 ∧
      ∑ node ∈ Finset.range graph.size, (solution.visitsOf node).toNat = 1 := by
  obtain ⟨graph, built, isLoop⟩ := exists_isEmptyLoop
  refine ⟨graph, _, built, solveFrom_cappedCount isLoop (UInt32.size - 2) ?_, rfl, ?_⟩
  · rw [isLoop.size]
    decide
  · rw [isLoop.size]
    rfl

end FragmentFlow.Analysis
