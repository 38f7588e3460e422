import FragmentFlow.Analysis.LoopCount
import FragmentFlow.Proofs.Solver.Limits
import Mathlib.Algebra.BigOperators.Group.Finset.Piecewise
import Mathlib.Order.Bounds.Basic

/-!
# The equations of a solved analysis

A solution gives facts to exactly the nodes that control can reach, and their inputs
are the joins of what arrives.  Its visits are the evaluations of all nodes, which are
counted for each node in 32 bits.  If nothing but the input counts for a node, outputs are
transferred inputs; if joins are least upper bounds and everything is monotone, no
other solution of the equations has smaller stores.
-/

namespace FragmentFlow.Analysis

variable {Value Store : Type} {analysis : Analysis Value Store} {graph : Graph} {initial : Store}

/-- Only the node and its input count for a transfer. -/
def DependsOnInput (analysis : Analysis Value Store) (graph : Graph) : Prop :=
  ∀ node store values others,
    analysis.transfer graph node store values = analysis.transfer graph node store others

/-- The equations of an analysis: where there are facts, what the inputs are, and what
the nodes make of them with the values that are recorded. -/
structure Solves (analysis : Analysis Value Store) (graph : Graph) (initial : Store)
    (solution : Solution Value Store) : Prop where
  reached : ∀ node, (solution.facts? node).isSome ↔ graph.Reaches node
  entry : ∃ facts, solution.facts? Graph.entry = some facts ∧ facts.input = initial ∧
    facts.output = initial
  input : ∀ node facts, node ≠ Graph.entry → solution.facts? node = some facts →
    analysis.inputAt graph solution node = some facts.input
  transfer : ∀ node facts, node ≠ Graph.entry → solution.facts? node = some facts →
    analysis.transfer graph node facts.input solution.recorded = (facts.value, facts.output)

/-- A search without work has facts wherever control can come. -/
theorem Consistent.isSome_iff {search : Search Value Store} (well : graph.WellDrawn)
    (consistent : Consistent analysis graph initial search) (idle : search.worklist = [])
    (node : Nat) : (search.facts? node).isSome ↔ graph.Reaches node := by
  refine ⟨consistent.reached node, ?_⟩
  rintro ⟨nodes, path⟩
  induction path with
  | stay => rw [consistent.entry]; rfl
  | step _ leaving ih =>
      obtain ⟨drawn, rfl⟩ := well.mem_successors.1 leaving
      rcases consistent.closed _ drawn ih with reached | waits
      · exact reached
      · rw [idle] at waits
        cases waits

/-- The inputs of a search without work are up to date. -/
theorem Current.inputAt_eq {search : Search Value Store}
    (current : Current analysis graph search) (idle : search.worklist = [])
    {node : Nat} {facts : Facts Value Store} (different : node ≠ Graph.entry)
    (found : search.facts? node = some facts) :
    analysis.inputAt graph search.toSolution node = some facts.input := by
  rcases current node facts different found with waits | input
  · rw [idle] at waits
    cases waits
  · exact input

/-! ### Evaluations -/

section Evaluations

variable [BEq Value] [BEq Store] {steps : Nat}

/-- How often a node is the first to be visited in so many steps of the search without
limit. -/
def evaluations (analysis : Analysis Value Store) (graph : Graph) (initial : Store)
    (steps node : Nat) : Nat :=
  (List.range steps).countP fun step =>
    (searchAfter analysis graph initial step).worklist.head? == some node

/-- A step evaluates the first node of the worklist. -/
theorem evaluations_succ (node : Nat) : evaluations analysis graph initial (steps + 1) node =
    evaluations analysis graph initial steps node +
      if (searchAfter analysis graph initial steps).worklist.head? = some node then 1 else 0 := by
  simp [evaluations, List.range_succ, List.countP_cons]

/-- A node is evaluated at most once in each step. -/
theorem evaluations_le (analysis : Analysis Value Store) (graph : Graph) (initial : Store)
    (steps node : Nat) : evaluations analysis graph initial steps node ≤ steps := by
  have counted := List.countP_le_length (l := List.range steps)
    (p := fun step => (searchAfter analysis graph initial step).worklist.head? == some node)
  rwa [List.length_range] at counted

/-- A step of the search without limit leaves it as it is or evaluates the first node. -/
theorem searchAfter_cases (well : graph.WellDrawn) (analysis : Analysis Value Store)
    (initial : Store) (steps : Nat) :
    (searchAfter analysis graph initial steps).worklist = [] ∧
        searchAfter analysis graph initial (steps + 1) = searchAfter analysis graph initial steps ∨
      ∃ node facts, Updated analysis graph (searchAfter analysis graph initial steps)
        (searchAfter analysis graph initial (steps + 1)) node facts := by
  rw [searchAfter_succ]
  by_cases idle : (searchAfter analysis graph initial steps).worklist = []
  · exact Or.inl ⟨idle, step_of_idle idle⟩
  · have consistent := (run_searchAfter well analysis initial steps).consistent well
      (.start well initial)
    exact Or.inr (consistent.exists_updated well
      (stepped analysis graph _ (List.isEmpty_eq_false_iff.2 idle)))

/-- A node is counted once for each evaluation, in 32 bits. -/
theorem visitsOf_searchAfter (well : graph.WellDrawn) (node : Nat) :
    (searchAfter analysis graph initial steps).visitsOf node =
      UInt32.ofNat (evaluations analysis graph initial steps node) := by
  induction steps with
  | zero => exact visitsOf_start graph initial node
  | succ steps ih =>
      rw [evaluations_succ]
      rcases searchAfter_cases well analysis initial steps with ⟨idle, same⟩ | ⟨id, _, updated⟩
      · rw [same, ih, idle]
        rfl
      · have consistent := (run_searchAfter well analysis initial steps).consistent well
          (.start well initial)
        obtain ⟨-, bound, -⟩ := consistent.exists_input well updated.waiting
        rw [updated.visitsOf (consistent.visitsSize ▸ bound), ih, updated.first,
          UInt32.ofNat_add]
        by_cases same : node = id
        · rw [if_pos same, if_pos (congrArg some same.symm)]
          rfl
        · rw [if_neg same, if_neg fun found => same (Option.some.inj found).symm]
          rfl

/-- Every visit evaluates one node. -/
theorem visits_eq_sum_evaluations (well : graph.WellDrawn) :
    (searchAfter analysis graph initial steps).visits =
      ∑ node ∈ Finset.range graph.size, evaluations analysis graph initial steps node := by
  induction steps with
  | zero => exact (Finset.sum_const_zero).symm
  | succ steps ih =>
      simp only [evaluations_succ, Finset.sum_add_distrib, ← ih]
      rcases searchAfter_cases well analysis initial steps with ⟨idle, same⟩ | ⟨id, _, updated⟩
      · simp [same, idle]
      · have consistent := (run_searchAfter well analysis initial steps).consistent well
          (.start well initial)
        obtain ⟨-, bound, -⟩ := consistent.exists_input well updated.waiting
        simp [updated.visits, updated.first, bound]

/-- The visits of a solution are the evaluations in as many steps, and each node is counted
once for each of its evaluations, in 32 bits. -/
theorem evaluations_of_solveFrom (well : graph.WellDrawn) {limits : Limits}
    {solution : Solution Value Store}
    (solved : analysis.solveFrom limits graph initial = .ok solution) :
    (∀ node, solution.visitsOf node =
        UInt32.ofNat (evaluations analysis graph initial solution.visits node)) ∧
      solution.visits = ∑ node ∈ Finset.range graph.size,
        evaluations analysis graph initial solution.visits node := by
  obtain ⟨steps, idle, -, rfl⟩ := solveFrom_eq_ok_iff.1 solved
  generalize isLast : (searchAfter analysis graph initial steps).visits = last
  have same : searchAfter analysis graph initial last = searchAfter analysis graph initial steps :=
    searchAfter_of_visits_le idle (Nat.le_of_eq isLast)
  rw [← same] at isLast ⊢
  exact ⟨fun node => visitsOf_searchAfter well node,
    isLast.symm.trans (visits_eq_sum_evaluations well)⟩

omit [BEq Value] [BEq Store] in
/-- Counts below the bound of 32 bits add up. -/
theorem sum_toNat_visitsOf {solution : Solution Value Store} {counts : Nat → Nat}
    (counted : ∀ node, solution.visitsOf node = UInt32.ofNat (counts node))
    (small : ∀ node, counts node < UInt32.size) (nodes : Finset Nat) :
    ∑ node ∈ nodes, (solution.visitsOf node).toNat = ∑ node ∈ nodes, counts node := by
  refine Finset.sum_congr rfl fun node _ => ?_
  rw [counted, UInt32.toNat_ofNat_of_lt' (small node)]

end Evaluations

/-! ### Transfers -/

/-- The facts of a search are transferred inputs, whatever values are recorded. -/
def Transferred (analysis : Analysis Value Store) (graph : Graph) (search : Search Value Store) :
    Prop :=
  ∀ node facts values, node ≠ Graph.entry → search.facts? node = some facts →
    analysis.transfer graph node facts.input values = (facts.value, facts.output)

/-- If only the input counts, an evaluation transfers it. -/
theorem Transferred.update [BEq Value] [BEq Store] {search next : Search Value Store} {node : Nat}
    {facts : Facts Value Store} (depends : DependsOnInput analysis graph)
    (updated : Updated analysis graph search next node facts)
    (transferred : Transferred analysis graph search) : Transferred analysis graph next := by
  intro other stored values different found
  by_cases same : other = node
  · subst same
    cases updated.self.symm.trans found
    obtain ⟨computed, -, transfer, rfl | ⟨old, -⟩⟩ := updated.evaluated
    · rw [depends other facts.input values search.valueOf, transfer]
    · exact transferred other facts values different old
  · rw [updated.other same] at found
    exact transferred other stored values different found

/-! ### Least solutions -/

section Least

variable [PartialOrder Store]

/-- If joins are least upper bounds, so is the join of some stores. -/
theorem isLUB_joinAll? {join : Store → Store → Store} (least : ∀ a b, IsLUB {a, b} (join a b))
    {stores : List Store} {joined : Store} (found : joinAll? join stores = some joined) :
    IsLUB {store | store ∈ stores} joined := by
  cases stores with
  | nil => cases found
  | cons first rest =>
      cases found
      induction rest generalizing first with
      | nil => simp
      | cons second rest ih =>
          have further := ih (join first second)
          have first_le : first ≤ join first second := (least first second).1 (by simp)
          have second_le : second ≤ join first second := (least first second).1 (by simp)
          have join_le := further.1 (List.mem_cons_self : join first second ∈ _ :: rest)
          constructor
          · intro store member
            rcases List.mem_cons.1 member with rfl | member
            · exact first_le.trans join_le
            · rcases List.mem_cons.1 member with rfl | later
              · exact second_le.trans join_le
              · exact further.1 (List.mem_cons_of_mem _ later)
          · intro bound above
            refine further.2 fun store member => ?_
            rcases List.mem_cons.1 member with rfl | later
            · refine (least first second).2 fun store member => above ?_
              rcases member with rfl | rfl
              · exact List.mem_cons_self
              · exact List.mem_cons_of_mem _ List.mem_cons_self
            · exact above (List.mem_cons_of_mem _ (List.mem_cons_of_mem _ later))

/-- Inputs are in order if all that arrives is. -/
theorem inputAt_le {solution other : Solution Value Store} {node : Nat} {input : Store}
    (least : ∀ a b, IsLUB {a, b} (analysis.join a b))
    (arrives : ∀ edge ∈ graph.predecessors node, ∀ store,
      analysis.arriving graph solution edge = some store →
        ∃ more, analysis.arriving graph other edge = some more ∧ store ≤ more)
    (found : analysis.inputAt graph solution node = some input) :
    ∃ more, analysis.inputAt graph other node = some more ∧ input ≤ more := by
  have above : ∀ store ∈ (graph.predecessors node).filterMap (analysis.arriving graph solution),
      ∃ more ∈ (graph.predecessors node).filterMap (analysis.arriving graph other),
        store ≤ more := by
    intro store member
    obtain ⟨edge, entering, carried⟩ := List.mem_filterMap.1 member
    obtain ⟨more, present, less⟩ := arrives edge entering store carried
    exact ⟨more, List.mem_filterMap.2 ⟨edge, entering, present⟩, less⟩
  have joined := isLUB_joinAll? least found
  rw [inputAt] at found ⊢
  cases joins : joinAll? analysis.join
      ((graph.predecessors node).filterMap (analysis.arriving graph other)) with
  | none =>
      cases stores : (graph.predecessors node).filterMap (analysis.arriving graph solution) with
      | nil =>
          rw [stores] at found
          cases found
      | cons first rest =>
          obtain ⟨more, member, -⟩ := above first (stores ▸ List.mem_cons_self)
          cases others : (graph.predecessors node).filterMap (analysis.arriving graph other) with
          | nil =>
              rw [others] at member
              cases member
          | cons _ _ =>
              rw [others] at joins
              cases joins
  | some more =>
      refine ⟨more, rfl, joined.2 fun store member => ?_⟩
      obtain ⟨bound, present, less⟩ := above store member
      exact less.trans ((isLUB_joinAll? least joins).1 present)

/-- What arrives along an edge grows with the facts of its source. -/
theorem arriving_le {solution other : Solution Value Store} {edge : Graph.Edge} {store : Store}
    (onEdge : Monotone (analysis.onEdge graph edge))
    (below : ∀ facts, solution.facts? edge.source = some facts →
      ∃ more, other.facts? edge.source = some more ∧ facts.input ≤ more.input ∧
        facts.output ≤ more.output)
    (carried : analysis.arriving graph solution edge = some store) :
    ∃ more, analysis.arriving graph other edge = some more ∧ store ≤ more := by
  obtain ⟨facts, found, rfl⟩ := Option.map_eq_some_iff.1 carried
  obtain ⟨more, present, inputs, outputs⟩ := below facts found
  refine ⟨_, Option.map_eq_some_iff.2 ⟨more, present, rfl⟩, onEdge ?_⟩
  split
  · exact inputs
  · exact outputs

/-- The stores of one solution are below those of another. -/
def Below (solution other : Solution Value Store) : Prop :=
  ∀ node facts larger, solution.facts? node = some facts → other.facts? node = some larger →
    facts.input ≤ larger.input ∧ facts.output ≤ larger.output

/-- At the start a search is below every solution. -/
theorem Below.start (well : graph.WellDrawn) {other : Solution Value Store}
    (solves : Solves analysis graph initial other) :
    Below (Analysis.start graph graph.ranks initial : Search Value Store).toSolution other := by
  intro node facts larger found stored
  rw [facts?_start well] at found
  split at found
  · rename_i isEntry
    cases found
    obtain ⟨entry, present, input, output⟩ := solves.entry
    rw [← isEntry, stored] at present
    cases present
    exact ⟨le_of_eq input.symm, le_of_eq output.symm⟩
  · cases found

/-- An evaluation of a monotone analysis stays below every solution. -/
theorem Below.update [BEq Value] [BEq Store] {search next : Search Value Store} {node : Nat}
    {facts : Facts Value Store} {other : Solution Value Store} (well : graph.WellDrawn)
    (depends : DependsOnInput analysis graph) (solves : Solves analysis graph initial other)
    (least : ∀ a b, IsLUB {a, b} (analysis.join a b))
    (transfer : ∀ node values, Monotone fun store => (analysis.transfer graph node store values).2)
    (onEdge : ∀ edge, Monotone (analysis.onEdge graph edge))
    (consistent : Consistent analysis graph initial search)
    (updated : Updated analysis graph search next node facts)
    (below : Below search.toSolution other) : Below next.toSolution other := by
  intro place stored larger found present
  by_cases same : place = node
  · subst same
    cases updated.self.symm.trans found
    obtain ⟨computed, joined, transferred, rfl | ⟨old, -⟩⟩ := updated.evaluated
    swap
    · exact below place facts larger old present
    obtain ⟨notEntry, -⟩ := consistent.exists_input well updated.waiting
    have input : facts.input ≤ larger.input := by
      have sources : ∀ source stored, search.facts? source = some stored →
          ∃ more, other.facts? source = some more ∧ stored.input ≤ more.input ∧
            stored.output ≤ more.output := by
        intro source stored reached
        obtain ⟨more, there⟩ := Option.isSome_iff_exists.1 ((solves.reached source).2
          (consistent.reached source (by rw [reached]; rfl)))
        exact ⟨more, there, below source stored more reached there⟩
      obtain ⟨input, isInput, le⟩ := inputAt_le least (fun edge _ _ =>
        arriving_le (onEdge edge) (sources edge.source)) joined
      cases (solves.input place larger notEntry present).symm.trans isInput
      exact le
    refine ⟨input, ?_⟩
    have output : (analysis.transfer graph place facts.input search.valueOf).2 ≤
        (analysis.transfer graph place larger.input search.valueOf).2 :=
      transfer place search.valueOf input
    rw [transferred, depends place larger.input search.valueOf other.recorded,
      solves.transfer place larger notEntry present] at output
    exact output
  · rw [updated.other same] at found
    exact below place stored larger found present

end Least

variable [BEq Value] [BEq Store] {limits : Limits} {solution : Solution Value Store}

/-- A solution has facts for the nodes that control can reach. -/
theorem reached_of_solveFrom (well : graph.WellDrawn)
    (solved : analysis.solveFrom limits graph initial = .ok solution) (node : Nat) :
    (solution.facts? node).isSome ↔ graph.Reaches node := by
  obtain ⟨final, consistent, -, idle, rfl⟩ := of_solveFrom (fun _ => True) well trivial
    (fun _ _ _ _ _ _ _ => trivial) solved
  exact consistent.isSome_iff well idle node

/-- The inputs of a solution are the joins of what arrives. -/
theorem inputAt_of_solveFrom [LawfulBEq Store] (well : graph.WellDrawn)
    (solved : analysis.solveFrom limits graph initial = .ok solution) {node : Nat}
    {facts : Facts Value Store} (different : node ≠ Graph.entry)
    (found : solution.facts? node = some facts) :
    analysis.inputAt graph solution node = some facts.input := by
  obtain ⟨final, -, current, idle, rfl⟩ := of_solveFrom (Current analysis graph) well
    (.start well initial) (fun _ _ _ _ _ updated => Current.update well updated) solved
  exact current.inputAt_eq idle different found

/-- A solution satisfies the equations if its facts are transferred inputs. -/
theorem solves_of_transfer [LawfulBEq Store] (well : graph.WellDrawn)
    (solved : analysis.solveFrom limits graph initial = .ok solution)
    (transfer : ∀ node facts, node ≠ Graph.entry → solution.facts? node = some facts →
      analysis.transfer graph node facts.input solution.recorded = (facts.value, facts.output)) :
    Solves analysis graph initial solution := by
  obtain ⟨final, consistent, -, idle, rfl⟩ := of_solveFrom (fun _ => True) well trivial
    (fun _ _ _ _ _ _ _ => trivial) solved
  exact ⟨consistent.isSome_iff well idle, ⟨_, consistent.entry, rfl, rfl⟩,
    fun node facts => inputAt_of_solveFrom well solved, transfer⟩

/-- A solution satisfies the equations if only the input counts for a node. -/
theorem solves_of_dependsOnInput [LawfulBEq Store] (well : graph.WellDrawn)
    (depends : DependsOnInput analysis graph)
    (solved : analysis.solveFrom limits graph initial = .ok solution) :
    Solves analysis graph initial solution := by
  have started : Transferred analysis graph (start graph graph.ranks initial) := by
    intro node facts values different found
    rw [facts?_start well, if_neg different] at found
    cases found
  obtain ⟨final, -, transferred, -, rfl⟩ :=
    of_solveFrom (Transferred analysis graph) well started
      (fun _ _ _ _ _ updated => Transferred.update depends updated) solved
  exact solves_of_transfer well solved fun node facts => transferred node facts _

/-- A solution of a monotone analysis is below every other one. -/
theorem below_of_solveFrom [PartialOrder Store] (well : graph.WellDrawn)
    (depends : DependsOnInput analysis graph)
    (least : ∀ a b, IsLUB {a, b} (analysis.join a b))
    (transfer : ∀ node values, Monotone fun store => (analysis.transfer graph node store values).2)
    (onEdge : ∀ edge, Monotone (analysis.onEdge graph edge)) {other : Solution Value Store}
    (solves : Solves analysis graph initial other)
    (solved : analysis.solveFrom limits graph initial = .ok solution) : Below solution other := by
  obtain ⟨final, -, below, -, rfl⟩ :=
    of_solveFrom (fun search => Below search.toSolution other) well
      (Below.start well solves)
      (fun _ _ _ _ consistent updated =>
        Below.update well depends solves least transfer onEdge consistent updated) solved
  exact below

/-- A solved analysis satisfies its equations: there are facts exactly where control can
come, every input is the join of what the reached predecessors carry, and the visits are
the evaluations of all nodes.  A node is counted in 32 bits, so the counts add up as long
as no node is evaluated more often.  If only the input counts for a node, outputs are
transferred inputs, and the solution is the least one of a monotone analysis. -/
theorem solveFrom_solves [LawfulBEq Store] {fragment : Fragment} {env : Environment}
    (built : Graph.ofFragment fragment env = .ok graph)
    (solved : analysis.solveFrom limits graph initial = .ok solution) :
    (∀ node, (solution.facts? node).isSome ↔ graph.Reaches node) ∧
      (∀ node facts, node ≠ Graph.entry → solution.facts? node = some facts →
        joinAll? analysis.join ((graph.predecessors node).filterMap fun edge =>
          (solution.facts? edge.source).map fun source => analysis.onEdge graph edge
            (if edge.kind = .exception then source.input else source.output)) =
              some facts.input) ∧
      (∀ node, solution.visitsOf node =
        UInt32.ofNat (evaluations analysis graph initial solution.visits node)) ∧
      solution.visits = ∑ node ∈ Finset.range graph.size,
        evaluations analysis graph initial solution.visits node ∧
      ((∀ node, evaluations analysis graph initial solution.visits node < UInt32.size) →
        solution.visits = ∑ node ∈ Finset.range graph.size, (solution.visitsOf node).toNat) ∧
      (analysis.DependsOnInput graph →
        Solves analysis graph initial solution ∧
        ∀ [PartialOrder Store], (∀ a b, IsLUB {a, b} (analysis.join a b)) →
          (∀ node values, Monotone fun store => (analysis.transfer graph node store values).2) →
          (∀ edge, Monotone (analysis.onEdge graph edge)) →
          ∀ other, Solves analysis graph initial other → Below solution other) := by
  have well := Graph.wellDrawn_of_ofFragment built
  obtain ⟨counted, total⟩ := evaluations_of_solveFrom well solved
  refine ⟨reached_of_solveFrom well solved, fun node facts => inputAt_of_solveFrom well solved,
    counted, total, fun small => ?_, fun depends => ?_⟩
  · rw [sum_toNat_visitsOf counted small]
    exact total
  · exact ⟨solves_of_dependsOnInput well depends solved,
      fun least transfer onEdge other solves =>
        below_of_solveFrom well depends least transfer onEdge solves solved⟩

/-- A loop that is entered on one of two ways and left from its body:
`if (ready) while (more) { call(); break; }`. -/
def guardedLoop : Fragment :=
  .initializerOf "Loop"
    [.ifElse (.ident "ready")
      [.whileLoop (.ident "more") [.exprStmt (.call "call" []), .breakLoop]] none]

/-- The loops around each node of the guarded loop are counted in six visits. -/
theorem guardedLoop_solved : ∃ graph solution,
    Graph.ofFragment guardedLoop .builtins = .ok graph ∧
      loopCount.solveFrom {} graph 0 = .ok solution ∧
      (∀ node, (solution.facts? node).isSome ↔ graph.Reaches node) ∧
      solution.visits = ∑ node ∈ Finset.range graph.size, (solution.visitsOf node).toNat ∧
      Solves loopCount graph 0 solution ∧
      ∀ other, Solves loopCount graph 0 other → Below solution other := by
  have built : Graph.ofFragment guardedLoop .builtins =
      .ok ((Graph.draw guardedLoop).finish guardedLoop.name) := by
    decide +kernel
  have solvable : (loopCount.solveFrom {} ((Graph.draw guardedLoop).finish guardedLoop.name)
      0).toOption.map Solution.visits = some 6 := by
    decide +kernel
  generalize (Graph.draw guardedLoop).finish guardedLoop.name = graph at built solvable
  obtain ⟨solution, isSolution, visits⟩ := Option.map_eq_some_iff.1 solvable
  have solved := ok_of_toOption isSolution
  obtain ⟨reached, -, -, -, total, rest⟩ := solveFrom_solves built solved
  obtain ⟨solves, least⟩ := rest fun _ _ _ _ => rfl
  refine ⟨graph, solution, built, solved, reached, total fun node => ?_, solves,
    least (fun a b => isLUB_pair) (fun node _ a b le => ?_) fun _ => monotone_id⟩
  · rw [visits]
    exact (evaluations_le loopCount graph 0 6 node).trans_lt (by decide)
  · dsimp only [loopCount]
    split
    · exact Nat.succ_le_succ le
    · exact le

end FragmentFlow.Analysis
