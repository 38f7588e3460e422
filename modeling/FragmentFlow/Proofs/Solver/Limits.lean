import FragmentFlow.Analysis.Assigned
import FragmentFlow.Proofs.Drawing.TypeNames
import FragmentFlow.Proofs.Solver.Search

/-!
# The limit decides success only

Without a limit the search goes on step by step, and a search without work stays as it
is.  A limit only tells at which of these searches to stop looking: what is found there
is the same for all limits that suffice.
-/

namespace FragmentFlow.Analysis

variable {Value Store : Type} {analysis : Analysis Value Store} {graph : Graph} {initial : Store}
  {search next : Search Value Store} {steps more : Nat}

/-- A step is one visit. -/
theorem Stepped.visits [BEq Value] [BEq Store] (stepped : Stepped analysis graph search next) :
    next.visits = search.visits + 1 := by
  cases stepped <;> rfl

/-- An answer that is there is a success. -/
theorem ok_of_toOption {failure α : Type} {result : Except failure α} {value : α}
    (found : result.toOption = some value) : result = .ok value := by
  cases result with
  | error _ => cases found
  | ok _ => exact congrArg Except.ok (Option.some.inj found)

/-- What is read off the facts of a solution holds of one. -/
theorem exists_facts_of_report {failure α : Type} {result : Except failure (Solution Value Store)}
    {node : Nat} {report : Solution Value Store → Facts Value Store → α} {value : α}
    (reported : (result.toOption.bind fun solution =>
      (solution.facts? node).map (report solution)) = some value) :
    ∃ solution facts, result = .ok solution ∧ solution.facts? node = some facts ∧
      report solution facts = value := by
  obtain ⟨solution, isSolution, found⟩ := Option.bind_eq_some_iff.1 reported
  obtain ⟨facts, present, isValue⟩ := Option.map_eq_some_iff.1 found
  exact ⟨solution, facts, ok_of_toOption isSolution, present, isValue⟩

variable [BEq Value] [BEq Store]

/-- The search after so many steps from a store at the entry, without a limit. -/
def searchAfter (analysis : Analysis Value Store) (graph : Graph) (initial : Store)
    (steps : Nat) : Search Value Store :=
  (analysis.step graph graph.ranks)^[steps] (start graph graph.ranks initial)

/-! ### Steps -/

/-- Nothing happens when nothing waits. -/
theorem step_of_idle (idle : search.worklist = []) :
    analysis.step graph graph.ranks search = search := by
  rw [step, idle]

theorem visits_step (busy : search.worklist ≠ []) :
    (analysis.step graph graph.ranks search).visits = search.visits + 1 :=
  (stepped analysis graph search (List.isEmpty_eq_false_iff.2 busy)).visits

/-- The search after one more step. -/
theorem searchAfter_succ (analysis : Analysis Value Store) (graph : Graph) (initial : Store)
    (steps : Nat) : searchAfter analysis graph initial (steps + 1) =
      analysis.step graph graph.ranks (searchAfter analysis graph initial steps) :=
  Function.iterate_succ_apply' ..

/-- A search without work is the last one. -/
theorem searchAfter_of_idle (idle : (searchAfter analysis graph initial steps).worklist = [])
    (le : steps ≤ more) :
    searchAfter analysis graph initial more = searchAfter analysis graph initial steps := by
  induction more, le using Nat.le_induction with
  | base => rfl
  | succ more _ ih =>
      rw [searchAfter_succ, ih]
      exact step_of_idle idle

/-- A step is a run of one evaluation or none. -/
theorem run_step (well : graph.WellDrawn) (consistent : Consistent analysis graph initial search) :
    Run analysis graph search (analysis.step graph graph.ranks search) := by
  by_cases idle : search.worklist = []
  · rw [step_of_idle idle]
    exact .refl
  · obtain ⟨node, facts, updated⟩ := consistent.exists_updated well
      (stepped analysis graph search (List.isEmpty_eq_false_iff.2 idle))
    exact .step .refl updated

/-- The searches without limit are those of a run. -/
theorem run_searchAfter (well : graph.WellDrawn) (analysis : Analysis Value Store)
    (initial : Store) (steps : Nat) :
    Run analysis graph (start graph graph.ranks initial)
      (searchAfter analysis graph initial steps) := by
  induction steps with
  | zero => exact .refl
  | succ steps ih =>
      rw [searchAfter_succ]
      exact ih.trans (run_step well (ih.consistent well (.start well initial)))

/-- The search after more steps is a run from that after fewer. -/
theorem run_searchAfter_of_le (well : graph.WellDrawn) (le : steps ≤ more) :
    Run analysis graph (searchAfter analysis graph initial steps)
      (searchAfter analysis graph initial more) := by
  induction more, le using Nat.le_induction with
  | base => exact .refl
  | succ more _ ih =>
      have run := run_searchAfter well analysis initial more
      rw [searchAfter_succ]
      exact ih.trans (run_step well (run.consistent well (.start well initial)))

/-! ### Visits -/

/-- While there is work, every step is a visit. -/
theorem visits_searchAfter (busy : (searchAfter analysis graph initial steps).worklist ≠ []) :
    (searchAfter analysis graph initial steps).visits = steps := by
  induction steps with
  | zero => rfl
  | succ steps ih =>
      have before : (searchAfter analysis graph initial steps).worklist ≠ [] := by
        intro idle
        rw [searchAfter_of_idle idle (Nat.le_succ steps)] at busy
        exact busy idle
      rw [searchAfter_succ, visits_step before, ih before]

/-- A step is at most one visit. -/
theorem visits_succ (analysis : Analysis Value Store) (graph : Graph) (initial : Store)
    (steps : Nat) :
    (searchAfter analysis graph initial steps).visits ≤
        (searchAfter analysis graph initial (steps + 1)).visits ∧
      (searchAfter analysis graph initial (steps + 1)).visits ≤
        (searchAfter analysis graph initial steps).visits + 1 := by
  rw [searchAfter_succ]
  by_cases idle : (searchAfter analysis graph initial steps).worklist = []
  · rw [step_of_idle idle]
    exact ⟨Nat.le_refl _, Nat.le_succ _⟩
  · rw [visits_step idle]
    exact ⟨Nat.le_succ _, Nat.le_refl _⟩

theorem visits_searchAfter_mono (analysis : Analysis Value Store) (graph : Graph)
    (initial : Store) : Monotone fun steps => (searchAfter analysis graph initial steps).visits :=
  monotone_nat_of_le_succ fun steps => (visits_succ analysis graph initial steps).1

theorem visits_searchAfter_le (analysis : Analysis Value Store) (graph : Graph) (initial : Store)
    (steps : Nat) : (searchAfter analysis graph initial steps).visits ≤ steps := by
  induction steps with
  | zero => exact Nat.le_refl 0
  | succ steps ih =>
      exact (visits_succ analysis graph initial steps).2.trans (Nat.succ_le_succ ih)

/-- Where work is left after so many steps, one more visit begins. -/
theorem visits_of_busy (busy : (searchAfter analysis graph initial steps).worklist ≠ []) :
    (searchAfter analysis graph initial (steps + 1)).visits = steps + 1 := by
  rw [searchAfter_succ, visits_step busy, visits_searchAfter busy]

/-- A search that ends with so many visits ends after so many steps. -/
theorem searchAfter_of_visits_le (idle : (searchAfter analysis graph initial steps).worklist = [])
    (le : (searchAfter analysis graph initial steps).visits ≤ more) :
    searchAfter analysis graph initial more = searchAfter analysis graph initial steps := by
  rcases Nat.le_total steps more with before | behind
  · exact searchAfter_of_idle idle before
  · have ended : (searchAfter analysis graph initial more).worklist = [] := by
      by_contra busy
      have apart : more ≠ steps := by
        rintro rfl
        exact busy idle
      have later : more + 1 ≤ steps := Nat.lt_of_le_of_ne behind apart
      have visits := visits_searchAfter_mono analysis graph initial later
      dsimp only at visits
      rw [visits_of_busy busy] at visits
      omega
    exact (searchAfter_of_idle ended behind).symm

/-! ### Limits -/

/-- A search ends with its solution if no work is left at the limit, and fails with the next
visit otherwise. -/
theorem run_eq_iterate {budget limit : Nat} (left : search.visits + budget = limit) :
    analysis.run graph graph.ranks limit search =
      if ((analysis.step graph graph.ranks)^[budget] search).worklist = [] then
        .ok ((analysis.step graph graph.ranks)^[budget] search).toSolution
      else .error (limit + 1) := by
  induction budget generalizing search with
  | zero =>
      have past : limit < search.visits + 1 := by omega
      rw [run_eq, Function.iterate_zero_apply, if_pos past, ← left]
      simp only [List.isEmpty_iff, Nat.add_zero]
  | succ budget ih =>
      by_cases idle : search.worklist = []
      · have stays : (analysis.step graph graph.ranks)^[budget + 1] search = search :=
          Function.iterate_fixed (step_of_idle idle) _
        rw [stays, if_pos idle, run_eq, if_pos (List.isEmpty_iff.2 idle)]
      · have visits : (analysis.step graph graph.ranks search).visits = _ := visits_step idle
        rw [run_eq, if_neg (by rwa [List.isEmpty_iff]), if_neg (by omega), ih (by omega),
          Function.iterate_succ_apply]

theorem solveFrom_eq (analysis : Analysis Value Store) (graph : Graph) (initial : Store)
    (limits : Limits) :
    analysis.solveFrom limits graph initial =
      if (searchAfter analysis graph initial (limits.visitLimit graph.size)).worklist = [] then
        .ok (searchAfter analysis graph initial (limits.visitLimit graph.size)).toSolution
      else .error (.nonConvergent graph.label (limits.visitLimit graph.size + 1)
        (limits.visitLimit graph.size)) := by
  unfold solveFrom searchAfter
  dsimp only
  rw [run_eq_iterate (Nat.zero_add (limits.visitLimit graph.size))]
  split_ifs <;> rfl

theorem solveFrom_eq_ok_iff {limits : Limits} {solution : Solution Value Store} :
    analysis.solveFrom limits graph initial = .ok solution ↔
      ∃ steps, (searchAfter analysis graph initial steps).worklist = [] ∧
        (searchAfter analysis graph initial steps).visits ≤ limits.visitLimit graph.size ∧
        (searchAfter analysis graph initial steps).toSolution = solution := by
  rw [solveFrom_eq]
  constructor
  · intro solved
    split_ifs at solved with idle
    exact ⟨_, idle, visits_searchAfter_le analysis graph initial _, Except.ok.inj solved⟩
  · rintro ⟨steps, idle, visits, rfl⟩
    rw [searchAfter_of_visits_le idle visits, if_pos idle]

/-- A limit has no influence on what is found.  A larger limit gives the same solution,
and a limit suffices exactly if the search without limit has no work left after so many
visits; otherwise the failure names the graph and the visit that the limit forbids. -/
theorem solveFrom_limits (analysis : Analysis Value Store) (graph : Graph) (initial : Store)
    {limits larger : Limits} (le : limits.visitLimit graph.size ≤ larger.visitLimit graph.size) :
    (∀ solution, analysis.solveFrom limits graph initial = .ok solution →
      analysis.solveFrom larger graph initial = .ok solution) ∧
    (∀ solution, analysis.solveFrom limits graph initial = .ok solution ↔
      ∃ steps, (searchAfter analysis graph initial steps).worklist = [] ∧
        (searchAfter analysis graph initial steps).visits ≤ limits.visitLimit graph.size ∧
        (searchAfter analysis graph initial steps).toSolution = solution) ∧
    ((¬ ∃ steps, (searchAfter analysis graph initial steps).worklist = [] ∧
        (searchAfter analysis graph initial steps).visits ≤ limits.visitLimit graph.size) →
      analysis.solveFrom limits graph initial = .error (.nonConvergent graph.label
        (limits.visitLimit graph.size + 1) (limits.visitLimit graph.size)) ∧
      (searchAfter analysis graph initial (limits.visitLimit graph.size + 1)).visits =
        limits.visitLimit graph.size + 1) := by
  refine ⟨fun solution solved => ?_, fun solution => solveFrom_eq_ok_iff, fun unfinished => ?_⟩
  · obtain ⟨steps, idle, visits, same⟩ := solveFrom_eq_ok_iff.1 solved
    exact solveFrom_eq_ok_iff.2 ⟨steps, idle, visits.trans le, same⟩
  · have busy : (searchAfter analysis graph initial
        (limits.visitLimit graph.size)).worklist ≠ [] := fun idle =>
      unfinished ⟨_, idle, visits_searchAfter_le analysis graph initial _⟩
    rw [solveFrom_eq, if_neg busy]
    exact ⟨rfl, visits_of_busy busy⟩

/-- A loop that takes two passes: `while (more) { seen = true; }`. -/
def repeatedLoop : Fragment :=
  .initializerOf "Loop"
    [.whileLoop (.ident "more") [.exprStmt (.assign "seen" (.literal (.bool true)))]]

/-- Eleven visits suffice to find the names that may be assigned, and the usual limits give
the same solution; ten visits do not. -/
theorem repeatedLoop_limits : ∃ graph solution,
    Graph.ofFragment repeatedLoop .builtins = .ok graph ∧
      Assigned.may.solveFrom ⟨0, 11⟩ graph .empty = .ok solution ∧ solution.visits = 11 ∧
      Assigned.may.solveFrom {} graph .empty = .ok solution ∧
      Assigned.may.solveFrom ⟨0, 10⟩ graph .empty =
        .error (.nonConvergent "Loop.<clinit>" 11 10) := by
  have built : Graph.ofFragment repeatedLoop .builtins =
      .ok ((Graph.draw repeatedLoop).finish repeatedLoop.name) := by
    decide +kernel
  have elevenSuffice : ((Assigned.may.solveFrom ⟨0, 11⟩ ((Graph.draw repeatedLoop).finish
      repeatedLoop.name) .empty).toOption.map Solution.visits) = some 11 := by
    decide +kernel
  have tenFail : (Assigned.may.solveFrom ⟨0, 10⟩ ((Graph.draw repeatedLoop).finish
      repeatedLoop.name) .empty).isOk = false := by
    decide +kernel
  have name : ((Graph.draw repeatedLoop).finish repeatedLoop.name).label =
      "Loop.<clinit>" := by
    decide +kernel
  generalize (Graph.draw repeatedLoop).finish repeatedLoop.name = graph
    at built elevenSuffice tenFail name
  have eleven : (⟨0, 11⟩ : Limits).visitLimit graph.size = 11 := by simp [Limits.visitLimit]
  have ten : (⟨0, 10⟩ : Limits).visitLimit graph.size = 10 := by simp [Limits.visitLimit]
  have larger : (⟨0, 11⟩ : Limits).visitLimit graph.size ≤
      ({} : Limits).visitLimit graph.size := by
    rw [eleven]
    exact (by decide : 11 ≤ 10000).trans (Nat.le_max_right _ _)
  obtain ⟨solution, solved, visits⟩ := Option.map_eq_some_iff.1 elevenSuffice
  have found := ok_of_toOption solved
  obtain ⟨same, -⟩ := solveFrom_limits Assigned.may graph .empty larger
  obtain ⟨-, enough, fails⟩ := solveFrom_limits Assigned.may graph .empty
    (Nat.le_refl ((⟨0, 10⟩ : Limits).visitLimit graph.size))
  refine ⟨graph, solution, built, found, visits, same solution found, ?_⟩
  have unfinished : ¬ ∃ steps, (searchAfter Assigned.may graph .empty steps).worklist = [] ∧
      (searchAfter Assigned.may graph .empty steps).visits ≤
        (⟨0, 10⟩ : Limits).visitLimit graph.size := by
    rintro ⟨steps, idle, within⟩
    rw [(enough _).2 ⟨steps, idle, within, rfl⟩] at tenFail
    cases tenFail
  obtain ⟨failed, -⟩ := fails unfinished
  rw [failed, ten, name]

end FragmentFlow.Analysis
