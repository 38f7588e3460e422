import FragmentFlow.Proofs.Constants.Proper

/-!
# Values that were computed from revised operands

Only the successors of a node wait when its value changes.  The left operand of a strict
operator and the condition of a conditional do not stand right before the node that uses
them: when one of them rises to top and what is evaluated in between stays the same, the
node keeps the value that it got from the earlier constant.  Everything else in a
solution is what transferring it again gives.
-/

namespace FragmentFlow.Constants

open Analysis (Rises)

variable {folding : Bool} {graph : Graph} {id early : Nat} {node : Graph.Node}
  {initial store : Store} {values others : Nat → Option Constant} {limits : Limits}
  {solution : Solution Constant Store} {facts : Analysis.Facts Constant Store}

/-- A node with an early operand leaves the store as it is. -/
theorem output_of_early (well : graph.WellDrawn) (found : graph.nodes[id]? = some node)
    (isEarly : node.early? = some early) (folding : Bool) (store : Store)
    (values : Nat → Option Constant) : (transfer folding graph id store values).2 = store := by
  rw [transfer_eq found]
  rcases Graph.early_cases well found isEarly with ⟨op, right, action, -⟩ |
    ⟨first, second, action, -⟩
  · rw [action]
    rfl
  · rw [action]
    rfl

/-- Without folding, strict operators do not look at the values of their operands. -/
theorem value_of_early (well : graph.WellDrawn) (found : graph.nodes[id]? = some node)
    (isEarly : node.early? = some early) (notConditional : node.action ≠ .conditional)
    (proper : ∀ operand ∈ node.operands, IsProper (values operand)) (store : Store) :
    (transfer false graph id store values).1 = some .top := by
  rw [transfer_eq found]
  rcases Graph.early_cases well found isEarly with ⟨op, right, action, isStrict, operands⟩ |
    ⟨_, _, is, -⟩
  · rw [operands] at proper
    rw [action, operands]
    have leftProper := (proper early (by simp)).getD
    have rightProper := (proper right (by simp)).getD
    change some (Constant.binary false op _ _) = some .top
    rw [Constant.binary_of_strict isStrict]
    simp [leftProper, rightProper]
  · exact absurd is notConditional

/-- The transfer function looks at the values of the operands only. -/
theorem transfer_congr_early (found : graph.nodes[id]? = some node)
    (same : values early = others early)
    (later : ∀ operand ∈ node.operands, operand ≠ early → values operand = others operand) :
    transfer folding graph id store values = transfer folding graph id store others := by
  apply transfer_congr found
  intro _ operand member
  by_cases isEarly : operand = early
  · rw [isEarly, same]
  · exact later operand member isEarly

/-- The facts of a node in a solution come from an evaluation with operands that were
reached, have only risen since, and are the same if they stand right before the node. -/
theorem transfer_evaluated (well : graph.WellDrawn) (binds : graph.Binds initial)
    (solved : (analysis folding).solveFrom limits graph initial = .ok solution)
    (notEntry : id ≠ Graph.entry) (found : graph.nodes[id]? = some node)
    (present : solution.facts? id = some facts) :
    ∃ earlier, transfer folding graph id facts.input earlier = (facts.value, facts.output) ∧
      (∀ other, Rises (earlier other) (solution.recorded other)) ∧
      (∀ edge ∈ graph.predecessors id, earlier edge.source = solution.recorded edge.source) ∧
      (node.action.usesOperands = true →
        ∀ operand ∈ node.operands, IsProper (earlier operand)) := by
  obtain ⟨final, run, idle, rfl⟩ := Analysis.run_of_solveFrom well solved
  obtain ⟨earlier, next, before, updated, after, kept⟩ := run.evaluated well notEntry present
  have first : Analysis.Consistent (analysis folding) graph initial
      (Analysis.start graph graph.ranks initial) := .start well initial
  have consistent := before.consistent well first
  have proper := Proper.of_run well binds before
  obtain ⟨ascending, -⟩ := before.ascends (monotonic folding graph) well first (.start well initial)
  obtain ⟨-, ascends⟩ :=
    (after.head updated).ascends (monotonic folding graph) well consistent ascending
  refine ⟨earlier.valueOf, updated.transfer, ascends.valueOf, fun edge entering => ?_, ?_⟩
  · rcases kept with waits | kept
    · rw [idle] at waits
      cases waits
    · rw [Analysis.Search.valueOf, ← kept edge entering]
      rfl
  · intro uses operand member
    obtain ⟨valued, -⟩ := Graph.operands_placed well found uses operand member
    exact proper.values operand valued (updated.operands well consistent found uses member)

/-- A node keeps what it got from a known constant of its early operand, which is top now. -/
def Outdated (folding : Bool) (graph : Graph) (solution : Solution Constant Store) (id : Nat)
    (facts : Analysis.Facts Constant Store) : Prop :=
  ∃ node early known, graph.nodes[id]? = some node ∧ node.early? = some early ∧
    (folding = true ∨ node.action = .conditional) ∧ known.isKnown = true ∧
    solution.recorded early = some .top ∧
    transfer folding graph id facts.input (Function.update solution.recorded early (some known)) =
      (facts.value, facts.output)

/-- A value that rises stays proper. -/
theorem IsProper.of_rises {value later : Option Constant} (proper : IsProper value)
    (rises : Rises value later) : IsProper later := by
  obtain ⟨known, present, notBottom⟩ := proper
  obtain ⟨now, isNow, below⟩ := rises known present
  refine ⟨now, isNow, ?_⟩
  rintro rfl
  exact notBottom (Constant.le_bottom below)

/-- A value that has been reached rises only from a known constant to top. -/
theorem IsProper.kept_or_top {value later : Option Constant} (proper : IsProper value)
    (rises : Rises value later) : value = later ∨
      ∃ known, value = some known ∧ known.isKnown = true ∧ later = some .top := by
  obtain ⟨known, rfl, notBottom⟩ := proper
  obtain ⟨now, rfl, below⟩ := rises known rfl
  rcases Constant.eq_or_eq_top_of_le below notBottom with rfl | rfl
  · exact Or.inl rfl
  · cases known with
    | bottom => exact absurd rfl notBottom
    | top => exact Or.inl rfl
    | _ => exact Or.inr ⟨_, rfl, rfl, rfl⟩

/-- Transferring a node again with the values of the solution gives its facts, unless its
value is outdated. -/
theorem transfer_or_outdated (well : graph.WellDrawn) (binds : graph.Binds initial)
    (solved : (analysis folding).solveFrom limits graph initial = .ok solution)
    (notEntry : id ≠ Graph.entry) (present : solution.facts? id = some facts) :
    transfer folding graph id facts.input solution.recorded = (facts.value, facts.output) ∨
      (transfer folding graph id facts.input solution.recorded).2 = facts.output ∧
        Rises facts.value (transfer folding graph id facts.input solution.recorded).1 ∧
        Outdated folding graph solution id facts := by
  have reaches : graph.Reaches id := by
    obtain ⟨reached, -⟩ := Analysis.reached_of_solveFrom well solved id
    exact reached (by rw [present]; rfl)
  obtain ⟨node, found⟩ : ∃ node, graph.nodes[id]? = some node :=
    ⟨_, Array.getElem?_eq_getElem (reaches.lt_size well)⟩
  obtain ⟨earlier, transferred, rises, kept, proper⟩ :=
    transfer_evaluated well binds solved notEntry found present
  have same : ∀ operand ∈ node.operands, node.action.usesOperands = true →
      node.early? ≠ some operand → earlier operand = solution.recorded operand := by
    intro operand member uses notEarly
    rcases Graph.operand_next_or_early well found uses operand member with ⟨kind, drawn⟩ | isEarly
    · exact kept ⟨operand, id, kind⟩ (well.mem_predecessors.2 ⟨drawn, rfl⟩)
    · exact absurd isEarly notEarly
  cases isEarly : node.early? with
  | none =>
      left
      rw [← transferred]
      apply transfer_congr found
      intro uses operand member
      refine (same operand member uses ?_).symm
      rw [isEarly]
      nofun
  | some early =>
      obtain ⟨uses, member⟩ := Graph.early_mem well found isEarly
      have later : ∀ operand ∈ node.operands, operand ≠ early →
          earlier operand = solution.recorded operand := by
        intro operand among different
        refine same operand among uses fun sameEarly => different ?_
        exact Option.some.inj (sameEarly.symm.trans isEarly)
      have output : (transfer folding graph id facts.input solution.recorded).2 = facts.output := by
        have before := output_of_early well found isEarly folding facts.input earlier
        rw [transferred] at before
        rw [output_of_early well found isEarly]
        exact before.symm
      rcases (proper uses early member).kept_or_top (rises early) with
        unchanged | ⟨known, was, isKnown, isTop⟩
      · left
        rw [← transferred, transfer_congr_early found unchanged later]
      · by_cases matters : folding = true ∨ node.action = .conditional
        · have above := (transfer_mono folding graph id (le_refl facts.input) rises).1
          rw [transferred] at above
          refine Or.inr ⟨output, above, node, early, known, found, isEarly, matters, isKnown,
            isTop, ?_⟩
          rw [← transferred]
          apply transfer_congr_early found
          · rw [Function.update_self, was]
          · intro operand among different
            rw [Function.update_of_ne different, later operand among different]
        · left
          obtain ⟨notFolding, notConditional⟩ := not_or.1 matters
          rw [Bool.not_eq_true] at notFolding
          subst notFolding
          have value := value_of_early well found isEarly notConditional (proper uses) facts.input
          rw [transferred] at value
          refine Prod.ext ?_ output
          rw [value]
          apply value_of_early well found isEarly notConditional
          exact fun operand among => (proper uses operand among).of_rises (rises operand)

/-- A solution of constant propagation satisfies its equations up to outdated values:
evaluating a node again with what is recorded for its operands gives the recorded store,
and the recorded value or one above it.  It is above only where an operator with folding
or a conditional kept what it got from a constant of its left operand or condition that
became top later.  Without loops there are no such nodes. -/
theorem reevaluation_of_solve {fragment : Fragment} {env : Environment}
    (built : Graph.ofFragment fragment env = .ok graph)
    (solved : (analysis folding).solve limits graph = .ok solution) (notEntry : id ≠ Graph.entry)
    (present : solution.facts? id = some facts) :
    (transfer folding graph id facts.input solution.recorded = (facts.value, facts.output) ∨
      (transfer folding graph id facts.input solution.recorded).2 = facts.output ∧
        Rises facts.value (transfer folding graph id facts.input solution.recorded).1 ∧
        Outdated folding graph solution id facts) ∧
    (fragment.loopFree = true →
      transfer folding graph id facts.input solution.recorded = (facts.value, facts.output)) := by
  have well := Graph.wellDrawn_of_ofFragment built
  refine ⟨transfer_or_outdated well (.topFor graph) solved notEntry present, fun loopFree => ?_⟩
  have solves := solves_of_loopFree (Graph.loopFree_of_ofFragment built loopFree) well solved
  exact solves.transfer id facts notEntry present

/-- What is read off a solution holds of one. -/
theorem exists_solution {value again : Option Constant}
    (reported : ((analysis folding).solve limits graph).toOption.bind (fun solution =>
      (solution.facts? id).map fun facts =>
        (facts.value, (transfer folding graph id facts.input solution.recorded).1)) =
      some (value, again)) :
    ∃ solution facts, (analysis folding).solve limits graph = .ok solution ∧
      solution.facts? id = some facts ∧ facts.value = value ∧
      (transfer folding graph id facts.input solution.recorded).1 = again := by
  obtain ⟨solution, facts, solved, present, values⟩ := Analysis.exists_facts_of_report reported
  obtain ⟨isValue, isAgain⟩ := Prod.mk.inj values
  exact ⟨solution, facts, solved, present, isValue, isAgain⟩

/-- A sum whose left operand is revised while its right operand is not:
`int x = 1; while (more) { y = x + ((x = 5) + 1); }`. -/
def revisedSum : Fragment :=
  .initializerOf "Sum"
    [.localDecl "x" "int" (some (.literal (.int 1))),
      .whileLoop (.ident "more") [.exprStmt (.assign "y" (.binary .add (.ident "x")
        (.binary .add (.assign "x" (.literal (.int 5))) (.literal (.int 1)))))]]

/-- The sum keeps its first value although its left operand has become unknown. -/
theorem revisedSum_outdated : ∃ graph solution facts,
    Graph.ofFragment revisedSum .builtins = .ok graph ∧
      (analysis true).solve {} graph = .ok solution ∧ solution.facts? 10 = some facts ∧
      facts.value = some (.int 7) ∧ Outdated true graph solution 10 facts := by
  have built : Graph.ofFragment revisedSum .builtins =
      .ok ((Graph.draw revisedSum).finish revisedSum.name) := by
    decide +kernel
  have reported : ((analysis true).solve {}
      ((Graph.draw revisedSum).finish revisedSum.name)).toOption.bind (fun solution =>
        (solution.facts? 10).map fun facts => (facts.value, (transfer true
          ((Graph.draw revisedSum).finish revisedSum.name) 10 facts.input solution.recorded).1)) =
      some (some (.int 7), some .top) := by
    decide +kernel
  generalize (Graph.draw revisedSum).finish revisedSum.name = graph at built reported
  obtain ⟨solution, facts, solved, present, value, again⟩ := exists_solution reported
  obtain ⟨same | ⟨-, -, outdated⟩, -⟩ := reevaluation_of_solve built solved (by decide) present
  · rw [same, value] at again
    cases again
  · exact ⟨graph, solution, facts, built, solved, present, value, outdated⟩

/-- A condition that is revised while the branches are not:
`boolean b = true; while (more) { b ? !(b = false) : !(b = true); }`. -/
def revisedTest : Fragment :=
  .initializerOf "Test"
    [.localDecl "b" "boolean" (some (.literal (.bool true))),
      .whileLoop (.ident "more") [.exprStmt (.conditional (.ident "b")
        (.unary .not (.assign "b" (.literal (.bool false))))
        (.unary .not (.assign "b" (.literal (.bool true)))))]]

/-- The conditional keeps a value that does not satisfy its equation. -/
theorem revisedTest_differs (folding : Bool) : ∃ graph solution,
    Graph.ofFragment revisedTest .builtins = .ok graph ∧
      (analysis folding).solve {} graph = .ok solution ∧
      ¬ Analysis.Solves (analysis folding) graph ((analysis folding).initial graph) solution := by
  have built : Graph.ofFragment revisedTest .builtins =
      .ok ((Graph.draw revisedTest).finish revisedTest.name) := by
    decide +kernel
  have reported : ((analysis folding).solve {}
      ((Graph.draw revisedTest).finish revisedTest.name)).toOption.bind (fun solution =>
        (solution.facts? 12).map fun facts => (facts.value, (transfer folding
          ((Graph.draw revisedTest).finish revisedTest.name) 12 facts.input solution.recorded).1)) =
      some (some (.bool true), some .top) := by
    cases folding <;> decide +kernel
  generalize (Graph.draw revisedTest).finish revisedTest.name = graph at built reported
  obtain ⟨solution, facts, solved, present, value, again⟩ := exists_solution reported
  refine ⟨graph, solution, built, solved, fun solves => ?_⟩
  have same : transfer folding graph 12 facts.input solution.recorded =
      (facts.value, facts.output) := solves.transfer 12 facts (by decide) present
  rw [same, value] at again
  cases again

/-- With and without folding there are solutions that do not satisfy the equations. -/
theorem revisedTest_not_solved :
    (∃ graph solution, Graph.ofFragment revisedTest .builtins = .ok graph ∧
      (analysis true).solve {} graph = .ok solution ∧
      ¬ Analysis.Solves (analysis true) graph ((analysis true).initial graph) solution) ∧
    ∃ graph solution, Graph.ofFragment revisedTest .builtins = .ok graph ∧
      (analysis false).solve {} graph = .ok solution ∧
      ¬ Analysis.Solves (analysis false) graph ((analysis false).initial graph) solution :=
  ⟨revisedTest_differs true, revisedTest_differs false⟩

end FragmentFlow.Constants
