import FragmentFlow.Proofs.Constants.Monotone
import FragmentFlow.Proofs.Graph.Names
import FragmentFlow.Proofs.Solver.Evaluations
import FragmentFlow.Proofs.Solver.Limits

/-!
# Bottom means unreached

In every search of constant propagation the stores of the nodes with facts bind exactly
the variables of the graph, and the expressions among them have values other than
bottom.  A node is evaluated only when its operands have facts, so that it never reads
a missing value.
-/

namespace FragmentFlow

namespace Constant

variable {folding : Bool} {lhs rhs : Constant}

theorem word?_ne_bottom (value : Int) : word? value ≠ some bottom := by
  unfold word?
  split <;> nofun

theorem foldEquality_ne_bottom (op : BinaryOp) (equal : Bool) :
    foldEquality op equal ≠ some bottom := by
  cases op <;> nofun

theorem foldInts_ne_bottom (op : BinaryOp) (a b : Int64) : foldInts op a b ≠ some bottom := by
  unfold foldInts
  split
  · exact word?_ne_bottom _
  · exact word?_ne_bottom _
  · exact word?_ne_bottom _
  · split
    · nofun
    · exact word?_ne_bottom _
  · split
    · nofun
    · intro folded
      obtain ⟨_, -, fits⟩ := Option.bind_eq_some_iff.1 folded
      exact word?_ne_bottom _ fits
  all_goals nofun

theorem fold_ne_bottom (op : BinaryOp) (lhs rhs : Constant) : fold op lhs rhs ≠ some bottom := by
  unfold fold
  split
  · exact foldEquality_ne_bottom op _
  · exact foldEquality_ne_bottom op _
  · exact foldEquality_ne_bottom op _
  · exact foldInts_ne_bottom op _ _
  · exact foldEquality_ne_bottom op _
  · split <;> nofun
  · nofun

theorem getD_top_ne_bottom {folded : Option Constant} (proper : folded ≠ some bottom) :
    folded.getD top ≠ bottom := by
  cases folded with
  | none => nofun
  | some value => exact fun isBottom => proper (congrArg some isBottom)

theorem binary_ne_bottom (op : BinaryOp) (left : lhs ≠ bottom) (right : rhs ≠ bottom) :
    binary folding op lhs rhs ≠ bottom := by
  cases short : op.isShortCircuit with
  | false =>
      rw [binary_of_strict short, if_neg (not_or.2 ⟨left, right⟩)]
      split
      · exact getD_top_ne_bottom (fold_ne_bottom op lhs rhs)
      · nofun
  | true =>
      rw [binary_of_shortCircuit short]
      split
      · exact absurd rfl left
      · split
        · nofun
        · exact right
      · nofun

theorem unary_ne_bottom (op : UnaryOp) {operand : Constant} (proper : operand ≠ bottom) :
    unary folding op operand ≠ bottom := by
  unfold unary
  split
  · exact absurd rfl proper
  · nofun
  · split
    · exact getD_top_ne_bottom (word?_ne_bottom _)
    · nofun
  · nofun

theorem join_ne_bottom (left : lhs ≠ bottom) : lhs.join rhs ≠ bottom := by
  intro isBottom
  have below : lhs ≤ lhs.join rhs := le_sup_left
  rw [isBottom] at below
  exact left (le_bottom below)

theorem conditional_ne_bottom {test : Constant} (tested : test ≠ bottom) (left : lhs ≠ bottom)
    (right : rhs ≠ bottom) : conditional test lhs rhs ≠ bottom := by
  unfold conditional
  split
  · exact left
  · exact right
  · exact absurd rfl tested
  · exact join_ne_bottom left

end Constant

/-! ### Stores -/

/-- A store binds exactly the variables of a graph. -/
def Graph.Binds (graph : Graph) (store : Store) : Prop :=
  ∀ name, store.get name ≠ .bottom ↔ name ∈ graph.variableNames.names

namespace Graph.Binds

variable {graph : Graph} {store other : Store}

/-- The store in which all variables are unknown binds them. -/
theorem topFor (graph : Graph) : graph.Binds (.topFor graph.variableNames.names) := by
  intro name
  rw [Store.get_topFor]
  split
  · rename_i member
    exact ⟨fun _ => member, fun _ => nofun⟩
  · rename_i absent
    exact ⟨fun proper => absurd rfl proper, fun member => absurd member absent⟩

/-- Setting a variable to a value keeps the variables bound. -/
theorem set (binds : graph.Binds store) {target : String} {value : Constant}
    (mentioned : target ∈ graph.variableNames.names) (proper : value ≠ .bottom) :
    graph.Binds (store.set target value) := by
  intro name
  rw [Store.get_set]
  split
  · rename_i same
    subst same
    exact ⟨fun _ => mentioned, fun _ => proper⟩
  · exact binds name

/-- Forgetting the free names keeps the variables bound. -/
theorem forget (well : graph.WellDrawn) (binds : graph.Binds store) :
    graph.Binds (graph.forgetFree store) := by
  intro name
  rw [forgetFree, Store.get_setAll]
  split
  · rename_i free
    exact ⟨fun _ => variableNames_of_freeNames well free, fun _ => nofun⟩
  · exact binds name

/-- A join of stores that bind the variables binds them. -/
theorem join (binds : graph.Binds store) (alike : graph.Binds other) :
    graph.Binds (store.join other) := by
  intro name
  rw [Store.get_join]
  by_cases bound : store.get name = .bottom
  · rw [bound, Constant.bottom_join]
    exact alike name
  · exact ⟨fun _ => (binds name).1 bound, fun _ => Constant.join_ne_bottom bound⟩

end Graph.Binds

namespace Constants

variable {folding : Bool} {graph : Graph} {id : Nat} {node : Graph.Node} {store : Store}
  {values : Nat → Option Constant}

/-- Following an edge keeps the variables bound. -/
theorem onEdge_binds (well : graph.WellDrawn) (edge : Graph.Edge) (binds : graph.Binds store) :
    graph.Binds (onEdge graph edge store) := by
  unfold onEdge
  dsimp only
  split
  · exact binds.forget well
  · exact binds

/-- There is a value, and it is not bottom. -/
def IsProper (value : Option Constant) : Prop :=
  ∃ known, value = some known ∧ known ≠ .bottom

/-- A proper value is not bottom. -/
theorem IsProper.getD {value : Option Constant} (proper : IsProper value) :
    value.getD .bottom ≠ .bottom := by
  obtain ⟨known, rfl, notBottom⟩ := proper
  exact notBottom

/-- A node whose operands have proper values gets one and binds the variables. -/
theorem transfer_proper (folding : Bool) (well : graph.WellDrawn)
    (found : graph.nodes[id]? = some node) (binds : graph.Binds store)
    (operands : node.action.usesOperands = true →
      ∀ operand ∈ node.operands, IsProper (values operand)) :
    graph.Binds (transfer folding graph id store values).2 ∧
      (node.action.isValued = true → IsProper (transfer folding graph id store values).1) := by
  rw [transfer_eq found]
  have mentioned : ∀ {name}, node.action.declared? = some name ∨ node.action.used? = some name →
      name ∈ graph.variableNames.names := Graph.mem_variableNames found
  have shaped := well.shaped found
  generalize node.action = action, node.operands = list at operands mentioned shaped ⊢
  cases uses : action.usesOperands with
  | false =>
      cases action with
      | param name => exact ⟨binds.set (mentioned (Or.inl rfl)) nofun, nofun⟩
      | catchParam name _ => exact ⟨binds.set (mentioned (Or.inl rfl)) nofun, nofun⟩
      | literal value =>
          refine ⟨binds, fun _ => ⟨_, rfl, ?_⟩⟩
          cases value <;> nofun
      | ident name =>
          exact ⟨binds, fun _ => ⟨_, rfl, (binds name).2 (mentioned (Or.inr rfl))⟩⟩
      | call _ => exact ⟨binds.forget well, fun _ => ⟨.top, rfl, nofun⟩⟩
      | new _ => exact ⟨binds.forget well, fun _ => ⟨.top, rfl, nofun⟩⟩
      | lambda => exact ⟨binds, fun _ => ⟨.top, rfl, nofun⟩⟩
      | entry | exit | exceptionalExit | returnValue | throwValue | loopHead | rethrow =>
          exact ⟨binds, nofun⟩
      | decl _ | assign _ | binary _ | unary _ | conditional => cases uses
  | true =>
      have proper : ∀ operand ∈ list, (values operand).getD .bottom ≠ .bottom :=
        fun operand member => (operands uses operand member).getD
      obtain ⟨tips, shape, -⟩ := shaped uses
      cases shape with
      | plain unused =>
          rw [unused] at uses
          cases uses
      | bare => exact ⟨binds, nofun⟩
      | @one _ operand usesOne _ =>
          have given := proper operand List.mem_cons_self
          cases action with
          | decl name => exact ⟨binds.set (mentioned (Or.inl rfl)) given, nofun⟩
          | assign name =>
              exact ⟨binds.set (mentioned (Or.inr rfl)) given, fun _ => ⟨_, rfl, given⟩⟩
          | unary op => exact ⟨binds, fun _ => ⟨_, rfl, Constant.unary_ne_bottom op given⟩⟩
          | _ => cases usesOne
      | @strict op left right _ _ _ _ =>
          exact ⟨binds, fun _ => ⟨_, rfl, Constant.binary_ne_bottom op (proper left (by simp))
            (proper right (by simp))⟩⟩
      | @shortCircuit op left right _ _ _ _ =>
          exact ⟨binds, fun _ => ⟨_, rfl, Constant.binary_ne_bottom op (proper left (by simp))
            (proper right (by simp))⟩⟩
      | @conditional test first second _ _ _ _ _ =>
          exact ⟨binds, fun _ => ⟨_, rfl, Constant.conditional_ne_bottom (proper test (by simp))
            (proper first (by simp)) (proper second (by simp))⟩⟩

/-! ### Searches -/

/-- Nothing in a search is at bottom but what is unreached. -/
structure Proper (graph : Graph) (search : Analysis.Search Constant Store) : Prop where
  stores : ∀ id facts, search.facts? id = some facts →
    graph.Binds facts.input ∧ graph.Binds facts.output
  values : ∀ id, graph.toBuilder.Valued id → (search.facts? id).isSome →
    IsProper (search.valueOf id)

variable {search next later : Analysis.Search Constant Store} {initial : Store}
  {facts : Analysis.Facts Constant Store}

/-- A search has proper facts at its start. -/
theorem Proper.start (well : graph.WellDrawn) (binds : graph.Binds initial) :
    Proper graph (Analysis.start graph graph.ranks initial) where
  stores id facts found := by
    rw [Analysis.facts?_start well] at found
    split at found
    · cases found
      exact ⟨binds, binds⟩
    · cases found
  values id valued reached := by
    rw [Analysis.facts?_start well] at reached
    split at reached
    · rename_i isEntry
      subst isEntry
      obtain ⟨node, found, isValued⟩ := valued
      cases found.symm.trans well.entry
      cases isValued
    · cases reached

/-- The input of a node binds the variables. -/
theorem Proper.inputAt (well : graph.WellDrawn) (proper : Proper graph search) {input : Store}
    (found : (analysis folding).inputAt graph search.toSolution id = some input) :
    graph.Binds input := by
  refine Analysis.inputAt_keeps (fun _ _ binds alike => binds.join alike) ?_ found
  intro edge _ store arrives
  obtain ⟨facts, present, rfl⟩ := Option.map_eq_some_iff.1 arrives
  obtain ⟨inputs, outputs⟩ := proper.stores edge.source facts present
  apply onEdge_binds well
  split
  · exact inputs
  · exact outputs

/-- An evaluation keeps the facts proper. -/
theorem Proper.update (well : graph.WellDrawn)
    (consistent : Analysis.Consistent (analysis folding) graph initial search)
    (updated : Analysis.Updated (analysis folding) graph search next id facts)
    (proper : Proper graph search) : Proper graph next := by
  obtain ⟨-, bound, -⟩ := consistent.exists_input well updated.waiting
  obtain ⟨node, found⟩ : ∃ node, graph.nodes[id]? = some node :=
    ⟨_, Array.getElem?_eq_getElem bound⟩
  have binds := proper.inputAt well updated.input
  have operands : node.action.usesOperands = true →
      ∀ operand ∈ node.operands, IsProper (search.valueOf operand) := by
    intro uses operand member
    obtain ⟨valued, -⟩ := Graph.operands_placed well found uses operand member
    exact proper.values operand valued (updated.operands well consistent found uses member)
  have transferred : transfer folding graph id facts.input search.valueOf =
      (facts.value, facts.output) := updated.transfer
  have result := transfer_proper folding well found binds operands
  rw [transferred] at result
  constructor
  · intro other stored present
    rw [updated.lookup] at present
    split at present
    · cases present
      exact ⟨binds, result.1⟩
    · exact proper.stores other stored present
  · intro other valued reached
    by_cases same : other = id
    · subst same
      rw [Analysis.Search.valueOf, updated.self]
      obtain ⟨drawn, present, isValued⟩ := valued
      rw [Graph.Builder.bare?, Graph.toBuilder, found] at present
      cases present
      exact result.2 isValued
    · rw [updated.valueOf same]
      rw [updated.other same] at reached
      exact proper.values other valued reached

/-- Along the runs of constant propagation everything stays proper. -/
theorem Proper.of_run (well : graph.WellDrawn) (binds : graph.Binds initial)
    (run : Analysis.Run (analysis folding) graph (Analysis.start graph graph.ranks initial)
      search) :
    Proper graph search :=
  run.keeps well (fun _ _ _ _ consistent updated proper => proper.update well consistent updated)
    (.start well initial) (.start well binds)

/-- The stores of a solution bind the variables. -/
theorem binds_of_solveFrom (well : graph.WellDrawn) (binds : graph.Binds initial) {limits : Limits}
    {solution : Solution Constant Store}
    (solved : (analysis folding).solveFrom limits graph initial = .ok solution)
    (present : solution.facts? id = some facts) :
    graph.Binds facts.input ∧ graph.Binds facts.output := by
  obtain ⟨final, run, -, rfl⟩ := Analysis.run_of_solveFrom well solved
  exact (Proper.of_run well binds run).stores id facts present

/-- In every solution and at every step on the way to it, the stores of the nodes that have
been reached bind exactly the variables of the graph, and the expressions among these nodes
have values other than bottom. -/
theorem proper_of_reached {fragment : Fragment} {types : Environment}
    (built : Graph.ofFragment fragment types = .ok graph) (folding : Bool)
    {env : Solution Constant Store}
    (met : (∃ limits, (analysis folding).solve limits graph = .ok env) ∨
      ∃ steps, (Analysis.searchAfter (analysis folding) graph
        ((analysis folding).initial graph) steps).toSolution = env) :
    ∀ id node facts, graph.nodes[id]? = some node → env.facts? id = some facts →
      (∀ name, facts.input.get name ≠ .bottom ↔ name ∈ graph.variableNames.names) ∧
      (∀ name, facts.output.get name ≠ .bottom ↔ name ∈ graph.variableNames.names) ∧
      (node.action.isValued = true → ∃ value, facts.value = some value ∧ value ≠ .bottom) := by
  have well := Graph.wellDrawn_of_ofFragment built
  obtain ⟨search, run, rfl⟩ : ∃ search, Analysis.Run (analysis folding) graph
      (Analysis.start graph graph.ranks ((analysis folding).initial graph)) search ∧
        search.toSolution = env := by
    rcases met with ⟨limits, solved⟩ | ⟨steps, rfl⟩
    · obtain ⟨final, run, -, isTable⟩ := Analysis.run_of_solveFrom well solved
      exact ⟨final, run, isTable⟩
    · exact ⟨_, Analysis.run_searchAfter well _ _ steps, rfl⟩
  have proper := Proper.of_run well (.topFor graph) run
  intro id node facts found present
  obtain ⟨input, output⟩ := proper.stores id facts present
  refine ⟨input, output, fun valued => ?_⟩
  have isNode : graph.toBuilder.bare? id = some node.bare := by
    rw [Graph.Builder.bare?, Graph.toBuilder, found]
    rfl
  have value := proper.values id ⟨node.bare, isNode, valued⟩ (by rw [present]; rfl)
  rwa [Analysis.Search.valueOf, present] at value

/-- A right operand that is evaluated on one way only, in a loop:
`while (more) { seen = seen || (more = false); }`. -/
def guardedOperand : Fragment :=
  .initializerOf "Guard"
    [.whileLoop (.ident "more") [.exprStmt (.assign "seen"
      (.binary .or (.ident "seen") (.assign "more" (.literal (.bool false)))))]]

/-- The disjunction is reached and has a value, and both variables are bound after it. -/
theorem guardedOperand_proper : ∃ graph solution facts,
    Graph.ofFragment guardedOperand .builtins = .ok graph ∧
      (analysis true).solve {} graph = .ok solution ∧
      graph.action? 6 = some (.binary .or) ∧ solution.facts? 6 = some facts ∧
      (∃ value, facts.value = some value ∧ value ≠ .bottom) ∧
      facts.output.get "seen" ≠ .bottom ∧ facts.output.get "more" ≠ .bottom ∧
      facts.output.get "other" = .bottom := by
  have built : Graph.ofFragment guardedOperand .builtins =
      .ok ((Graph.draw guardedOperand).finish guardedOperand.name) := by
    decide +kernel
  have reached : (((analysis true).solve {} ((Graph.draw guardedOperand).finish
      guardedOperand.name)).toOption.bind fun solution =>
        (solution.facts? 6).map fun _ => ()) = some () := by
    decide +kernel
  have action : ((Graph.draw guardedOperand).finish guardedOperand.name).action? 6 =
      some (.binary .or) := by
    decide +kernel
  have names : ((Graph.draw guardedOperand).finish guardedOperand.name).variableNames.names =
      ["more", "seen"] := by
    decide +kernel
  generalize (Graph.draw guardedOperand).finish guardedOperand.name = graph
    at built reached action names
  obtain ⟨solution, facts, solved, present, -⟩ := Analysis.exists_facts_of_report reached
  obtain ⟨node, found, isAction⟩ := Option.map_eq_some_iff.1 action
  obtain ⟨-, output, value⟩ :=
    proper_of_reached built true (Or.inl ⟨{}, solved⟩) 6 node facts found present
  rw [names] at output
  refine ⟨graph, solution, facts, built, solved, action, present, value (by rw [isAction]; rfl),
    (output "seen").2 (by simp), (output "more").2 (by simp), ?_⟩
  by_contra bound
  exact absurd ((output "other").1 bound) (by simp)

end Constants

end FragmentFlow
