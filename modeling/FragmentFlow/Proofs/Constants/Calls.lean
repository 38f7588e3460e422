import FragmentFlow.Proofs.Graph.Declarations
import FragmentFlow.Proofs.Constants.Transfer
import FragmentFlow.Proofs.Solver.Evaluations
import FragmentFlow.Proofs.Solver.Limits

/-!
# What calls forget

A call may write every field.  The names that it makes unknown are those that the fragment
uses and nowhere declares; all others keep their constants.  Where a name is declared in one
block and denotes a field in another, the field counts as declared, and a call in the other
block does not make it unknown.
-/

namespace FragmentFlow

/-! ### Scopes -/

namespace Tree

/-- The statements of a block that are outside the scope of a name declared among them: all
up to the declaration. -/
def upToDecl (name : String) : List Stmt → List Stmt
  | [] => []
  | first :: rest =>
    if (Node.stmt first).declares? = some name then [first] else first :: upToDecl name rest

theorem mem_of_mem_upToDecl {name : String} {statement : Stmt} {list : List Stmt}
    (member : statement ∈ upToDecl name list) : statement ∈ list := by
  induction list with
  | nil => cases member
  | cons first rest ih =>
      rw [upToDecl] at member
      split at member
      · cases List.mem_singleton.1 member
        exact List.mem_cons_self
      · rcases List.mem_cons.1 member with rfl | later
        · exact List.mem_cons_self
        · exact List.mem_cons_of_mem _ (ih later)

theorem upToDecl_eq_self {name : String} {list : List Stmt}
    (undeclared : ∀ statement ∈ list, (Node.stmt statement).declares? ≠ some name) :
    upToDecl name list = list := by
  induction list with
  | nil => rfl
  | cons first rest ih =>
      rw [upToDecl, if_neg (undeclared first List.mem_cons_self),
        ih fun other member => undeclared other (List.mem_cons_of_mem _ member)]

namespace Node

/-- The children of a node to which the scope of a name declared by the node or among its
children does not extend.  A variable declared at the start of a `for` is visible in all of
the loop, and that of a catch clause in the body of the clause. -/
def unhidden (name : String) : Node → List Node
  | .stmt (.block inner) => (upToDecl name inner.stmts).map .stmt
  | .stmt (.forLoop id init cond update body) =>
    if init.any fun statement => (Node.stmt statement).declares? == some name then
      (upToDecl name init).map .stmt
    else (Stmt.forLoop id init cond update body).children
  | .catchClause clause => if clause.name = name then [] else [clause.body.toNode]
  | node => node.children

variable {node child inner : Node} {name : String}

theorem mem_children_of_unhidden (member : child ∈ node.unhidden name) :
    child ∈ node.children := by
  unfold unhidden at member
  split at member
  · obtain ⟨statement, isBefore, rfl⟩ := List.mem_map.1 member
    exact List.mem_map_of_mem (mem_of_mem_upToDecl isBefore)
  · split at member
    · obtain ⟨statement, isBefore, rfl⟩ := List.mem_map.1 member
      simp [children, Stmt.children, mem_of_mem_upToDecl isBefore]
    · exact member
  · split at member
    · cases member
    · exact member
  · exact member

/-- The nodes of a subtree outside nested lambdas and outside the scope of all declarations
of a name in it. -/
def outside (name : String) (node : Node) : List Node :=
  if node.isLambda then [node]
  else node :: (node.unhidden name).attach.flatMap fun child => child.1.outside name
termination_by node.size
decreasing_by exact size_lt_of_mem_children (mem_children_of_unhidden child.2)

/-- A name that is declared nowhere hides nothing. -/
theorem unhidden_eq_children (self : node.declares? ≠ some name)
    (below : ∀ child ∈ node.children, child.declares? ≠ some name) :
    node.unhidden name = node.children := by
  unfold unhidden
  split
  · rw [upToDecl_eq_self fun statement member => below _ (List.mem_map_of_mem member)]
    rfl
  · rename_i id init cond update body
    rw [if_neg]
    · rfl
    · rw [Bool.not_eq_true, List.any_eq_false]
      intro statement member declares
      refine below (.stmt statement) ?_ (beq_iff_eq.1 declares)
      simp [children, Stmt.children, member]
  · rw [if_neg fun same => self (congrArg some same)]
    rfl
  · rfl

theorem mem_outside_of_undeclared
    (undeclared : ∀ inner ∈ node.ownNodes, inner.declares? ≠ some name)
    (isOwn : inner ∈ node.ownNodes) : inner ∈ node.outside name := by
  induction node using Node.induction with
  | step node ih =>
      have ownOf : ∀ child ∈ node.children, node.isLambda = false → ∀ part ∈ child.ownNodes,
          part ∈ node.ownNodes := fun child isChild notLambda part below =>
        mem_ownNodes.2 (Or.inr ⟨notLambda, child, isChild, below⟩)
      rw [outside]
      rcases mem_ownNodes.1 isOwn with rfl | ⟨notLambda, child, isChild, below⟩
      · split <;> exact List.mem_cons_self
      · have all : node.unhidden name = node.children := by
          refine unhidden_eq_children (undeclared node (mem_ownNodes.2 (Or.inl rfl))) ?_
          intro part isPart
          exact undeclared part (ownOf part isPart notLambda part (mem_ownNodes.2 (Or.inl rfl)))
        rw [if_neg (Bool.not_eq_true _ ▸ notLambda)]
        refine List.mem_cons_of_mem _ (List.mem_flatMap.2
          ⟨⟨child, all ▸ isChild⟩, List.mem_attach _ _, ?_⟩)
        exact ih child isChild
          (fun part isPart => undeclared part (ownOf child isChild notLambda part isPart)) below

end Node

end Tree

/-- The nodes of a fragment at which no declaration of a name is in scope, so that it denotes
a field or a captured variable there. -/
def Fragment.outside (fragment : Fragment) (name : String) : List Tree.Node :=
  if fragment.code.parameters.contains name then []
  else (fragment.body?.map fun body => body.outside name).getD []

theorem Fragment.mem_outside_of_undeclared {fragment : Fragment} {name : String}
    (undeclared : fragment.declares name = false) {node : Tree.Node}
    (isNode : node ∈ fragment.nodes) : node ∈ fragment.outside name := by
  have nowhere := Bool.not_eq_true _ ▸ undeclared
  rw [declares_iff, not_or] at nowhere
  obtain ⟨body, isBody, isOwn⟩ := body_of_mem_nodes isNode
  rw [outside, isBody, if_neg fun isParam => nowhere.1 (List.contains_iff_mem.1 isParam)]
  refine Tree.Node.mem_outside_of_undeclared (fun inner below declares => ?_) isOwn
  refine nowhere.2 ⟨inner, mem_parts.2 (Or.inl ?_), declares⟩
  rw [Fragment.nodes, isBody]
  exact below

/-! ### Calls -/

namespace Constants

variable {unit : Source.CompilationUnit} {serial : Nat} {fragment : Fragment} {types : Environment}
  {graph : Graph} {folding : Bool} {limits : Limits} {initial store : Store}
  {solution : Solution Constant Store} {id : Nat} {node : Graph.Node}
  {facts : Analysis.Facts Constant Store} {edge : Graph.Edge} {name : String}

theorem get_forgetFree (graph : Graph) (store : Store) (name : String) :
    (graph.forgetFree store).get name =
      if name ∈ graph.freeNames.names then .top else store.get name :=
  Store.get_setAll ..

/-- After a call the free names are forgotten. -/
theorem output_of_call (well : graph.WellDrawn)
    (solved : (analysis folding).solveFrom limits graph initial = .ok solution)
    (found : graph.nodes[id]? = some node) (calls : node.action.leavesFragment = true)
    (present : solution.facts? id = some facts) :
    facts.output = graph.forgetFree facts.input := by
  have notEntry : id ≠ Graph.entry := by
    rintro rfl
    rw [well.entry_plain found] at calls
    cases calls
  obtain ⟨final, run, -, rfl⟩ := Analysis.run_of_solveFrom well solved
  obtain ⟨earlier, next, -, updated, -⟩ := run.evaluated well notEntry present
  have transferred : transfer folding graph id facts.input earlier.valueOf =
      (facts.value, facts.output) := updated.transfer
  rw [transfer_eq found] at transferred
  cases action : node.action <;> rw [action] at calls transferred
  case call => exact (congrArg Prod.snd transferred).symm
  case new => exact (congrArg Prod.snd transferred).symm
  all_goals cases calls

/-- What a call raises carries a store in which the free names are forgotten. -/
theorem onEdge_of_call (found : graph.nodes[edge.source]? = some node)
    (calls : node.action.leavesFragment = true) (raises : edge.kind = .exception) (store : Store) :
    onEdge graph edge store = graph.forgetFree store := by
  rw [onEdge, if_pos ⟨raises, by rw [found]; exact calls⟩]

/-- A call makes the names unknown that the fragment uses and nowhere declares, whether it
returns or raises.  A name that the fragment declares anywhere keeps its constant. -/
theorem calls_forget_undeclared (member : fragment ∈ (Tree.ofUnit unit serial).fragments)
    (built : Graph.ofFragment fragment types = .ok graph)
    (solved : (analysis folding).solveFrom limits graph initial = .ok solution)
    (found : graph.nodes[id]? = some node) (calls : node.action.leavesFragment = true)
    (present : solution.facts? id = some facts) (uses : fragment.uses name = true) :
    (fragment.declares name = false → facts.output.get name = .top ∧
      ∀ edge ∈ graph.successors id, edge.kind = .exception →
        (onEdge graph edge facts.input).get name = .top) ∧
    (fragment.declares name = true → facts.output.get name = facts.input.get name ∧
      ∀ edge ∈ graph.successors id, edge.kind = .exception →
        (onEdge graph edge facts.input).get name = facts.input.get name) := by
  have well := Graph.wellDrawn_of_ofFragment built
  have forgets : ∀ edge ∈ graph.successors id, edge.kind = .exception →
      onEdge graph edge facts.input = graph.forgetFree facts.input := by
    intro edge leaving raises
    obtain ⟨-, source⟩ := well.mem_successors.1 leaving
    exact onEdge_of_call (source ▸ found) calls raises _
  rw [output_of_call well solved found calls present]
  constructor
  · intro undeclared
    have forgotten : (graph.forgetFree facts.input).get name = .top := by
      rw [get_forgetFree, if_pos ((Graph.mem_freeNames_iff member built).2 ⟨uses, undeclared⟩)]
    exact ⟨forgotten, fun edge leaving raises => forgets edge leaving raises ▸ forgotten⟩
  · intro declared
    have kept : (graph.forgetFree facts.input).get name = facts.input.get name := by
      rw [get_forgetFree, if_neg]
      rw [Graph.mem_freeNames_iff member built, declared]
      rintro ⟨-, ⟨⟩⟩
    exact ⟨kept, fun edge leaving raises => forgets edge leaving raises ▸ kept⟩

/-- A class with a method that sets a field, copies it and calls another method:
`count = 0; int before = count; try { reset(); } catch (Exception e) { return count; }
return before;`. -/
def guardedReset : Source.CompilationUnit where
  name := "Counter"
  classes := [{ name := "Counter", members := [.method "f" [] [] (some
    [.exprStmt (.assign "count" (.literal (.int 0))),
      .localDecl "before" "int" (some (.ident "count")),
      .tryCatch [.exprStmt (.call "reset" [])]
        [.mk "e" "Exception" [.returnValue (some (.ident "count"))]] none,
      .returnValue (some (.ident "before"))])] }]

theorem fragments_guardedReset_ne_nil : (Tree.ofUnit guardedReset 0).fragments ≠ [] := by
  decide +kernel

/-- The method of the class. -/
def guardedRun : Fragment :=
  (Tree.ofUnit guardedReset 0).fragments.head fragments_guardedReset_ne_nil

/-- The call makes the field unknown, also for the catch clause, and leaves the copy alone. -/
theorem guardedRun_forgets : ∃ graph solution facts,
    Graph.ofFragment guardedRun .builtins = .ok graph ∧
      (analysis true).solve {} graph = .ok solution ∧ graph.action? 6 = some (.call "reset") ∧
      solution.facts? 6 = some facts ∧ facts.input.get "count" = .int 0 ∧
      (∀ node ∈ guardedRun.nodes, node ∈ guardedRun.outside "count") ∧
      facts.output.get "count" = .top ∧
      (∀ edge ∈ graph.successors 6, edge.kind = .exception →
        (onEdge graph edge facts.input).get "count" = .top) ∧
      facts.output.get "before" = .int 0 := by
  have built : Graph.ofFragment guardedRun .builtins =
      .ok ((Graph.draw guardedRun).finish guardedRun.name) := by
    decide +kernel
  have action : ((Graph.draw guardedRun).finish guardedRun.name).action? 6 =
      some (.call "reset") := by
    decide +kernel
  have reported : (((analysis true).solve {} ((Graph.draw guardedRun).finish
      guardedRun.name)).toOption.bind fun solution => (solution.facts? 6).map fun facts =>
        (facts.input.get "count", facts.input.get "before")) = some (.int 0, .int 0) := by
    decide +kernel
  have usesField : guardedRun.uses "count" = true := by decide +kernel
  have usesLocal : guardedRun.uses "before" = true := by decide +kernel
  have isField : guardedRun.declares "count" = false := by decide +kernel
  have isLocal : guardedRun.declares "before" = true := by decide +kernel
  have member : guardedRun ∈ (Tree.ofUnit guardedReset 0).fragments :=
    List.head_mem fragments_guardedReset_ne_nil
  generalize (Graph.draw guardedRun).finish guardedRun.name = graph at built action reported
  obtain ⟨solution, facts, solved, present, constants⟩ := Analysis.exists_facts_of_report reported
  obtain ⟨count, before⟩ := Prod.mk.inj constants
  obtain ⟨node, found, isCall⟩ := Option.map_eq_some_iff.1 action
  have calls : node.action.leavesFragment = true := by rw [isCall]; rfl
  obtain ⟨forgets, -⟩ :=
    calls_forget_undeclared member built solved found calls present usesField
  obtain ⟨-, keeps⟩ :=
    calls_forget_undeclared member built solved found calls present usesLocal
  obtain ⟨forgotten, raised⟩ := forgets isField
  exact ⟨graph, solution, facts, built, solved, action, present, count,
    fun _ isNode => Fragment.mem_outside_of_undeclared isField isNode, forgotten, raised,
    (keeps isLocal).1.trans before⟩

/-- A class with a method that declares a variable in one block and uses a field of that name
behind it: `if (p) { int count = 1; } count = 0; reset(); return count;`. -/
def shadowedField : Source.CompilationUnit where
  name := "Counter"
  classes := [{ name := "Counter", members := [.method "f" [⟨"p", "boolean"⟩] [] (some
    [.ifElse (.ident "p") [.localDecl "count" "int" (some (.literal (.int 1)))] none,
      .exprStmt (.assign "count" (.literal (.int 0))), .exprStmt (.call "reset" []),
      .returnValue (some (.ident "count"))])] }]

theorem fragments_shadowedField_ne_nil : (Tree.ofUnit shadowedField 0).fragments ≠ [] := by
  decide +kernel

/-- The method of the class. -/
def shadowedRun : Fragment :=
  (Tree.ofUnit shadowedField 0).fragments.head fragments_shadowedField_ne_nil

/-- The assignment and the call are outside the scope of the variable, and yet the constant of
the field survives the call, whether it returns or raises. -/
theorem shadowedRun_keeps : ∃ graph solution facts,
    Graph.ofFragment shadowedRun .builtins = .ok graph ∧
      (analysis true).solve {} graph = .ok solution ∧
      (∃ use ∈ shadowedRun.outside "count", use.uses? = some "count") ∧
      (∃ call ∈ shadowedRun.outside "count", call.action? = some (.call "reset") ∧
        graph.nodesFor call.id = [7]) ∧
      solution.facts? 7 = some facts ∧ facts.output.get "count" = .int 0 ∧
      ∃ edge ∈ graph.successors 7, edge.kind = .exception ∧
        (onEdge graph edge facts.input).get "count" = .int 0 := by
  have built : Graph.ofFragment shadowedRun .builtins =
      .ok ((Graph.draw shadowedRun).finish shadowedRun.name) := by
    decide +kernel
  have use : (shadowedRun.outside "count").any (fun use => use.uses? == some "count") = true := by
    decide +kernel
  have call : (shadowedRun.outside "count").any (fun call =>
      call.action? == some (.call "reset") &&
        ((Graph.draw shadowedRun).finish shadowedRun.name).nodesFor call.id == [7]) = true := by
    decide +kernel
  have raises : ((Graph.draw shadowedRun).finish shadowedRun.name).successors 7 =
      [⟨7, 8, .normal⟩, ⟨7, 11, .exception⟩] := by
    decide +kernel
  have reported : (((analysis true).solve {} ((Graph.draw shadowedRun).finish
      shadowedRun.name)).toOption.bind fun solution => (solution.facts? 7).map fun facts =>
        (facts.output.get "count", (onEdge ((Graph.draw shadowedRun).finish shadowedRun.name)
          ⟨7, 11, .exception⟩ facts.input).get "count")) = some (.int 0, .int 0) := by
    decide +kernel
  generalize (Graph.draw shadowedRun).finish shadowedRun.name = graph
    at built call raises reported
  obtain ⟨solution, facts, solved, present, constants⟩ := Analysis.exists_facts_of_report reported
  obtain ⟨returned, raised⟩ := Prod.mk.inj constants
  simp only [List.any_eq_true, Bool.and_eq_true, beq_iff_eq] at use call
  refine ⟨graph, solution, facts, built, solved, use, call, present, returned,
    ⟨7, 11, .exception⟩, ?_, rfl, raised⟩
  rw [raises]
  exact List.mem_cons_of_mem _ List.mem_cons_self

end Constants

end FragmentFlow
