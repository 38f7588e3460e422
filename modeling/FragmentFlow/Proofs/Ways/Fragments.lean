import FragmentFlow.Proofs.Drawing.Exits
import FragmentFlow.Proofs.Graph.Paths
import FragmentFlow.Proofs.Ways.Statements

/-!
# No edge of a fragment is lost

If every jump of a fragment stays in one of its loops, control can go on from every node but
the exits: with an exception exactly if the node can raise, and otherwise unless it only
raises.  Conditions lead on both when they are true and when they are false.
-/

namespace FragmentFlow.Graph

namespace Builder

variable {marked : Nat → Prop} {aside : Tip → Prop} {b : Builder}

namespace Whole

/-- A quiet node without a part of the tree keeps a drawing whole. -/
theorem pushImplicit (whole : Whole marked aside b) (action : Action) (operands : List Nat)
    (completes : action.completes = true) (quiet : action.canThrow = false) :
    Whole marked aside (b.push (.implicit action operands)).2 := by
  refine whole.pushPlain (.implicit action operands) completes quiet fun id absent => ?_
  cases absent

theorem params (whole : Whole marked aside b) (names : List String) :
    Whole marked aside (b.params names) :=
  params_keep (motive := Whole marked aside)
    (fun _ name whole => whole.pushImplicit (.param name) [] rfl rfl) whole names

theorem typedParams (whole : Whole marked aside b) (list : List Source.Param) :
    Whole marked aside
      (list.foldl (fun b param => (b.mention param.ty).params [param.name]) b) :=
  typedParams_keep (motive := Whole marked aside)
    (fun _ name whole => whole.pushImplicit (.param name) [] rfl rfl)
    (fun _ ty whole => whole.mention ty) whole list

theorem block (whole : Whole marked aside b) {body : Tree.Block}
    (unmarked : body.toNode.Unmarked marked) (within : body.jumpsWithin false = true) :
    Whole marked aside (b.stmts [] false body.stmts) :=
  drawingCases.stmts [] body.stmts false aside b trivial (.of_block unmarked within) whole

/-- The code of a fragment keeps a drawing whole. -/
theorem code (whole : Whole marked aside b) {code : Fragment.Code}
    (unmarked : ∀ body, code.body? = some body → body.Unmarked marked)
    (field : ∀ decl init, code = .fieldInitializer decl init → ¬ marked decl.id)
    (within : code.jumpsWithin = true) : Whole marked aside (b.code code) := by
  match code with
  | .method decl =>
      have bound := whole.typedParams decl.params
      rw [Builder.code]
      cases present : decl.body with
      | none => exact bound
      | some body =>
          rw [Fragment.Code.jumpsWithin, present] at within
          refine bound.block (unmarked _ ?_) within
          rw [Fragment.Code.body?, present]
          rfl
  | .lambda id names (.block body) => exact (whole.params names).block (unmarked _ rfl) within
  | .lambda id names (.value result) =>
      have evaluated := (whole.params names).operandExpr [] false result (unmarked _ rfl)
      exact (evaluated.pushImplicit .returnValue
        [((b.params names).expr [] false result).1] rfl rfl).jump .returns EdgeKind.noConfusion
  | .initializer body => exact whole.block (unmarked _ rfl) within
  | .fieldInitializer decl init =>
      have evaluated := (whole.mention decl.ty).operandExpr [] false init (unmarked _ rfl)
      exact evaluated.pushStmt false (.decl decl.name) _ rfl rfl (field decl init rfl)

end Whole

/-- A drawing is whole at its start. -/
theorem whole_start (marked : Nat → Prop) : Whole marked (fun _ => False) start := by
  have empty : Whole marked (fun _ => False) {} := by
    refine ⟨fun id node kind found => ?_, fun edge never => ?_, fun tip waits => ?_⟩
    · cases found
    · exact absurd never (Array.not_mem_empty edge)
    · rcases waits with (never | ⟨exit, never⟩) | never <;> cases never
  exact empty.pushImplicit .entry [] rfl rfl

end Builder

section Finished

variable {marked : Nat → Prop} {b : Builder} {label : String}

/-- Behind all code, what waits for a target ends at one of the exits. -/
theorem Builder.Leaves.finish {tip : Tip} (leaves : b.Leaves (fun _ => False) tip)
    (ends : ∀ entry ∈ b.parked, entry.1 = .returns ∨ entry.1 = .uncaught) :
    ∃ edge ∈ (b.finish label).edges, edge.source = tip.source ∧ tip.kind.Serves edge.kind := by
  obtain ⟨kind, serves, ⟨target, drawn⟩ | (isOpen | ⟨exit, isParked⟩) | never⟩ := leaves
  · exact ⟨_, mem_edges_finish.2 (Or.inl drawn), rfl, serves⟩
  · exact ⟨⟨tip.source, _, kind⟩,
      mem_edges_finish.2 (Or.inr (Or.inl ⟨List.mem_append_left _ isOpen, rfl⟩)), rfl, serves⟩
  · rcases ends _ isParked with rfl | rfl
    · exact ⟨⟨tip.source, _, kind⟩, mem_edges_finish.2 (Or.inr (Or.inl
        ⟨List.mem_append_right _ (mem_parkedUnder.2 isParked), rfl⟩)), rfl, serves⟩
    · exact ⟨⟨tip.source, _, kind⟩, mem_edges_finish.2 (Or.inr (Or.inr
        ⟨mem_parkedUnder.2 isParked, rfl⟩)), rfl, serves⟩
  · exact never.elim

/-- Every edge starts at a node of the code, and may start there. -/
theorem Builder.Whole.suits_finish (whole : b.Whole marked fun _ => False) {edge : Edge}
    (drawn : edge ∈ (b.finish label).edges) : b.Suits ⟨edge.source, edge.kind⟩ := by
  rcases mem_edges_finish.1 drawn with old | ⟨waits, -⟩ | ⟨waits, -⟩
  · exact whole.edges edge old
  · rcases List.mem_append.1 waits with isOpen | returns
    · exact whole.tips _ (Or.inl (Or.inl isOpen))
    · exact whole.tips _ (Or.inl (Or.inr ⟨_, mem_parkedUnder.1 returns⟩))
  · exact whole.tips _ (Or.inl (Or.inr ⟨_, mem_parkedUnder.1 waits⟩))

end Finished

section Built

variable {unit : Source.CompilationUnit} {serial : Nat} {fragment : Fragment} {env : Environment}
  {graph : Graph}

/-- The drawing of a fragment is whole. -/
theorem whole_draw (member : fragment ∈ (Tree.ofUnit unit serial).fragments)
    (within : fragment.code.jumpsWithin = true) :
    (draw fragment).Whole fragment.Branches fun _ => False :=
  (Builder.whole_start _).code (fun _ => Fragment.unmarked_body member)
    (fun _ _ => Fragment.not_branches_field member) within

/-- A node is an exit or has been drawn with the code. -/
theorem exit_or_drawn (built : ofFragment fragment env = .ok graph) {id : Nat} {node : Node}
    (found : graph.nodes[id]? = some node) :
    id = graph.exit ∧ node.bare = .implicit .exit [] ∨
      id = graph.exceptionalExit ∧ node.bare = .implicit .exceptionalExit [] ∨
        (draw fragment).bare? id = some node.bare := by
  obtain ⟨-, rfl⟩ := eq_finish_of_ofFragment built
  have present := bare?_toBuilder found
  rw [Builder.bare?_finish] at present
  split at present
  · rename_i isExceptional
    exact Or.inr (Or.inl ⟨isExceptional.trans Builder.exceptionalExit_finish.symm,
      (Option.some.inj present).symm⟩)
  · split at present
    · rename_i isExit
      exact Or.inl ⟨isExit, (Option.some.inj present).symm⟩
    · exact Or.inr (Or.inr present)

/-- A node that is not an exit has been drawn with the code. -/
theorem bare?_draw (built : ofFragment fragment env = .ok graph) {id : Nat} {node : Node}
    (found : graph.nodes[id]? = some node) (notExit : id ≠ graph.exit)
    (notExceptional : id ≠ graph.exceptionalExit) : (draw fragment).bare? id = some node.bare :=
  ((exit_or_drawn built found).resolve_left fun isExit => notExit isExit.1).resolve_left
    fun isExceptional => notExceptional isExceptional.1

/-- Where a node needs an edge of a kind, one leaves it. -/
theorem exists_successor (member : fragment ∈ (Tree.ofUnit unit serial).fragments)
    (built : ofFragment fragment env = .ok graph) (within : fragment.code.jumpsWithin = true)
    {id : Nat} {node : Node} {kind : EdgeKind} (found : (draw fragment).bare? id = some node)
    (needs : node.Needs fragment.Branches kind) :
    ∃ edge ∈ graph.successors id, kind.Serves edge.kind := by
  have well := wellDrawn_of_ofFragment built
  obtain ⟨-, rfl⟩ := eq_finish_of_ofFragment built
  obtain ⟨edge, drawn, source, serves⟩ :=
    ((whole_draw member within).nodes id node kind found needs).finish fun _ => parked_draw
  exact ⟨edge, well.mem_successors.2 ⟨drawn, source⟩, serves⟩

/-- What leaves a node may leave it, and the node has been drawn with the code. -/
theorem allows_of_mem_successors (member : fragment ∈ (Tree.ofUnit unit serial).fragments)
    (built : ofFragment fragment env = .ok graph) (within : fragment.code.jumpsWithin = true)
    {id : Nat} {edge : Edge} (leaving : edge ∈ graph.successors id) :
    ∃ node, (draw fragment).bare? id = some node ∧ node.Allows edge.kind := by
  have well := wellDrawn_of_ofFragment built
  obtain ⟨-, rfl⟩ := eq_finish_of_ofFragment built
  obtain ⟨drawn, rfl⟩ := well.mem_successors.1 leaving
  exact (whole_draw member within).suits_finish drawn

/-- An action in the graph is that of the drawing. -/
theorem action_of_bare?_draw (built : ofFragment fragment env = .ok graph) {id : Nat}
    {node : Node} {action : Action} (found : (draw fragment).bare? id = some node)
    (isAction : graph.action? id = some action) : node.action = action := by
  obtain ⟨-, rfl⟩ := eq_finish_of_ofFragment built
  obtain ⟨other, present, rfl⟩ := Option.map_eq_some_iff.1 isAction
  cases (Builder.grows_finish.nodes id node found).symm.trans (bare?_toBuilder present)
  rfl

/-- No edge leaves the nodes that are drawn behind the code. -/
theorem successors_eq_nil (member : fragment ∈ (Tree.ofUnit unit serial).fragments)
    (built : ofFragment fragment env = .ok graph) (within : fragment.code.jumpsWithin = true)
    {id : Nat} (behind : (draw fragment).nodes.size ≤ id) : graph.successors id = [] := by
  refine List.eq_nil_iff_forall_not_mem.2 fun edge leaving => ?_
  obtain ⟨node, found, -⟩ := allows_of_mem_successors member built within leaving
  exact absurd (Builder.lt_size_of_bare? found) (Nat.not_lt.2 behind)

/-- Only exceptions end at the exceptional exit. -/
theorem kind_of_mem_predecessors (built : ofFragment fragment env = .ok graph) {edge : Edge}
    (entering : edge ∈ graph.predecessors graph.exceptionalExit) : edge.kind = .exception := by
  have well := wellDrawn_of_ofFragment built
  obtain ⟨-, rfl⟩ := eq_finish_of_ofFragment built
  obtain ⟨drawn, target⟩ := well.mem_predecessors.1 entering
  rw [Builder.exceptionalExit_finish] at target
  rcases Builder.mem_edges_finish.1 drawn with old | ⟨-, isExit⟩ | ⟨uncaught, -⟩
  · have bound := ((Builder.fits_start.code fragment.code).drawn.edge_bounds old).2
    change edge.target < (draw fragment).nodes.size at bound
    omega
  · omega
  · rcases (Builder.Adds.code .start fragment.code).exits _ (Builder.mem_parkedUnder.1 uncaught)
      with never | ⟨-, fresh⟩
    · cases never
    · exact (fresh rfl).2

/-- Control can go on from every node but the exits. -/
theorem no_edge_lost (member : fragment ∈ (Tree.ofUnit unit serial).fragments)
    (built : ofFragment fragment env = .ok graph) (within : fragment.code.jumpsWithin = true) :
    (∀ id < graph.size, id ≠ graph.exit → id ≠ graph.exceptionalExit →
      graph.successors id ≠ []) ∧
    (∀ id action, graph.action? id = some action → action = .throwValue ∨ action = .rethrow →
      ∀ edge ∈ graph.successors id, edge.kind = .exception) ∧
    (∀ id action, graph.action? id = some action → id ≠ graph.exit → id ≠ graph.exceptionalExit →
      action ≠ .throwValue → action ≠ .rethrow →
        ∃ edge ∈ graph.successors id, edge.kind ≠ .exception) ∧
    (∀ id action, graph.action? id = some action →
      ((∃ edge ∈ graph.successors id, edge.kind = .exception) ↔ action.canThrow = true)) ∧
    (∀ node ∈ fragment.nodes, ∀ cond, node.decider? = some cond →
      ∀ id ∈ graph.nodesFor cond.id, (∃ edge ∈ graph.successors id, edge.kind = .onTrue) ∧
        ∃ edge ∈ graph.successors id, edge.kind = .onFalse) ∧
    graph.successors graph.exit = [] ∧ graph.successors graph.exceptionalExit = [] ∧
    graph.predecessors Graph.entry = [] ∧
    ∀ edge ∈ graph.predecessors graph.exceptionalExit, edge.kind = .exception := by
  have well := wellDrawn_of_ofFragment built
  refine ⟨?_, ?_, ?_, ?_, ?_, ?_, ?_, ?_, fun edge => kind_of_mem_predecessors built⟩
  · intro id bound notExit notExceptional empty
    have drawn := bare?_draw built (Array.getElem?_eq_getElem bound) notExit notExceptional
    obtain ⟨kind, needs⟩ := Node.exists_needs fragment.Branches _
    obtain ⟨edge, leaving, -⟩ := exists_successor member built within drawn needs
    rw [empty] at leaving
    cases leaving
  · intro id action isAction only edge leaving
    obtain ⟨node, drawn, allows⟩ := allows_of_mem_successors member built within leaving
    refine allows.stops ?_
    rw [action_of_bare?_draw built drawn isAction]
    rcases only with rfl | rfl <;> rfl
  · intro id action isAction notExit notExceptional throws rethrows
    obtain ⟨node, found, rfl⟩ := Option.map_eq_some_iff.1 isAction
    have drawn := bare?_draw built found notExit notExceptional
    obtain ⟨edge, leaving, serves⟩ := exists_successor member built within drawn
      (.normal (Action.completes_of_ne throws rethrows))
    exact ⟨edge, leaving, serves.ne_exception⟩
  · intro id action isAction
    constructor
    · rintro ⟨edge, leaving, raises⟩
      obtain ⟨node, drawn, allows⟩ := allows_of_mem_successors member built within leaving
      rw [← action_of_bare?_draw built drawn isAction]
      exact allows.raises raises
    · intro throws
      obtain ⟨node, found, rfl⟩ := Option.map_eq_some_iff.1 isAction
      have isSame : node.bare.action = node.action := rfl
      rcases exit_or_drawn built found with ⟨-, isExit⟩ | ⟨-, isExceptional⟩ | drawn
      · rw [← isSame, isExit] at throws
        cases throws
      · rw [← isSame, isExceptional] at throws
        cases throws
      · obtain ⟨edge, leaving, serves⟩ := exists_successor member built within drawn
          (.exception throws)
        exact ⟨edge, leaving, serves.eq_of_ne EdgeKind.noConfusion⟩
  · intro node isNode cond isDecider id isCopy
    obtain ⟨other, found, isTree⟩ := well.mem_nodesFor.1 isCopy
    have branches : fragment.Branches cond.id := ⟨node, isNode, cond, isDecider, rfl⟩
    have isSame : other.bare.tree = other.tree := rfl
    rcases exit_or_drawn built found with ⟨-, isExit⟩ | ⟨-, isExceptional⟩ | drawn
    · rw [← isSame, isExit] at isTree
      cases isTree
    · rw [← isSame, isExceptional] at isTree
      cases isTree
    · have leads : ∀ kind : EdgeKind, kind.isConditional = true → kind ≠ .normal →
          ∃ edge ∈ graph.successors id, edge.kind = kind := by
        intro kind conditional abnormal
        obtain ⟨edge, leaving, serves⟩ := exists_successor member built within drawn
          (.conditional isTree branches conditional)
        exact ⟨edge, leaving, serves.eq_of_ne abnormal⟩
      exact ⟨leads .onTrue rfl EdgeKind.noConfusion, leads .onFalse rfl EdgeKind.noConfusion⟩
  · refine successors_eq_nil member built within ?_
    obtain ⟨-, rfl⟩ := eq_finish_of_ofFragment built
    exact Nat.le_refl _
  · refine successors_eq_nil member built within ?_
    obtain ⟨-, rfl⟩ := eq_finish_of_ofFragment built
    rw [Builder.exceptionalExit_finish]
    exact Nat.le_succ _
  · refine List.eq_nil_iff_forall_not_mem.2 fun edge entering => ?_
    obtain ⟨drawn, target⟩ := well.mem_predecessors.1 entering
    exact well.target_ne_entry drawn target

end Built

/-- A class whose method leaves a loop through a `finally` block with a condition. -/
def leavingLoop : Source.CompilationUnit where
  name := "Leaving"
  classes := [{ name := "Leaving", members := [.method "run" [] [] (some
    [.whileLoop (.ident "open")
      [.tryCatch [.ifElse (.ident "done") [.breakLoop] none, .exprStmt (.call "risky" [])] []
        (some [.ifElse (.ident "dirty") [.exprStmt (.call "close" [])] none])]])] }]

theorem fragments_leavingLoop_ne_nil : (Tree.ofUnit leavingLoop 0).fragments ≠ [] := by
  decide +kernel

/-- The method of the class. -/
def leavingRun : Fragment :=
  (Tree.ofUnit leavingLoop 0).fragments.head fragments_leavingLoop_ne_nil

/-- The condition has three copies, for the end of the body, the `break` and exceptions.
Each of them has two branches, and no node but the exits is a dead end. -/
theorem leavingRun_keeps_edges : ∃ graph, ofFragment leavingRun .builtins = .ok graph ∧
    leavingRun.code.jumpsWithin = true ∧ graph.nodesFor 8 = [10, 4, 7] ∧
    (∀ id ∈ [10, 4, 7], (∃ edge ∈ graph.successors id, edge.kind = .onTrue) ∧
      ∃ edge ∈ graph.successors id, edge.kind = .onFalse) ∧
    ∀ id < graph.size, id ≠ graph.exit → id ≠ graph.exceptionalExit →
      graph.successors id ≠ [] := by
  have built : ofFragment leavingRun .builtins =
      .ok ((draw leavingRun).finish leavingRun.name) := by
    decide +kernel
  have member : leavingRun ∈ (Tree.ofUnit leavingLoop 0).fragments :=
    List.head_mem fragments_leavingLoop_ne_nil
  have within : leavingRun.code.jumpsWithin = true := by decide +kernel
  have copies : ((draw leavingRun).finish leavingRun.name).nodesFor 8 = [10, 4, 7] := by
    decide +kernel
  have test : (leavingRun.nodes[13]?.map Tree.Node.decider?) =
      some (some (.ident 8 "dirty")) := by
    cbv
  obtain ⟨node, isNode, isDecider⟩ := Option.map_eq_some_iff.1 test
  obtain ⟨leads, -, -, -, branches, -⟩ := no_edge_lost member built within
  refine ⟨_, built, within, copies, fun id isCopy => ?_, leads⟩
  exact branches node (List.mem_of_getElem? isNode) _ isDecider id (copies ▸ isCopy)

end FragmentFlow.Graph
