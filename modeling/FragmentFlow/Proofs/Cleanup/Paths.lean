import FragmentFlow.Proofs.Cleanup.Statements
import FragmentFlow.Proofs.Drawing.TypeNames
import FragmentFlow.Proofs.Graph.Paths

/-!
# No way around a `finally` block

Control that has been in the body or in a catch clause of a `try` gets out of the `try`
only through its `finally` block: every path from a node drawn for the body or for a
catch clause to an exit of the graph, or to a node drawn for anything outside the
`try`, passes a node drawn for the block.
-/

namespace FragmentFlow

namespace Graph

/-- The part of the tree that a node stands for. -/
def tree? (graph : Graph) (id : Nat) : Option Nat :=
  graph.nodes[id]?.bind Node.tree

/-- A node stands for a part of the tree or for something below it. -/
def StandsFor (graph : Graph) (id : Nat) (part : Tree.Node) : Prop :=
  ∃ inner ∈ part.preorder, graph.tree? id = some inner.id

theorem tree?_eq_some {graph : Graph} {id tree : Nat} :
    graph.tree? id = some tree ↔
      ∃ node, graph.toBuilder.bare? id = some node ∧ node.tree = some tree := by
  simp only [tree?, Builder.bare?, toBuilder, Option.bind_eq_some_iff, Option.map_eq_some_iff]
  constructor
  · rintro ⟨node, found, stands⟩
    exact ⟨node.bare, ⟨node, found, rfl⟩, stands⟩
  · rintro ⟨_, ⟨node, found, rfl⟩, stands⟩
    exact ⟨node, found, stands⟩

namespace Builder

variable {guard : Tree.Protected} {held : Nat → Prop} {b : Builder}

/-! ### Finished graphs -/

theorem Fenced.addNode (fenced : b.Fenced guard held) (node : Node)
    (isImplicit : node.tree = none) : (b.addNode node).2.Fenced guard held := by
  refine fenced.grow (.addNode b node) (fun id other tree found above stands => ?_)
    fun edge member => Or.inl member
  rw [bare?_addNode] at found
  split at found
  · cases found
    cases isImplicit.symm.trans stands
  · exact absurd (lt_size_of_bare? found) (Nat.not_lt.2 above)

/-- Tips outside the protected code may end at a new node. -/
theorem Fenced.addExit (fenced : b.Fenced guard held) (node : Node) (isImplicit : node.tree = none)
    {tips : List Tip} (loose : b.Loose none held tips) :
    ((b.addNode node).2.connect tips b.nodes.size).Fenced guard held :=
  (fenced.addNode node isImplicit).connect (loose.grow (.addNode b node)) fun inside => by
    cases inside

/-- The exits are drawn outside the fence. -/
theorem Fenced.finish (fenced : b.Fenced guard held) (loose : b.Loose none held b.tips)
    (parked : ∀ exit, b.Loose none held (b.parkedUnder exit)) (label : String) :
    (b.finish label).toBuilder.Fenced guard held := by
  have atExit := fenced.addExit (.implicit .exit []) rfl (loose.append (parked .returns))
  have grows := (Grows.addNode b (.implicit .exit [])).trans
    (.connect _ (b.tips ++ b.parkedUnder .returns) b.nodes.size)
  have atBoth := atExit.addExit (.implicit .exceptionalExit []) rfl
    ((parked .uncaught).grow grows)
  exact atBoth.of_eq rfl rfl

end Builder

/-- A path from a held node stays at held nodes until it passes the `finally` block. -/
theorem Path.held_or_closes {graph : Graph} {guard : Tree.Protected} {held : Nat → Prop}
    (well : graph.WellDrawn) (fenced : graph.toBuilder.Fenced guard held) {start last : Nat}
    {nodes : List Nat} (path : graph.Path start nodes last) (isHeld : held start) :
    held last ∨ ∃ id ∈ nodes, graph.toBuilder.Closes guard id := by
  induction path with
  | stay => exact Or.inl isHeld
  | @step nodes middle edge path leaving ih =>
      rcases ih with inside | ⟨id, member, closes⟩
      · obtain ⟨drawn, rfl⟩ := well.mem_successors.1 leaving
        refine (fenced.edges edge drawn inside).imp_right fun closes => ?_
        exact ⟨edge.target, List.mem_append_right _ List.mem_cons_self, closes⟩
      · exact Or.inr ⟨id, List.mem_append_left _ member, closes⟩

/-! ### Fragments -/

namespace Builder

variable {guard : Tree.Protected}

theorem Straight.params {scope : Scope} {own : Option Nat → Prop} {b later : Builder}
    (straight : Straight scope own b later) (isOwn : own none) (names : List String) :
    Straight scope own b (later.params names) :=
  params_keep (motive := Straight scope own b)
    (fun _ _ straight => (straight.push _ isOwn).toStraight) straight names

theorem Straight.typedParams {scope : Scope} {own : Option Nat → Prop} {b later : Builder}
    (straight : Straight scope own b later) (isOwn : own none) (list : List Source.Param) :
    Straight scope own b
      (list.foldl (fun b param => (b.mention param.ty).params [param.name]) later) :=
  typedParams_keep (motive := Straight scope own b)
    (fun _ _ straight => (straight.push _ isOwn).toStraight)
    (fun later ty straight => straight.trans (.mention later ty)) straight list

/-- Nothing is held before anything is drawn. -/
theorem fenced_empty (guard : Tree.Protected) : ({} : Builder).Fenced guard fun _ => False where
  inner _ never := never.elim
  covers _ _ _ found := by cases found
  bound _ member := absurd member (Array.not_mem_empty _)
  edges _ member := absurd member (Array.not_mem_empty _)

/-- The body of a fragment keeps the fence. -/
theorem fences_body {b : Builder} {body : Tree.Block}
    (straight : Straight [] (guard.Belongs none) {} b)
    (suits : guard.Suits none body.toNode) :
    Fences guard none [] (fun _ => False) {} (b.stmts [] false body.stmts) := by
  have empty : ({} : Builder).Loose none (fun _ => False) ({} : Builder).tips := Loose.nil
  obtain ⟨held, begun, loose, -⟩ := (fenced_empty guard).straight .nil straight empty
  obtain ⟨more, kept, ends⟩ := (drawingCases_fences guard).stmts [] body.stmts false b held none
    (begun.encloses .nil) suits.stmts begun.fenced (Or.inl loose)
  exact ⟨more, begun.trans kept, ends⟩

/-- Code that contains the protected `try` keeps the fence around it. -/
theorem fences_code (code : Fragment.Code) {body : Tree.Node} (isBody : code.body? = some body)
    (member : guard.toNode ∈ body.ownNodes) (distinct : (body.preorder.map Tree.Node.id).Nodup) :
    Fences guard none [] (fun _ => False) {} (start.code code) := by
  have isOwn := guard.belongs_none none
  have started : Straight [] (guard.Belongs none) {} start :=
    ((Straight.refl {}).push (.implicit .entry []) isOwn).toStraight
  match code with
  | .method decl =>
      obtain ⟨block, present, rfl⟩ := Option.map_eq_some_iff.1 isBody
      rw [Builder.code, present]
      exact fences_body (started.typedParams isOwn decl.params) (Or.inr ⟨rfl, member, distinct⟩)
  | .lambda id names (.block block) =>
      cases isBody
      exact fences_body (started.params isOwn names) (Or.inr ⟨rfl, member, distinct⟩)
  | .initializer block =>
      cases isBody
      exact fences_body started (Or.inr ⟨rfl, member, distinct⟩)
  | .lambda id names (.value result) =>
      cases isBody
      cases Tree.Node.isExpression_of_mem_ownNodes member
  | .fieldInitializer decl init =>
      cases isBody
      cases Tree.Node.isExpression_of_mem_ownNodes member

end Builder

/-- The graph of a fragment is fenced around every protected `try` of the fragment, with
the exits outside. -/
theorem exists_fence (guard : Tree.Protected) {unit : Source.CompilationUnit} {serial : Nat}
    {fragment : Fragment} (member : fragment ∈ (Tree.ofUnit unit serial).fragments)
    (isOwn : guard.toNode ∈ fragment.nodes) {env : Environment} {graph : Graph}
    (built : ofFragment fragment env = .ok graph) :
    ∃ held, graph.toBuilder.Fenced guard held ∧ ¬ held graph.exit ∧
      ¬ held graph.exceptionalExit := by
  obtain ⟨hasBody, rfl⟩ := eq_finish_of_ofFragment built
  obtain ⟨body, isBody⟩ := Option.isSome_iff_exists.1 hasBody
  rw [Fragment.nodes, isBody] at isOwn
  obtain ⟨held, kept, loose⟩ := Builder.fences_code fragment.code isBody isOwn
    (Fragment.nodup_ids_body member isBody)
  have below : ∀ id, (draw fragment).nodes.size ≤ id → ¬ held id := fun id above isHeld =>
    absurd (kept.fenced.lt_size isHeld) (Nat.not_lt.2 above)
  refine ⟨held, kept.fenced.finish loose (kept.looseUnder rfl) fragment.name,
    below _ (Nat.le_refl _), below _ ?_⟩
  exact ((Builder.Grows.addNode (draw fragment) (.implicit .exit [])).trans
    (.connect _ _ (draw fragment).nodes.size)).size_le

/-- Control that leaves a `try` passes its `finally` block: every path from a node drawn
for the body or for a catch clause to an exit, or to a node drawn for something outside
the `try`, passes a node drawn for the block, if the block begins with an expression
statement. -/
theorem exists_cleanup_of_path {unit : Source.CompilationUnit} {serial : Nat}
    {fragment : Fragment} (member : fragment ∈ (Tree.ofUnit unit serial).fragments)
    {env : Environment} {graph : Graph} (built : ofFragment fragment env = .ok graph)
    {id : Nat} {body block : Tree.Block} {catches : List Tree.Catch}
    (isOwn : .stmt (.tryCatch id body catches (some block)) ∈ fragment.nodes)
    (begins : ∃ first value rest, block.stmts = .exprStmt first value :: rest)
    {start last : Nat} {nodes : List Nat} (path : graph.Path start nodes last)
    (inside : graph.StandsFor start body.toNode ∨
      ∃ clause ∈ catches, graph.StandsFor start (.catchClause clause))
    (outside : last = graph.exit ∨ last = graph.exceptionalExit ∨
      graph.tree? last ≠ none ∧
        ¬ graph.StandsFor last (.stmt (.tryCatch id body catches (some block)))) :
    ∃ node ∈ nodes, graph.StandsFor node block.toNode := by
  have distinct := Fragment.nodup_ids_of_mem_nodes member isOwn
  let guard : Tree.Protected := ⟨id, body, catches, block, distinct, begins⟩
  obtain ⟨held, fenced, notExit, notExceptional⟩ := exists_fence guard member isOwn built
  have isHeld : held start := by
    obtain ⟨part, isPart, inner, isInner, stands⟩ :
        ∃ part ∈ body.toNode :: catches.map .catchClause, graph.StandsFor start part := by
      rcases inside with inBody | ⟨clause, isClause, inClause⟩
      · exact ⟨_, List.mem_cons_self, inBody⟩
      · exact ⟨_, List.mem_cons_of_mem _ (List.mem_map_of_mem isClause), inClause⟩
    obtain ⟨node, found, isTree⟩ := tree?_eq_some.1 stands
    exact fenced.covers start node inner.id found isTree ⟨part, isPart, inner, isInner, rfl⟩
  have left : ¬ held last := by
    rcases outside with rfl | rfl | ⟨isDrawn, apart⟩
    · exact notExit
    · exact notExceptional
    · intro stillHeld
      obtain ⟨tree, stands⟩ := Option.ne_none_iff_exists'.1 isDrawn
      obtain ⟨node, found, isInner⟩ := fenced.inner last stillHeld
      obtain ⟨same, present, isTree⟩ := tree?_eq_some.1 stands
      cases present.symm.trans found
      obtain ⟨inner, below, isNumber⟩ := guard.mem_preorder_of_inner (isInner tree isTree)
      exact apart ⟨inner, below, isNumber ▸ stands⟩
  obtain ⟨node, passed, closing, tree, found, isTree, inner, below, isNumber⟩ :=
    (path.held_or_closes (wellDrawn_of_ofFragment built) fenced isHeld).resolve_left left
  exact ⟨node, passed, inner, below, isNumber ▸ tree?_eq_some.2 ⟨closing, found, isTree⟩⟩

/-- A class with a method that tries until an attempt succeeds:
`while (more) { try { attempt(); break; } catch (Exception e) { continue; } finally { done(); } }`.
-/
def attempts : Source.CompilationUnit where
  name := "Attempts"
  classes := [{ name := "Attempts", members := [.method "run" [] [] (some
    [.whileLoop (.ident "more")
      [.tryCatch [.exprStmt (.call "attempt" []), .breakLoop]
        [.mk "e" "Exception" [.continueLoop]] (some [.exprStmt (.call "done" [])])]])] }]

theorem fragments_attempts_ne_nil : (Tree.ofUnit attempts 0).fragments ≠ [] := by
  decide +kernel

/-- The method of the class. -/
def attemptsRun : Fragment :=
  (Tree.ofUnit attempts 0).fragments.head fragments_attempts_ne_nil

/-- The `try` of the method. -/
def attemptsTry : Tree.Stmt :=
  .tryCatch 11 (.mk 4 false [.exprStmt 2 (.call 1 "attempt" []), .breakLoop 3])
    [.mk 7 "e" "Exception" (.mk 6 false [.continueLoop 5])]
    (some (.mk 10 false [.exprStmt 9 (.call 8 "done" [])]))

/-- A failed attempt is caught, and `done` is called on the way to the next turn of the
loop. -/
theorem attempts_cleanUp : ∃ graph, ofFragment attemptsRun .builtins = .ok graph ∧
    graph.Path 4 [3, 6, 1] 1 ∧ ∃ node ∈ [3, 6, 1],
      graph.StandsFor node (Tree.Block.mk 10 false [.exprStmt 9 (.call 8 "done" [])]).toNode := by
  have built : ofFragment attemptsRun .builtins =
      .ok ((draw attemptsRun).finish attemptsRun.name) := by
    decide +kernel
  have isOwn : attemptsRun.nodes[4]? = some (.stmt attemptsTry) := by
    cbv
  have drawn : [4, 3, 6].map ((draw attemptsRun).finish attemptsRun.name).successors =
      [[⟨4, 3, .exception⟩, ⟨4, 5, .normal⟩], [⟨3, 6, .normal⟩],
        [⟨6, 1, .continueLoop⟩, ⟨6, 9, .exception⟩]] := by
    decide +kernel
  have trees : [4, 1].map ((draw attemptsRun).finish attemptsRun.name).tree? =
      [some 1, some 13] := by
    decide +kernel
  have numbers : (Tree.Node.stmt attemptsTry).preorder.map Tree.Node.id =
      [11, 4, 2, 1, 3, 7, 6, 5, 10, 9, 8] := by
    decide +kernel
  have call : (Tree.Block.mk 4 false [.exprStmt 2 (.call 1 "attempt" []),
      .breakLoop 3]).toNode.preorder[2]? = some (.expr (.call 1 "attempt" [])) := by
    cbv
  generalize (draw attemptsRun).finish attemptsRun.name = graph at built drawn trees
  simp only [List.map_cons, List.map_nil, List.cons.injEq, and_true] at drawn trees
  obtain ⟨raised, caught, continued⟩ := drawn
  have path : graph.Path 4 [3, 6, 1] 1 :=
    ((Path.stay.step (raised ▸ List.mem_cons_self)).step (caught ▸ List.mem_cons_self)).step
      (continued ▸ List.mem_cons_self)
  have apart : ¬ graph.StandsFor 1 (.stmt attemptsTry) := by
    rintro ⟨inner, below, stands⟩
    have number : inner.id ∈ (Tree.Node.stmt attemptsTry).preorder.map Tree.Node.id :=
      List.mem_map_of_mem below
    rw [numbers, ← Option.some.inj (trees.2.symm.trans stands)] at number
    simp at number
  exact ⟨graph, built, path, exists_cleanup_of_path (List.head_mem fragments_attempts_ne_nil) built
    (List.mem_of_getElem? isOwn) ⟨9, _, _, rfl⟩ path
    (Or.inl ⟨_, List.mem_of_getElem? call, trees.1⟩)
    (Or.inr (Or.inr ⟨by simp [trees.2], apart⟩))⟩

end Graph

end FragmentFlow
