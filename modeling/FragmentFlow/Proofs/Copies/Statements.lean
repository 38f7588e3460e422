import FragmentFlow.Proofs.Copies.Units

/-!
# Copies keep step

Every statement is drawn in its place or as a copy of a `finally` block, expression by
expression.  In whatever order that happens, the nodes for a part of the tree and the nodes
for one of its operands correspond, one by one and in order.
-/

namespace FragmentFlow

namespace Tree

/-- A collection of nodes, some of which lie in a `finally` block. -/
structure Setting (nodes : List Node) (finals : Nat → Prop) : Prop
    extends Collection nodes where
  inside : ∀ node ∈ nodes, finals node.id → node.isLambda = false →
    ∀ child ∈ node.children, finals child.id
  cleanup : ∀ id body catches block, .stmt (.tryCatch id body catches (some block)) ∈ nodes →
    finals block.id

/-- A node may be drawn, as a copy only if it lies in a `finally` block. -/
structure Node.Listed (nodes : List Node) (finals : Nat → Prop) (copying : Bool) (node : Node) :
    Prop where
  isNode : node ∈ nodes
  final : copying = true → finals node.id

namespace Setting

variable {nodes : List Node} {finals : Nat → Prop} {copying : Bool} {node child : Node}

/-- Parts of listed nodes are listed, outside of lambdas. -/
theorem listed (setting : Setting nodes finals) (listed : node.Listed nodes finals copying)
    (outside : node.isLambda = false) (isChild : child ∈ node.children) :
    child.Listed nodes finals copying :=
  ⟨setting.closed node listed.isNode outside child isChild, fun isCopy =>
    setting.inside node listed.isNode (listed.final isCopy) outside child isChild⟩

/-- All own nodes of a node in a cleanup are in the cleanup. -/
theorem final_own (setting : Setting nodes finals) (isNode : node ∈ nodes) (final : finals node.id)
    {inner : Node} (isOwn : inner ∈ node.ownNodes) : finals inner.id := by
  induction node using Node.induction with
  | step node ih =>
      rcases Node.mem_ownNodes.1 isOwn with rfl | ⟨outside, child, isChild, below⟩
      · exact final
      · exact ih child isChild (setting.closed node isNode outside child isChild)
          (setting.inside node isNode final outside child isChild) below

/-- A listed node is within the nodes. -/
theorem within (setting : Setting nodes finals) (listed : node.Listed nodes finals copying) :
    node.Within nodes := fun _ isOwn =>
  setting.own listed.isNode isOwn

/-- The statements of a block may be drawn where the block may. -/
theorem stmts (setting : Setting nodes finals) {block : Block}
    (listed : block.toNode.Listed nodes finals copying) {statement : Stmt}
    (member : statement ∈ block.stmts) : (Node.stmt statement).Listed nodes finals copying :=
  setting.listed listed rfl (List.mem_map_of_mem member)

end Setting

/-- What may be copied may be drawn in its place. -/
theorem Node.Listed.inPlace {nodes : List Node} {finals : Nat → Prop} {node : Node}
    (listed : node.Listed nodes finals true) (copying : Bool) : node.Listed nodes finals copying :=
  ⟨listed.isNode, fun _ => listed.final rfl⟩

end Tree

namespace Graph.Builder

variable {nodes : List Tree.Node} {finals : Nat → Prop} {copying : Bool} {own : Nat → Nat}
  {b later : Builder}

/-- The operand of a node at a position. -/
def operand? (b : Builder) (position id : Nat) : Option Nat :=
  (b.bare? id).bind fun node => node.operands[position]?

/-- Every node stands for an evaluated part of the tree, and the operands of the nodes for a
part are the nodes for its operands, in the same order. -/
structure Matched (nodes : List Tree.Node) (finals : Nat → Prop) (b : Builder) : Prop where
  trees : ∀ id node tree, b.bare? id = some node → node.tree = some tree →
    ∃ inner ∈ nodes, inner.id = tree ∧ inner.isEvaluated = true ∧
      node.operands.length = inner.operands.length ∧ (node.isCopy = true → finals tree)
  operands : ∀ inner ∈ nodes, ∀ copying position part, inner.operands[position]? = some part →
    (b.drawings copying inner.id).map (b.operand? position) =
      (b.drawings copying part.id).map some

namespace Evaluation

/-- A new node stands for a part that has been drawn. -/
theorem own_pos (evaluation : Evaluation nodes copying own b later) {id tree : Nat} {node : Node}
    (new : b.nodes.size ≤ id) (found : later.bare? id = some node)
    (isDrawing : node.isDrawing copying tree = true) : 0 < own tree := by
  refine Nat.pos_of_ne_zero fun none => ?_
  have same := nodesWhere_eq_of_length evaluation.grows
    ((evaluation.count tree).trans (by rw [none]; rfl))
  have member : id ∈ later.nodesWhere (Node.isDrawing copying tree) :=
    mem_nodesWhere.2 ⟨node, found, isDrawing⟩
  rw [same] at member
  obtain ⟨other, present, -⟩ := mem_nodesWhere.1 member
  exact absurd (lt_size_of_bare? present) (Nat.not_lt.2 new)

/-- An operand of the one new node for a part is the one new node for the operand. -/
theorem drawings_operand (collection : Tree.Collection nodes)
    (evaluation : Evaluation nodes copying own b later) {inner : Tree.Node} (isNode : inner ∈ nodes)
    {position : Nat} {part : Tree.Expr} (isPart : inner.operands[position]? = some part)
    (one : own inner.id = 1) (onePart : own part.id = 1) :
    ∃ id operand, later.operand? position id = some operand ∧
      later.drawings copying inner.id = b.drawings copying inner.id ++ [id] ∧
      later.drawings copying part.id = b.drawings copying part.id ++ [operand] := by
  have count := evaluation.count inner.id
  have countPart := evaluation.count part.id
  rw [one] at count
  rw [onePart] at countPart
  obtain ⟨id, node, new, found, isDrawing, split⟩ := exists_new evaluation.grows count
  obtain ⟨isTree, -⟩ := Node.isDrawing_iff.1 isDrawing
  obtain ⟨-, other, isOther, same, -, uses⟩ := evaluation.operands id node inner.id new found isTree
  cases collection.eq_of_id other isOther inner isNode same
  -- the operand at this position is new and stands for the part, so it is the one new node
  obtain ⟨bound, isAt⟩ := List.getElem?_eq_some_iff.1 isPart
  have within : position < node.operands.length := uses.length_eq ▸ bound
  have stands : Stands b later copying node.operands[position] part := by
    rw [← isAt]
    exact uses.get within bound
  obtain ⟨newOperand, operandNode, present, isOperand⟩ := stands
  refine ⟨id, node.operands[position], ?_, split,
    nodesWhere_eq_append evaluation.grows countPart newOperand present isOperand⟩
  rw [operand?, found]
  exact List.getElem?_eq_getElem within

end Evaluation

/-- Operands do not change while the drawing grows. -/
theorem operand?_of_grows (grows : Grows b later) {copying : Bool} {tree id : Nat}
    (member : id ∈ b.drawings copying tree) (position : Nat) :
    later.operand? position id = b.operand? position id := by
  obtain ⟨node, found, -⟩ := mem_nodesWhere.1 member
  rw [operand?, operand?, found, grows.nodes id node found]

namespace Matched

/-- Only what the nodes evaluate counts. -/
theorem of_bare (matched : Matched nodes finals b) (size : later.nodes.size = b.nodes.size)
    (same : ∀ id, later.bare? id = b.bare? id) : Matched nodes finals later where
  trees id node tree found := matched.trees id node tree ((same id).symm.trans found)
  operands inner isNode copying position part isPart := by
    have lookups : later.operand? position = b.operand? position := by
      funext id
      rw [operand?, operand?, same]
    rw [lookups, drawings, drawings, nodesWhere_congr size same, nodesWhere_congr size same]
    exact matched.operands inner isNode copying position part isPart

theorem of_nodes (matched : Matched nodes finals b) (same : later.nodes = b.nodes) :
    Matched nodes finals later :=
  matched.of_bare (by rw [same]) (bare?_of_eq same)

theorem to_tips (matched : Matched nodes finals b) (tips : List Tip) :
    Matched nodes finals { b with tips } :=
  matched.of_nodes rfl

/-- What is drawn at one go keeps everything in step, if it has each part exactly as often
as the operands of the part. -/
theorem step (matched : Matched nodes finals b) (collection : Tree.Collection nodes)
    (evaluation : Evaluation nodes copying own b later) (balanced : Tree.Balanced nodes own)
    (final : copying = true → ∀ tree, 0 < own tree → finals tree) :
    Matched nodes finals later where
  trees id node tree found isTree := by
    by_cases old : id < b.nodes.size
    · exact matched.trees id node tree (evaluation.grows.bare?_of_lt old found) isTree
    · have new := Nat.le_of_not_lt old
      obtain ⟨isCopy, inner, isNode, same, evaluated, uses⟩ :=
        evaluation.operands id node tree new found isTree
      refine ⟨inner, isNode, same, evaluated, uses.length_eq, fun copied => ?_⟩
      exact final (isCopy.symm.trans copied) tree
        (evaluation.own_pos new found (Node.isDrawing_iff.2 ⟨isTree, isCopy⟩))
  operands inner isNode flag position part isPart := by
    have before := matched.operands inner isNode flag position part isPart
    have kept : (b.drawings flag inner.id).map (later.operand? position) =
        (b.drawings flag inner.id).map (b.operand? position) :=
      List.map_congr_left fun id member => operand?_of_grows evaluation.grows member position
    obtain ⟨few, equal⟩ := balanced inner isNode
    have same := equal part (List.mem_of_getElem? isPart)
    -- without new nodes of this sort both lists stay as they are
    have unchanged : (∀ tree, tree = inner.id ∨ tree = part.id →
        (later.drawings flag tree).length = (b.drawings flag tree).length) →
        (later.drawings flag inner.id).map (later.operand? position) =
          (later.drawings flag part.id).map some := by
      intro lengths
      rw [drawings, drawings, nodesWhere_eq_of_length evaluation.grows (lengths _ (Or.inl rfl)),
        nodesWhere_eq_of_length evaluation.grows (lengths _ (Or.inr rfl))]
      exact kept.trans before
    by_cases drawn : flag = copying
    · subst drawn
      rcases Nat.le_one_iff_eq_zero_or_eq_one.1 few with none | one
      · apply unchanged
        rintro tree (rfl | rfl)
        · rw [evaluation.count, none]
          rfl
        · rw [evaluation.count, same, none]
          rfl
      · obtain ⟨id, operand, isOperand, split, splitPart⟩ :=
          evaluation.drawings_operand collection isNode isPart one (same.trans one)
        rw [split, splitPart, List.map_append, List.map_append, kept, before, List.map_singleton,
          isOperand, List.map_singleton]
    · apply unchanged
      intro tree _
      rw [Bool.eq_not_of_ne drawn]
      exact evaluation.others tree

/-- A subtree that is no operand is drawn at one go. -/
theorem subtree (matched : Matched nodes finals b) (setting : Tree.Setting nodes finals)
    {node : Tree.Node} (listed : node.Listed nodes finals copying)
    (free : ∀ other ∈ nodes, ∀ part ∈ other.operands, .expr part ≠ node)
    (evaluation : Evaluation nodes copying (node.places false) b later) :
    Matched nodes finals later := by
  apply matched.step setting.toCollection evaluation (setting.balanced_marks listed.isNode free)
  intro isCopy tree drawn
  obtain ⟨inner, isOwn, rfl⟩ := Tree.Node.marks_pos_iff.1 drawn
  exact setting.final_own listed.isNode (listed.final isCopy) isOwn

/-- So is a single node without operands. -/
theorem single (matched : Matched nodes finals b) (setting : Tree.Setting nodes finals)
    {node : Tree.Node} (listed : node.Listed nodes finals copying)
    (free : ∀ other ∈ nodes, ∀ part ∈ other.operands, .expr part ≠ node)
    (none : node.operands = [])
    (evaluation : Evaluation nodes copying (fun tree => 0 + Tree.isPlace false node.id tree) b
      later) :
    Matched nodes finals later := by
  have alone := evaluation.congr fun tree => (Nat.zero_add (Tree.isPlace false node.id tree)).symm
  apply matched.step setting.toCollection alone
    (setting.balanced_single listed.isNode free none)
  intro isCopy tree drawn
  by_cases same : node.id = tree
  · exact same ▸ listed.final isCopy
  · rw [Tree.isPlace, beq_eq_false_iff_ne.2 same] at drawn
    cases drawn

/-- A node for no part of the tree does not count. -/
theorem implicit (matched : Matched nodes finals b) (collection : Tree.Collection nodes)
    (action : Action) (operands : List Nat) :
    Matched nodes finals (b.push (.implicit action operands)).2 := by
  have evaluation : Evaluation nodes false (fun _ => 0) b (b.push (.implicit action operands)).2 :=
    { grows := .push b _
      count := fun tree => length_nodesWhere_push b _ _
      others := fun tree => length_nodesWhere_push b _ _
      operands := by
        intro id node tree new found isTree
        rw [bare?_push] at found
        split at found
        · cases found
          cases isTree
        · exact absurd (lt_size_of_bare? found) (Nat.not_lt.2 new) }
  refine matched.step collection evaluation (fun node isNode => ⟨Nat.zero_le _, ?_⟩) ?_
  · intro part isPart
    rfl
  · intro isCopy
    cases isCopy

theorem raise (matched : Matched nodes finals b) (scope : Scope) (source : Nat) :
    Matched nodes finals (b.raise scope source) :=
  matched.of_bare (size_raise ..) (bare?_raise b scope source)

theorem jump (matched : Matched nodes finals b) (exit : Exit) (kind : EdgeKind) :
    Matched nodes finals (b.jump exit kind) :=
  matched.of_nodes rfl

/-- A declaration, a `return` or a `throw` is drawn behind the expression whose value it
uses. -/
theorem afterValue (matched : Matched nodes finals b) (setting : Tree.Setting nodes finals)
    {node : Tree.Node} (listed : node.Listed nodes finals copying)
    (notExpr : node.isExpression = false) (evaluated : node.isEvaluated = true)
    (scope : Scope) (value : Option Tree.Expr) (children : node.children = value.toList.map .expr)
    (operands : node.operands = value.toList) (action : Action) :
    Matched nodes finals ((b.expr? scope copying value).2.push
      (.at node.id copying action (b.expr? scope copying value).1)).2 := by
  obtain ⟨drawn, uses⟩ := Evaluated.expr? scope copying b value fun inner member =>
    (setting.within listed).operand (operands ▸ member)
  have pushed := drawn.push listed.isNode evaluated action (operands ▸ uses)
  have outside : node.isLambda = false := by
    cases node with
    | expr => cases notExpr
    | _ => rfl
  refine matched.subtree setting listed ?_ (pushed.congr fun tree => ?_)
  · rintro other isOther part isPart rfl
    cases notExpr
  · rw [Tree.Node.places_eq, outside, if_neg Bool.false_ne_true, children, Tree.total_map,
      Nat.add_comm]

section Statement

variable {statement : Tree.Stmt}

/-- An expression of a statement that does not use its value. -/
theorem expr (matched : Matched nodes finals b) (setting : Tree.Setting nodes finals)
    (listed : (Tree.Node.stmt statement).Listed nodes finals copying)
    (none : (Tree.Node.stmt statement).operands = []) (scope : Scope) {value : Tree.Expr}
    (isChild : .expr value ∈ statement.children) :
    Matched nodes finals (b.expr scope copying value).2 := by
  have part := setting.listed listed rfl isChild
  exact matched.subtree setting part (setting.not_operand listed.isNode isChild none)
    (Evaluated.expr scope copying b value (setting.within part)).toEvaluation

theorem exprs (matched : Matched nodes finals b) (setting : Tree.Setting nodes finals)
    (listed : (Tree.Node.stmt statement).Listed nodes finals copying)
    (none : (Tree.Node.stmt statement).operands = []) (scope : Scope) {values : List Tree.Expr}
    (children : ∀ value ∈ values, .expr value ∈ statement.children) :
    Matched nodes finals (b.exprs scope copying values).2 := by
  induction values generalizing b with
  | nil => exact matched
  | cons value values ih =>
      exact ih (matched.expr setting listed none scope (children value List.mem_cons_self))
        fun other member => children other (List.mem_cons_of_mem _ member)

/-- The head of a loop. -/
theorem head (matched : Matched nodes finals b) (setting : Tree.Setting nodes finals)
    (listed : (Tree.Node.stmt statement).Listed nodes finals copying)
    (evaluated : (Tree.Node.stmt statement).isEvaluated = true)
    (none : (Tree.Node.stmt statement).operands = []) :
    Matched nodes finals (b.push (.at statement.id copying .loopHead [])).2 :=
  matched.single setting listed (fun _ _ _ _ => Tree.Node.noConfusion) none
    ((Evaluation.refl b).push listed.isNode evaluated .loopHead (none ▸ .nil))

end Statement

/-- The entries of catch clauses. -/
theorem enterCatches (matched : Matched nodes finals b) (setting : Tree.Setting nodes finals)
    {catches : List Tree.Catch}
    (listed : ∀ clause ∈ catches, (Tree.Node.catchClause clause).Listed nodes finals copying) :
    Matched nodes finals (b.enterCatches copying catches).2 := by
  induction catches generalizing b with
  | nil => exact matched
  | cons clause catches ih =>
      have isClause := listed clause List.mem_cons_self
      have added := (Evaluation.refl (b.mention clause.ty)).grown isClause.isNode rfl .nil
        (.addNode _ (.at clause.id copying (.catchParam clause.name clause.ty) []))
        (length_nodesWhere_addNode _ _) (bare?_addNode _ _)
      exact ih (matched.single setting isClause (fun _ _ _ _ => Tree.Node.noConfusion) rfl
        added.of_mention) fun other member => listed other (List.mem_cons_of_mem _ member)

end Matched

/-! ### All statements -/

/-- What the `finally` blocks of some frames hold may be copied. -/
def Copyable (nodes : List Tree.Node) (finals : Nat → Prop) (scope : Scope) : Prop :=
  ∀ frame ∈ scope, ∀ block, frame.cleanup? = some block →
    ∀ statement ∈ block.stmts, (Tree.Node.stmt statement).Listed nodes finals true

theorem Copyable.enter {scope : Scope} (copyable : Copyable nodes finals scope) {frame : Frame}
    (cleanup : ∀ block, frame.cleanup? = some block →
      ∀ statement ∈ block.stmts, (Tree.Node.stmt statement).Listed nodes finals true) :
    Copyable nodes finals (frame :: scope) := by
  intro other member
  rcases List.mem_cons.1 member with rfl | outer
  · exact cleanup
  · exact copyable other outer

theorem Copyable.loop {scope : Scope} (copyable : Copyable nodes finals scope) :
    Copyable nodes finals (.loop :: scope) := by
  refine copyable.enter fun block absent => ?_
  cases absent

theorem Copyable.outer {scope : Scope} {frame : Frame}
    (copyable : Copyable nodes finals (frame :: scope)) : Copyable nodes finals scope :=
  fun other member => copyable other (List.mem_cons_of_mem _ member)

namespace Matched

theorem looping {scope : Scope} {tips exits : List Tip} {target : Nat} {update : List Tree.Expr}
    {body : Tree.Block} {statement : Tree.Stmt}
    (drawn : ∀ b, Matched nodes finals b →
      Matched nodes finals (stmts (.loop :: scope) copying b body.stmts))
    (matched : Matched nodes finals b) (setting : Tree.Setting nodes finals)
    (listed : (Tree.Node.stmt statement).Listed nodes finals copying)
    (none : (Tree.Node.stmt statement).operands = [])
    (updates : ∀ value ∈ update, .expr value ∈ statement.children) :
    Matched nodes finals (b.looping scope copying tips exits target update body) := by
  rw [Builder.looping, closeLoop_eq]
  have entered : Matched nodes finals { b with tips, parked := [] } := matched.of_nodes rfl
  have left : Matched nodes finals ((stmts (.loop :: scope) copying { b with tips, parked := [] }
      body.stmts).atUpdates scope b.parked) := (drawn _ entered).of_nodes rfl
  have updated := left.exprs setting listed none scope updates
  exact (updated.of_bare (size_connect ..) (bare?_connect _ _ _)).of_nodes rfl

theorem cleaningUp {scope : Scope} {raised : List Tip} {block : Tree.Block}
    (drawn : ∀ b, Matched nodes finals b → Matched nodes finals (stmts scope true b block.stmts))
    (matched : Matched nodes finals b) (collection : Tree.Collection nodes) :
    Matched nodes finals (b.cleaningUp scope raised block) := by
  unfold Builder.cleaningUp
  split
  · exact matched
  · have copied := drawn _ (matched.to_tips raised)
    exact (copied.implicit collection .rethrow []).raise scope _

/-- Each statement keeps nodes and operands matched, if its parts do. -/
theorem drawingCases (setting : Tree.Setting nodes finals) : DrawingCases
    (fun scope list => ∀ copying b, Copyable nodes finals scope →
      (∀ statement ∈ list, (Tree.Node.stmt statement).Listed nodes finals copying) →
        Matched nodes finals b → Matched nodes finals (stmts scope copying b list))
    (fun scope statement => ∀ copying b, Copyable nodes finals scope →
      (Tree.Node.stmt statement).Listed nodes finals copying →
        Matched nodes finals b → Matched nodes finals (stmt scope copying b statement))
    (fun scope list => ∀ copying b entries, Copyable nodes finals scope →
      (∀ clause ∈ list, (Tree.Node.catchClause clause).Listed nodes finals copying) →
        Matched nodes finals b → Matched nodes finals (clauses scope copying b entries list))
    (fun scope => ∀ keep b, Copyable nodes finals scope → Matched nodes finals b →
      Matched nodes finals (unwind scope keep b)) where
  nil scope copying b _ _ matched := by
    rw [stmts_nil]
    exact matched
  cons scope first rest head tail copying b copyable listed matched := by
    rw [stmts_cons]
    exact tail copying _ copyable (fun other member => listed other (List.mem_cons_of_mem _ member))
      (head copying b copyable (listed first List.mem_cons_self) matched)
  block scope inner drawn copying b copyable listed matched := by
    rw [stmt_block]
    exact drawn copying b copyable (fun _ member => setting.stmts listed member) matched
  localDecl scope id name ty init copying b _ listed matched := by
    rw [stmt_localDecl]
    have mentioned : Matched nodes finals (b.mention ty) := matched.of_nodes rfl
    exact mentioned.afterValue setting listed rfl rfl scope init rfl rfl (.decl name)
  exprStmt scope id value copying b _ listed matched := by
    rw [stmt_exprStmt]
    exact matched.expr setting listed rfl scope List.mem_cons_self
  ifElse scope id cond whenTrue whenFalse first second copying b copyable listed matched := by
    have tested := matched.expr setting listed rfl scope List.mem_cons_self
    have isFirst : whenTrue.toNode.Listed nodes finals copying :=
      setting.listed listed rfl (List.mem_cons_of_mem _ List.mem_cons_self)
    have one := first copying _ copyable (fun _ member => setting.stmts isFirst member)
      (tested.to_tips ((b.expr scope copying cond).2.tipsAs .onTrue))
    cases whenFalse with
    | none =>
        rw [stmt_ifElse_none]
        exact one.to_tips _
    | some block =>
        rw [stmt_ifElse_some]
        have isSecond : block.toNode.Listed nodes finals copying :=
          setting.listed listed rfl
            (List.mem_cons_of_mem _ (List.mem_cons_of_mem _ List.mem_cons_self))
        exact (second block rfl copying _ copyable (fun _ member => setting.stmts isSecond member)
          (one.to_tips _)).to_tips _
  whileLoop scope id cond body drawn copying b copyable listed matched := by
    rw [stmt_whileLoop]
    have isBody : body.toNode.Listed nodes finals copying :=
      setting.listed listed rfl (List.mem_cons_of_mem _ List.mem_cons_self)
    have headed := matched.head setting listed rfl rfl
    have tested := headed.expr setting listed rfl scope List.mem_cons_self
    refine tested.looping (fun inner => drawn copying inner copyable.loop
      fun _ member => setting.stmts isBody member) setting listed rfl ?_
    intro value never
    cases never
  forLoop scope id init cond update body started drawn copying b copyable listed matched := by
    rw [stmt_forLoop]
    have isInit : ∀ statement ∈ init, (Tree.Node.stmt statement).Listed nodes finals copying :=
      fun statement member => setting.listed listed rfl (List.mem_append_left _
        (List.mem_append_left _ (List.mem_append_left _ (List.mem_map_of_mem member))))
    have isBody : body.toNode.Listed nodes finals copying :=
      setting.listed listed rfl (List.mem_append_right _ List.mem_cons_self)
    have headed := (started copying b copyable isInit matched).head setting listed rfl rfl
    have tested : Matched nodes finals (expr? scope copying
        ((stmts scope copying b init).push (.at id copying .loopHead [])).2 cond).2 := by
      cases cond with
      | none => exact headed
      | some value =>
          exact headed.expr setting listed rfl scope (List.mem_append_left _
            (List.mem_append_left _ (List.mem_append_right _ List.mem_cons_self)))
    exact tested.looping (fun inner => drawn copying inner copyable.loop
      fun _ member => setting.stmts isBody member) setting listed rfl
      fun value member => List.mem_append_left _ (List.mem_append_right _
        (List.mem_map_of_mem member))
  returnValue scope id value left copying b copyable listed matched := by
    rw [stmt_returnValue]
    have returned := matched.afterValue setting listed rfl rfl scope value rfl rfl .returnValue
    exact (left 0 _ copyable returned).jump _ _
  breakLoop scope id left copying b copyable _ matched := by
    cases found : scope.innermostLoop? with
    | none =>
        rw [stmt_breakLoop_outside scope copying b id found]
        exact matched.of_nodes rfl
    | some frame =>
        rw [stmt_breakLoop scope copying b id found]
        exact (left (frame + 1) b copyable matched).jump _ _
  continueLoop scope id left copying b copyable _ matched := by
    cases found : scope.innermostLoop? with
    | none =>
        rw [stmt_continueLoop_outside scope copying b id found]
        exact matched.of_nodes rfl
    | some frame =>
        rw [stmt_continueLoop scope copying b id found]
        exact (left (frame + 1) b copyable matched).jump _ _
  throwValue scope id value copying b _ listed matched := by
    rw [stmt_throwValue]
    have thrown := matched.afterValue setting listed rfl rfl scope (some value) rfl rfl .throwValue
    exact (thrown.to_tips []).raise scope _
  tryCatch scope id body catches cleanup drawn caught finished copying b copyable listed
      matched := by
    have isBody : body.toNode.Listed nodes finals copying :=
      setting.listed listed rfl List.mem_cons_self
    have isClause : ∀ clause ∈ catches,
        (Tree.Node.catchClause clause).Listed nodes finals copying := fun clause member =>
      setting.listed listed rfl
        (List.mem_cons_of_mem _ (List.mem_append_left _ (List.mem_map_of_mem member)))
    have isFinal : ∀ block, cleanup = some block →
        ∀ statement ∈ block.stmts, (Tree.Node.stmt statement).Listed nodes finals true := by
      rintro block rfl statement member
      refine setting.stmts ⟨setting.closed _ listed.isNode rfl _ (List.mem_cons_of_mem _
        (List.mem_append_right _ List.mem_cons_self)), fun _ => ?_⟩ member
      exact setting.cleanup id body catches block listed.isNode
    have entered := matched.enterCatches setting isClause
    have inside := drawn (b.enterCatches copying catches).1 copying
      { (b.enterCatches copying catches).2 with parked := [] } (copyable.enter isFinal)
      (fun _ member => setting.stmts isBody member) (entered.of_nodes rfl)
    have guarded := caught copying _ ((b.enterCatches copying catches).1.map Handler.entry)
      (copyable.enter isFinal) isClause inside
    cases cleanup with
    | none =>
        rw [stmt_tryCatch_none]
        exact guarded.of_nodes rfl
    | some block =>
        rw [stmt_tryCatch_some]
        have final := isFinal block rfl
        have left : Matched nodes finals
            (((b.enterCatches copying catches).2.guarded scope copying
              (b.enterCatches copying catches).1 body catches (some block)).leaveFrame
              (b.enterCatches copying catches).2.parked [.cleanup scope.length]) :=
          guarded.of_nodes rfl
        exact finished block rfl copying _ copyable
          (fun statement member => (final statement member).inPlace copying)
          ((left.cleaningUp (fun inner => finished block rfl true inner copyable final)
            setting.toCollection).to_tips _)
  noClause scope copying b entries _ _ matched := by
    rw [clauses_nil]
    exact matched
  clause scope clause rest drawn others copying b entries copyable listed matched := by
    cases entries with
    | nil =>
        rw [clauses_noEntry]
        exact matched
    | cons entry entries =>
        rw [clauses_cons]
        have isBody : clause.body.toNode.Listed nodes finals copying :=
          setting.listed (listed clause List.mem_cons_self) rfl List.mem_cons_self
        have one := drawn copying _ copyable (fun _ member => setting.stmts isBody member)
          (matched.to_tips [{ source := entry, kind := .normal }])
        exact others copying _ entries copyable
          (fun other member => listed other (List.mem_cons_of_mem _ member)) (one.to_tips _)
  unwound keep b _ matched := by
    rw [unwind_nil]
    exact matched
  unwind frame outer drawn left keep b copyable matched := by
    by_cases kept : outer.length < keep
    · rw [unwind_kept b frame outer kept]
      exact matched
    · cases present : frame.cleanup? with
      | none =>
          rw [unwind_left b frame outer (Nat.le_of_not_lt kept) present]
          exact left keep b copyable.outer matched
      | some block =>
          rw [unwind_cleanup b frame outer (Nat.le_of_not_lt kept) present]
          exact left keep _ copyable.outer (drawn block present true b copyable.outer
            (copyable frame List.mem_cons_self block present) matched)

/-- Statements that are drawn in their places keep everything in step. -/
theorem stmts (matched : Matched nodes finals b) (setting : Tree.Setting nodes finals)
    {list : List Tree.Stmt}
    (listed : ∀ statement ∈ list, (Tree.Node.stmt statement).Listed nodes finals false) :
    Matched nodes finals (b.stmts [] false list) := by
  refine (drawingCases setting).stmts [] list false b (fun frame never => ?_) listed matched
  cases never

end Matched

end Graph.Builder

end FragmentFlow
