import FragmentFlow.Proofs.Copies.Units
import FragmentFlow.Proofs.Drawing.TypeNames

/-!
# All that is evaluated is drawn

Drawing code adds a node for each of its evaluated parts, whether it is drawn in its place
or as a copy, and later steps keep it.
-/

namespace FragmentFlow.Graph.Builder

variable {b later : Builder} {copying : Bool}

/-- Some node stands for a part of the tree. -/
def Shows (b : Builder) (copying : Bool) (tree : Nat) : Prop :=
  ∃ id, id ∈ b.drawings copying tree

/-- What is shown stays shown. -/
theorem Shows.grow {tree : Nat} (shows : b.Shows copying tree) (grows : Grows b later) :
    later.Shows copying tree := by
  obtain ⟨id, member⟩ := shows
  obtain ⟨node, found, isDrawing⟩ := mem_nodesWhere.1 member
  exact ⟨id, mem_nodesWhere.2 ⟨node, grows.nodes id node found, isDrawing⟩⟩

theorem Shows.push (b : Builder) (copying : Bool) (tree : Nat) (action : Action)
    (operands : List Nat) : (b.push (.at tree copying action operands)).2.Shows copying tree :=
  ⟨_, mem_nodesWhere.2 ⟨_, bare?_push_self b _, Node.isDrawing_iff.2 ⟨rfl, rfl⟩⟩⟩

/-- Some node stands for each evaluated part of a subtree, outside nested lambdas. -/
def ShowsAll (b : Builder) (copying : Bool) (node : Tree.Node) : Prop :=
  ∀ inner ∈ node.ownNodes, inner.isEvaluated = true → b.Shows copying inner.id

namespace ShowsAll

/-- All that is shown stays shown. -/
theorem grow {node : Tree.Node} (shows : b.ShowsAll copying node) (grows : Grows b later) :
    later.ShowsAll copying node := fun inner isOwn evaluated =>
  (shows inner isOwn evaluated).grow grows

theorem to_tips {node : Tree.Node} (shows : b.ShowsAll copying node) (tips : List Tip) :
    { b with tips }.ShowsAll copying node :=
  shows.grow (.of_eq rfl rfl)

theorem leaveFrame {node : Tree.Node} (shows : b.ShowsAll copying node)
    (before : List (Exit × Tip)) (ending : List Exit) :
    (b.leaveFrame before ending).ShowsAll copying node :=
  shows.grow (.of_eq rfl rfl)

/-- A node is shown with all below it if it is shown and its children are. -/
theorem of_children {node : Tree.Node} (self : node.isEvaluated = true → b.Shows copying node.id)
    (children : ∀ child ∈ node.children, b.ShowsAll copying child) : b.ShowsAll copying node := by
  intro inner isOwn
  rcases Tree.Node.mem_ownNodes.1 isOwn with rfl | ⟨-, child, isChild, below⟩
  · exact self
  · exact children child isChild inner below

theorem block {block : Tree.Block}
    (stmts : ∀ statement ∈ block.stmts, b.ShowsAll copying (.stmt statement)) :
    b.ShowsAll copying block.toNode := by
  apply of_children
  · intro never
    cases never
  · intro child isChild
    obtain ⟨statement, member, rfl⟩ := List.mem_map.1 isChild
    exact stmts statement member

/-- An expression is shown with all its operands. -/
theorem expr (scope : Scope) (copying : Bool) (b : Builder) (value : Tree.Expr) :
    (b.expr scope copying value).2.ShowsAll copying (.expr value) := by
  intro inner isOwn _
  have drawn := Evaluated.expr scope copying b value (fun _ isNode => isNode)
  have count := drawn.count inner.id
  have marked : 0 < (Tree.Node.expr value).places false inner.id :=
    Tree.Node.marks_pos_iff.2 ⟨inner, isOwn, rfl⟩
  exact List.exists_mem_of_length_pos (by omega)

theorem exprs (scope : Scope) (copying : Bool) (b : Builder) (values : List Tree.Expr) :
    ∀ child ∈ values.map Tree.Node.expr,
      (b.exprs scope copying values).2.ShowsAll copying child := by
  induction values generalizing b with
  | nil =>
      intro child never
      cases never
  | cons value values ih =>
      intro child isChild
      rcases List.mem_cons.1 isChild with rfl | later
      · exact (expr scope copying b value).grow (Extends.exprs scope copying _ values).grows
      · exact ih _ child later

theorem expr? (scope : Scope) (copying : Bool) (b : Builder) (value : Option Tree.Expr) :
    ∀ child ∈ value.toList.map Tree.Node.expr,
      (b.expr? scope copying value).2.ShowsAll copying child := by
  cases value with
  | none =>
      intro child never
      cases never
  | some value =>
      intro child isChild
      cases List.mem_singleton.1 isChild
      exact expr scope copying b value

/-- A statement is drawn behind the expression whose value it uses. -/
theorem afterValue (statement : Tree.Stmt) (scope : Scope) (copying : Bool) (b : Builder)
    (value : Option Tree.Expr) (children : statement.children = value.toList.map .expr)
    (action : Action) :
    ((b.expr? scope copying value).2.push
      (.at statement.id copying action (b.expr? scope copying value).1)).2.ShowsAll copying
        (.stmt statement) := by
  apply of_children
  · intro _
    exact .push _ copying statement.id action _
  · intro child isChild
    refine (expr? scope copying b value child ?_).grow (.push _ _)
    rw [← children]
    exact isChild

theorem enterCatches (copying : Bool) (b : Builder) (catches : List Tree.Catch) :
    ∀ clause ∈ catches, (b.enterCatches copying catches).2.Shows copying clause.id := by
  induction catches generalizing b with
  | nil =>
      intro clause never
      cases never
  | cons first catches ih =>
      intro clause member
      rcases List.mem_cons.1 member with rfl | later
      · have added : ((b.mention clause.ty).addNode
            (.at clause.id copying (.catchParam clause.name clause.ty) [])).2.Shows copying
              clause.id := by
          refine ⟨_, mem_nodesWhere.2 ⟨_, (bare?_addNode _ _ _).trans (if_pos rfl), ?_⟩⟩
          exact Node.isDrawing_iff.2 ⟨rfl, rfl⟩
        exact added.grow (Extends.enterCatches copying _ catches).grows
      · exact ih _ clause later

/-- A loop shows its updates and its body. -/
theorem looping {scope : Scope} {tips exits : List Tip} {target : Nat} {update : List Tree.Expr}
    {body : Tree.Block}
    (drawn : ∀ b, ∀ statement ∈ body.stmts,
      (stmts (.loop :: scope) copying b body.stmts).ShowsAll copying (.stmt statement)) :
    ∀ child ∈ update.map Tree.Node.expr ++ [body.toNode],
      (b.looping scope copying tips exits target update body).ShowsAll copying child := by
  have inside := block (drawn { b with tips, parked := [] })
  rw [Builder.looping, closeLoop_eq]
  generalize stmts (.loop :: scope) copying { b with tips, parked := [] } body.stmts = inner
    at inside
  have left : Grows inner (inner.atUpdates scope b.parked) := .of_eq rfl rfl
  intro child isChild
  rcases List.mem_append.1 isChild with isUpdate | isBody
  · exact ((exprs scope copying _ update child isUpdate).grow (.connect _ _ target)).to_tips _
  · cases List.mem_singleton.1 isBody
    have updated := left.trans (Extends.exprs scope copying _ update).grows
    exact ((inside.grow updated).grow (.connect _ _ target)).to_tips _

/-- A `try` shows its body and its catch clauses, whose entries are there. -/
theorem guarded {scope : Scope} {handlers : List Handler} {body : Tree.Block}
    {catches : List Tree.Catch} {cleanup : Option Tree.Block}
    (drawn : ∀ b, ∀ statement ∈ body.stmts,
      (stmts (.region handlers cleanup :: scope) copying b body.stmts).ShowsAll copying
        (.stmt statement))
    (caught : ∀ b entries, catches.length ≤ entries.length → ∀ clause ∈ catches,
      (clauses (.region [] cleanup :: scope) copying b entries catches).ShowsAll copying
        clause.body.toNode)
    (enough : catches.length ≤ handlers.length)
    (entered : ∀ clause ∈ catches, b.Shows copying clause.id) :
    ∀ child ∈ body.toNode :: catches.map Tree.Node.catchClause,
      (b.guarded scope copying handlers body catches cleanup).ShowsAll copying child := by
  have opened : Grows b { b with parked := [] } := .of_eq rfl rfl
  have inside := Extends.stmts (.region handlers cleanup :: scope) copying { b with parked := [] }
    body.stmts
  have behind := Extends.clauses (.region [] cleanup :: scope) copying
    (stmts (.region handlers cleanup :: scope) copying { b with parked := [] } body.stmts)
    (handlers.map Handler.entry) catches
  intro child isChild
  rcases List.mem_cons.1 isChild with rfl | isClause
  · exact (block (drawn _)).grow behind.grows
  · obtain ⟨clause, member, rfl⟩ := List.mem_map.1 isClause
    apply of_children
    · intro _
      exact (entered clause member).grow ((opened.trans inside.grows).trans behind.grows)
    · intro part isPart
      cases List.mem_singleton.1 isPart
      exact caught _ _ (by rw [List.length_map]; exact enough) clause member

/-- Each statement is shown with all below it, if its parts are. -/
theorem drawingCases : DrawingCases
    (fun scope list => ∀ copying b, ∀ statement ∈ list,
      (stmts scope copying b list).ShowsAll copying (.stmt statement))
    (fun scope statement => ∀ copying b,
      (stmt scope copying b statement).ShowsAll copying (.stmt statement))
    (fun scope list => ∀ copying b entries, list.length ≤ entries.length → ∀ clause ∈ list,
      (clauses scope copying b entries list).ShowsAll copying clause.body.toNode)
    (fun _ => True) where
  nil scope copying b statement never := by
    cases never
  cons scope first rest head tail copying b statement member := by
    rw [stmts_cons]
    rcases List.mem_cons.1 member with rfl | later
    · exact (head copying b).grow (Extends.stmts scope copying _ rest).grows
    · exact tail copying _ statement later
  block scope inner drawn copying b := by
    rw [stmt_block]
    exact block (drawn copying b)
  localDecl scope id name ty init copying b := by
    rw [stmt_localDecl]
    exact afterValue (.localDecl id name ty init) scope copying (b.mention ty) init rfl (.decl name)
  exprStmt scope id value copying b := by
    rw [stmt_exprStmt]
    apply of_children
    · intro never
      cases never
    · intro child isChild
      cases List.mem_singleton.1 isChild
      exact expr scope copying b value
  ifElse scope id cond whenTrue whenFalse first second copying b := by
    have tested := expr scope copying b cond
    cases whenFalse with
    | none =>
        rw [stmt_ifElse_none]
        apply of_children
        · intro never
          cases never
        · intro child isChild
          rcases List.mem_cons.1 isChild with rfl | isFirst
          · exact (tested.grow
              (Extends.of_tips (Extends.stmts scope copying _ whenTrue.stmts)).grows).to_tips _
          · cases List.mem_singleton.1 isFirst
            exact (block (first copying _)).to_tips _
    | some other =>
        rw [stmt_ifElse_some]
        apply of_children
        · intro never
          cases never
        · intro child isChild
          have behind := Extends.stmts scope copying
          rcases List.mem_cons.1 isChild with rfl | isBlock
          · exact ((tested.grow (Extends.of_tips (behind _ whenTrue.stmts)).grows).grow
              (Extends.of_tips (behind _ other.stmts)).grows).to_tips _
          · rcases List.mem_cons.1 isBlock with rfl | isSecond
            · exact ((block (first copying _)).grow
                (Extends.of_tips (behind _ other.stmts)).grows).to_tips _
            · cases List.mem_singleton.1 isSecond
              exact (block (second other rfl copying _)).to_tips _
  whileLoop scope id cond body drawn copying b := by
    rw [stmt_whileLoop]
    have looped := fun b => Extends.stmts (.loop :: scope) copying b body.stmts
    apply of_children
    · intro _
      exact ((Shows.push b copying id .loopHead []).grow
        (Extends.expr scope copying _ cond).grows).grow (Extends.looping looped).grows
    · intro child isChild
      rcases List.mem_cons.1 isChild with rfl | isBody
      · exact (expr scope copying _ cond).grow (Extends.looping looped).grows
      · exact looping (drawn copying) child isBody
  forLoop scope id init cond update body started drawn copying b := by
    rw [stmt_forLoop]
    have looped := fun b => Extends.stmts (.loop :: scope) copying b body.stmts
    apply of_children
    · intro _
      exact ((Shows.push _ copying id .loopHead []).grow
        (Extends.expr? scope copying _ cond).grows).grow (Extends.looping looped).grows
    · intro child isChild
      rw [Tree.Node.children, Tree.Stmt.children, List.append_assoc] at isChild
      rcases List.mem_append.1 isChild with isStart | isRest
      · rcases List.mem_append.1 isStart with isInit | isCond
        · obtain ⟨statement, member, rfl⟩ := List.mem_map.1 isInit
          exact (((started copying b statement member).grow (.push _ _)).grow
            (Extends.expr? scope copying _ cond).grows).grow (Extends.looping looped).grows
        · exact (expr? scope copying _ cond child isCond).grow (Extends.looping looped).grows
      · exact looping (drawn copying) child isRest
  returnValue scope id value _ copying b := by
    rw [stmt_returnValue]
    have returned := afterValue (.returnValue id value) scope copying b value rfl .returnValue
    exact (returned.grow (Extends.unwind scope 0 _).grows).grow (Extends.jump _ _ _).grows
  breakLoop scope id _ copying b := by
    apply of_children
    · intro never
      cases never
    · intro child never
      cases never
  continueLoop scope id _ copying b := by
    apply of_children
    · intro never
      cases never
    · intro child never
      cases never
  throwValue scope id value copying b := by
    rw [stmt_throwValue]
    have thrown := afterValue (.throwValue id value) scope copying b (some value) rfl .throwValue
    exact thrown.grow (Extends.of_tips (Extends.raise _ scope _)).grows
  tryCatch scope id body catches cleanup drawn caught finished copying b := by
    have guarding := guarded (drawn (b.enterCatches copying catches).1 copying) (caught copying)
      (Nat.le_of_eq (length_enterCatches copying b catches).symm)
      (enterCatches copying b catches)
    cases cleanup with
    | none =>
        rw [stmt_tryCatch_none]
        apply of_children
        · intro never
          cases never
        · intro child isChild
          rw [Tree.Node.children, Tree.Stmt.children, Option.toList_none, List.map_nil,
            List.append_nil] at isChild
          exact (guarding child isChild).leaveFrame _ _
    | some final =>
        rw [stmt_tryCatch_some]
        have copied := fun b => Extends.stmts scope true b final.stmts
        apply of_children
        · intro never
          cases never
        · intro child isChild
          rw [Tree.Node.children, Tree.Stmt.children, ← List.cons_append] at isChild
          rcases List.mem_append.1 isChild with inside | isFinal
          · exact (((guarding child inside).leaveFrame _ _).grow
              (Extends.cleaningUp copied).grows).grow
                (Extends.of_tips (Extends.stmts scope copying _ final.stmts)).grows
          · cases List.mem_singleton.1 isFinal
            exact block (finished final rfl copying _)
  noClause scope copying b entries _ clause never := by
    cases never
  clause scope first rest drawn others copying b entries enough clause member := by
    cases entries with
    | nil => cases enough
    | cons entry entries =>
        rw [clauses_cons]
        rcases List.mem_cons.1 member with rfl | later
        · exact (block (drawn copying _)).grow
            (Extends.of_tips (Extends.clauses scope copying _ entries rest)).grows
        · exact others copying _ entries (Nat.le_of_succ_le_succ enough) clause later
  unwound := trivial
  unwind frame outer _ _ := trivial

end ShowsAll

end FragmentFlow.Graph.Builder
