import FragmentFlow.Proofs.Drawing.Fragments
import FragmentFlow.Proofs.Tree.Ownership

/-!
# What the nodes of a graph carry out

Every node of a graph carries out a node of the tree, whether it stands in its place or is a
copy, or it is one of the few that stand for nothing in the tree: the entry and the exits,
the parameters, the result of a lambda, and what raises an exception again.
-/

namespace FragmentFlow

/-- The action that evaluates a node of the tree. -/
def Tree.Node.action? : Tree.Node → Option Graph.Action
  | .expr (.literal _ value) => some (.literal value)
  | .expr (.ident _ name) => some (.ident name)
  | .expr (.assign _ target _) => some (.assign target)
  | .expr (.binary _ op _ _) => some (.binary op)
  | .expr (.unary _ op _) => some (.unary op)
  | .expr (.conditional ..) => some .conditional
  | .expr (.call _ callee _) => some (.call callee)
  | .expr (.new _ ty _) => some (.new ty)
  | .expr (.lambda ..) => some .lambda
  | .stmt (.localDecl _ name _ _) => some (.decl name)
  | .stmt (.whileLoop ..) | .stmt (.forLoop ..) => some .loopHead
  | .stmt (.returnValue ..) => some .returnValue
  | .stmt (.throwValue ..) => some .throwValue
  | .catchClause clause => some (.catchParam clause.name clause.ty)
  | .field decl => some (.decl decl.name)
  | _ => none

/-- Some nodes of a tree with the children of all code among them outside lambdas. -/
def Tree.Closed (nodes : List Tree.Node) : Prop :=
  ∀ node ∈ nodes, node.isCode = true → node.isLambda = false → ∀ child ∈ node.children,
    child ∈ nodes

/-- With a block, its statements are among closed nodes. -/
theorem Tree.Closed.stmts {nodes : List Tree.Node} (closed : Tree.Closed nodes)
    {block : Tree.Block} (isNode : block.toNode ∈ nodes) :
    ∀ statement ∈ block.stmts, .stmt statement ∈ nodes := fun _ member =>
  closed _ isNode rfl rfl _ (List.mem_map_of_mem member)

namespace Fragment

open FragmentFlow.Tree (Node)

variable {fragment : Fragment}

/-- The parts of the tree that a fragment evaluates: those that belong to it, and the field
whose initial value it computes. -/
def parts (fragment : Fragment) : List Node :=
  match fragment.code with
  | .fieldInitializer decl _ => .field decl :: fragment.nodes
  | _ => fragment.nodes

theorem mem_parts {node : Node} : node ∈ fragment.parts ↔ node ∈ fragment.nodes ∨
    ∃ decl init, fragment.code = .fieldInitializer decl init ∧ node = .field decl := by
  unfold parts
  split
  · rename_i decl init isCode
    rw [List.mem_cons, or_comm]
    refine or_congr_right ⟨fun same => ⟨decl, init, isCode, same⟩, ?_⟩
    rintro ⟨other, value, sameCode, rfl⟩
    cases isCode.symm.trans sameCode
    rfl
  · rename_i notField
    refine (or_iff_left ?_).symm
    rintro ⟨decl, init, isCode, -⟩
    exact notField decl init isCode

/-- The parts of a fragment are closed. -/
theorem closed_parts (fragment : Fragment) : Tree.Closed fragment.parts := by
  intro node isPart isCode outside child isChild
  refine mem_parts.2 (Or.inl ?_)
  rcases mem_parts.1 isPart with isNode | ⟨decl, init, -, rfl⟩
  · exact mem_nodes_of_child isNode outside isChild
  · cases isCode

end Fragment

/-- The names of the parameters. -/
def Fragment.Code.parameters : Fragment.Code → List String
  | .method decl => decl.params.map Source.Param.name
  | .lambda _ names _ => names
  | _ => []

namespace Graph

/-- Whether an action stands for nothing in the tree of a fragment with such parameters. -/
def Action.isImplicit (names : List String) : Action → Bool
  | entry | exit | exceptionalExit | returnValue | rethrow => true
  | param name => names.contains name
  | _ => false

/-- A node carries out one of some nodes of the tree, or stands for none. -/
def Node.Enacts (names : List String) (nodes : List Tree.Node) (node : Node) : Prop :=
  node.tree = none ∧ node.action.isImplicit names = true ∨
    ∃ inner ∈ nodes, node.tree = some inner.id ∧ inner.action? = some node.action

/-- The `finally` blocks of the frames are among some nodes. -/
def Scope.Inside (nodes : List Tree.Node) (scope : Scope) : Prop :=
  ∀ frame ∈ scope, ∀ block, frame.cleanup? = some block → block.toNode ∈ nodes

namespace Scope.Inside

variable {nodes : List Tree.Node} {frame : Frame} {scope : Scope}

theorem enter (inside : Scope.Inside nodes scope)
    (cleanup : ∀ block, frame.cleanup? = some block → block.toNode ∈ nodes) :
    Scope.Inside nodes (frame :: scope) := by
  intro other member
  rcases List.mem_cons.1 member with rfl | further
  · exact cleanup
  · exact inside other further

theorem loop (inside : Scope.Inside nodes scope) : Scope.Inside nodes (.loop :: scope) :=
  inside.enter fun _ absent => by cases absent

theorem outer (inside : Scope.Inside nodes (frame :: scope)) : Scope.Inside nodes scope :=
  fun other member => inside other (List.mem_cons_of_mem _ member)

end Scope.Inside

namespace Builder

/-- All further nodes carry out some nodes of the tree, or stand for none. -/
def Enacts (names : List String) (nodes : List Tree.Node) (b later : Builder) : Prop :=
  ∀ id node, later.bare? id = some node → b.bare? id = some node ∨ node.Enacts names nodes

namespace Enacts

variable {names : List String} {nodes : List Tree.Node} {b later last : Builder} {scope : Scope}
  {copying : Bool} {node : Node}

theorem refl (b : Builder) : Enacts names nodes b b := fun _ _ found => Or.inl found

theorem trans (first : Enacts names nodes b later) (second : Enacts names nodes later last) :
    Enacts names nodes b last := by
  intro id node found
  rcases second id node found with old | enacts
  · exact first id node old
  · exact Or.inr enacts

theorem of_bare? (same : ∀ id, later.bare? id = b.bare? id) : Enacts names nodes b later :=
  fun id _ found => Or.inl ((same id).symm.trans found)

theorem addNode (b : Builder) (enacts : node.Enacts names nodes) :
    Enacts names nodes b (b.addNode node).2 := by
  intro id other found
  rw [bare?_addNode] at found
  split at found
  · cases found
    exact Or.inr enacts
  · exact Or.inl found

theorem push (b : Builder) (enacts : node.Enacts names nodes) :
    Enacts names nodes b (b.push node).2 :=
  (addNode b enacts).trans (of_bare? fun id => bare?_connect _ b.tips b.nodes.size id)

/-- A node of the tree is drawn. -/
theorem pushAt (b : Builder) {inner : Tree.Node} (isNode : inner ∈ nodes) {action : Action}
    (acts : inner.action? = some action) (operands : List Nat) :
    Enacts names nodes b (b.push (.at inner.id copying action operands)).2 :=
  push b (Or.inr ⟨inner, isNode, rfl, acts⟩)

theorem raise (b : Builder) (scope : Scope) (source : Nat) :
    Enacts names nodes b (b.raise scope source) :=
  of_bare? (bare?_raise b scope source)

/-- Tips, parked tips and type names at the start do not count. -/
theorem of_moved {first : Builder} (drawn : Enacts names nodes first later)
    (same : first.nodes = b.nodes) : Enacts names nodes b later :=
  (of_bare? (bare?_of_eq same)).trans drawn

theorem of_tips {tips : List Tip} (drawn : Enacts names nodes { b with tips } later) :
    Enacts names nodes b later :=
  drawn.of_moved rfl

theorem of_parked {parked : List (Exit × Tip)}
    (drawn : Enacts names nodes { b with parked } later) : Enacts names nodes b later :=
  drawn.of_moved rfl

theorem of_mention {ty : String} (drawn : Enacts names nodes (b.mention ty) later) :
    Enacts names nodes b later :=
  drawn.of_moved rfl

theorem leaveFrame (drawn : Enacts names nodes b later) (before : List (Exit × Tip))
    (ending : List Exit) : Enacts names nodes b (later.leaveFrame before ending) :=
  drawn.trans (of_bare? (bare?_of_eq rfl))

mutual

/-- An expression enacts its parts. -/
theorem expr (closed : Tree.Closed nodes) (scope : Scope) (copying : Bool) (b : Builder)
    (value : Tree.Expr) (isNode : .expr value ∈ nodes) :
    Enacts names nodes b (b.expr scope copying value).2 := by
  match value with
  | .literal id value => exact pushAt b isNode rfl []
  | .ident id name => exact pushAt b isNode rfl []
  | .assign id target value =>
      have part := closed _ isNode rfl rfl (.expr value) List.mem_cons_self
      exact (expr closed scope copying b value part).trans (pushAt _ isNode rfl _)
  | .binary id op lhs rhs =>
      have left := closed _ isNode rfl rfl (.expr lhs) List.mem_cons_self
      have right := closed _ isNode rfl rfl (.expr rhs) (List.mem_cons_of_mem _ List.mem_cons_self)
      have first := expr closed scope copying b lhs left
      rw [Builder.expr]
      dsimp only
      split
      · exact (first.trans (of_tips (expr closed scope copying _ rhs right))).trans
          (of_tips (pushAt _ isNode rfl _))
      · have drawn := first.trans (expr closed scope copying _ rhs right)
        split
        · exact (drawn.trans (pushAt _ isNode rfl _)).trans (raise _ scope _)
        · exact drawn.trans (pushAt _ isNode rfl _)
  | .unary id op operand =>
      have part := closed _ isNode rfl rfl (.expr operand) List.mem_cons_self
      exact (expr closed scope copying b operand part).trans (pushAt _ isNode rfl _)
  | .conditional id cond whenTrue whenFalse =>
      have test := closed _ isNode rfl rfl (.expr cond) List.mem_cons_self
      have first := closed _ isNode rfl rfl (.expr whenTrue)
        (List.mem_cons_of_mem _ List.mem_cons_self)
      have second := closed _ isNode rfl rfl (.expr whenFalse)
        (List.mem_cons_of_mem _ (List.mem_cons_of_mem _ List.mem_cons_self))
      exact (((expr closed scope copying b cond test).trans
        (of_tips (expr closed scope copying _ whenTrue first))).trans
        (of_tips (expr closed scope copying _ whenFalse second))).trans
        (of_tips (pushAt _ isNode rfl _))
  | .call id callee args =>
      exact ((exprs closed scope copying b args (closed _ isNode rfl rfl)).trans
        (pushAt _ isNode rfl _)).trans (raise _ scope _)
  | .new id ty args =>
      exact (of_mention ((exprs closed scope copying (b.mention ty) args
        (closed _ isNode rfl rfl)).trans (pushAt _ isNode rfl _))).trans (raise _ scope _)
  | .lambda id params body => exact pushAt b isNode rfl []

theorem exprs (closed : Tree.Closed nodes) (scope : Scope) (copying : Bool) (b : Builder)
    (values : List Tree.Expr) (areNodes : ∀ child ∈ values.map Tree.Node.expr, child ∈ nodes) :
    Enacts names nodes b (b.exprs scope copying values).2 := by
  match values with
  | [] => exact refl b
  | value :: values =>
      exact (expr closed scope copying b value (areNodes _ List.mem_cons_self)).trans
        (exprs closed scope copying (b.expr scope copying value).2 values fun child member =>
          areNodes child (List.mem_cons_of_mem _ member))

end

theorem expr? (closed : Tree.Closed nodes) (scope : Scope) (copying : Bool) (b : Builder)
    (value : Option Tree.Expr)
    (areNodes : ∀ child ∈ value.toList.map Tree.Node.expr, child ∈ nodes) :
    Enacts names nodes b (b.expr? scope copying value).2 := by
  cases value with
  | none => exact refl b
  | some value => exact expr closed scope copying b value (areNodes _ List.mem_cons_self)

theorem enterCatches (copying : Bool) (b : Builder) (catches : List Tree.Catch)
    (areNodes : ∀ clause ∈ catches, .catchClause clause ∈ nodes) :
    Enacts names nodes b (b.enterCatches copying catches).2 := by
  induction catches generalizing b with
  | nil => exact refl b
  | cons clause catches ih =>
      have enacts : (Node.at clause.id copying (.catchParam clause.name clause.ty) []).Enacts
          names nodes := Or.inr ⟨_, areNodes clause List.mem_cons_self, rfl, rfl⟩
      exact (of_mention (addNode _ enacts)).trans (ih _ fun other member =>
        areNodes other (List.mem_cons_of_mem _ member))

theorem looping {tips exits : List Tip} {head : Nat} {update : List Tree.Expr}
    {body : Tree.Block} (closed : Tree.Closed nodes)
    (updates : ∀ child ∈ update.map Tree.Node.expr, child ∈ nodes)
    (drawn : ∀ b, Enacts names nodes b (stmts (.loop :: scope) copying b body.stmts)) :
    Enacts names nodes b (b.looping scope copying tips exits head update body) := by
  rw [Builder.looping, closeLoop_eq]
  have inner : Enacts names nodes b _ := of_moved (drawn { b with tips, parked := [] }) rfl
  generalize stmts (.loop :: scope) copying { b with tips, parked := [] } body.stmts = ended
    at inner
  have updated : Enacts names nodes ended _ :=
    of_moved (exprs closed scope copying (ended.atUpdates scope b.parked) update updates) rfl
  exact (inner.trans updated).trans (of_bare? fun id => bare?_connect _ _ head id)

theorem cleaningUp {raised : List Tip} {block : Tree.Block}
    (drawn : ∀ b, Enacts names nodes b (stmts scope true b block.stmts)) :
    Enacts names nodes b (b.cleaningUp scope raised block) := by
  unfold Builder.cleaningUp
  split
  · exact refl b
  · exact ((of_tips (drawn _)).trans (push _ (Or.inl ⟨rfl, rfl⟩))).trans (raise _ scope _)

theorem guarded {handlers : List Handler} {body : Tree.Block} {catches : List Tree.Catch}
    {cleanup : Option Tree.Block}
    (drawn : ∀ b,
      Enacts names nodes b (stmts (.region handlers cleanup :: scope) copying b body.stmts))
    (caught : ∀ b entries,
      Enacts names nodes b (clauses (.region [] cleanup :: scope) copying b entries catches)) :
    Enacts names nodes b (b.guarded scope copying handlers body catches cleanup) :=
  (of_parked (drawn _)).trans (caught _ _)

/-- Each statement enacts its parts, if they enact theirs. -/
theorem drawingCases (closed : Tree.Closed nodes) : DrawingCases
    (fun scope list => scope.Inside nodes → (∀ statement ∈ list, .stmt statement ∈ nodes) →
      ∀ copying b, Enacts names nodes b (stmts scope copying b list))
    (fun scope statement => scope.Inside nodes → .stmt statement ∈ nodes →
      ∀ copying b, Enacts names nodes b (stmt scope copying b statement))
    (fun scope list => scope.Inside nodes → (∀ clause ∈ list, .catchClause clause ∈ nodes) →
      ∀ copying b entries, Enacts names nodes b (clauses scope copying b entries list))
    (fun scope => scope.Inside nodes →
      ∀ keep b, Enacts names nodes b (unwind scope keep b)) where
  nil scope inside areNodes copying b := by
    rw [stmts_nil]
    exact refl b
  cons scope first rest head tail inside areNodes copying b := by
    rw [stmts_cons]
    exact (head inside (areNodes first List.mem_cons_self) copying b).trans
      (tail inside (fun other member => areNodes other (List.mem_cons_of_mem _ member)) copying _)
  block scope inner drawn inside isNode copying b := by
    rw [stmt_block]
    exact drawn inside (closed.stmts isNode) copying b
  localDecl scope id name ty init inside isNode copying b := by
    rw [stmt_localDecl]
    exact of_mention ((expr? closed scope copying (b.mention ty) init
      (closed _ isNode rfl rfl)).trans (pushAt _ isNode rfl _))
  exprStmt scope id value inside isNode copying b := by
    rw [stmt_exprStmt]
    exact expr closed scope copying b value (closed _ isNode rfl rfl _ List.mem_cons_self)
  ifElse scope id cond whenTrue whenFalse first second inside isNode copying b := by
    have parts := closed _ isNode rfl rfl
    have tested : Enacts names nodes b _ :=
      expr closed scope copying b cond (parts _ List.mem_cons_self)
    have isFirst := closed.stmts (parts _ (List.mem_cons_of_mem _ List.mem_cons_self))
    cases whenFalse with
    | none =>
        rw [stmt_ifElse_none]
        exact tested.trans (of_tips (first inside isFirst copying _))
    | some block =>
        rw [stmt_ifElse_some]
        have isSecond := closed.stmts (parts block.toNode
          (List.mem_cons_of_mem _ (List.mem_cons_of_mem _ List.mem_cons_self)))
        exact (tested.trans (of_tips (first inside isFirst copying _))).trans
          (of_tips (second block rfl inside isSecond copying _))
  whileLoop scope id cond body drawn inside isNode copying b := by
    rw [stmt_whileLoop]
    have parts := closed _ isNode rfl rfl
    have isBody := closed.stmts (parts _ (List.mem_cons_of_mem _ List.mem_cons_self))
    exact ((pushAt b isNode rfl []).trans
      (expr closed scope copying _ cond (parts _ List.mem_cons_self))).trans
      (looping closed (fun _ never => by cases never) (drawn inside.loop isBody copying))
  forLoop scope id init cond update body started drawn inside isNode copying b := by
    rw [stmt_forLoop]
    have parts := closed _ isNode rfl rfl
    simp only [Tree.Node.children, Tree.Stmt.children, List.forall_mem_append] at parts
    obtain ⟨⟨⟨areInits, isCond⟩, areUpdates⟩, isBody⟩ := parts
    have areStarted : ∀ statement ∈ init, .stmt statement ∈ nodes := fun _ member =>
      areInits _ (List.mem_map_of_mem member)
    exact (((started inside areStarted copying b).trans (pushAt _ isNode rfl [])).trans
      (expr? closed scope copying _ cond isCond)).trans (looping closed areUpdates
        (drawn inside.loop (closed.stmts (isBody _ List.mem_cons_self)) copying))
  returnValue scope id value left inside isNode copying b := by
    rw [stmt_returnValue]
    exact ((expr? closed scope copying b value (closed _ isNode rfl rfl)).trans
      (pushAt _ isNode rfl _)).trans (left inside 0 _)
  breakLoop scope id left inside isNode copying b := by
    cases found : scope.innermostLoop? with
    | none =>
        rw [stmt_breakLoop_outside scope copying b id found]
        exact refl b
    | some frame =>
        rw [stmt_breakLoop scope copying b id found]
        exact left inside (frame + 1) b
  continueLoop scope id left inside isNode copying b := by
    cases found : scope.innermostLoop? with
    | none =>
        rw [stmt_continueLoop_outside scope copying b id found]
        exact refl b
    | some frame =>
        rw [stmt_continueLoop scope copying b id found]
        exact left inside (frame + 1) b
  throwValue scope id value inside isNode copying b := by
    rw [stmt_throwValue]
    exact ((expr closed scope copying b value (closed _ isNode rfl rfl _ List.mem_cons_self)).trans
      (pushAt _ isNode rfl _)).trans (of_tips (raise _ scope _))
  tryCatch scope id body catches cleanup drawn caught finished inside isNode copying b := by
    have parts := closed _ isNode rfl rfl
    simp only [Tree.Node.children, Tree.Stmt.children, List.forall_mem_cons,
      List.forall_mem_append] at parts
    obtain ⟨isBody, areClauses, isCleanup⟩ := parts
    have areCaught : ∀ clause ∈ catches, .catchClause clause ∈ nodes := fun _ member =>
      areClauses _ (List.mem_map_of_mem member)
    have isFinal : ∀ block, cleanup = some block → block.toNode ∈ nodes := by
      rintro block rfl
      exact isCleanup _ List.mem_cons_self
    have within : ∀ handlers, Scope.Inside nodes (.region handlers cleanup :: scope) :=
      fun handlers => inside.enter isFinal
    have entered : Enacts names nodes b _ := enterCatches copying b catches areCaught
    have tried : ∀ handlers b, Enacts names nodes b
        (b.guarded scope copying handlers body catches cleanup) := fun handlers b =>
      guarded (drawn handlers (within handlers) (closed.stmts isBody) copying)
        (caught (within []) areCaught copying)
    cases cleanup with
    | none =>
        rw [stmt_tryCatch_none]
        exact (entered.trans (tried _ _)).leaveFrame _ _
    | some block =>
        rw [stmt_tryCatch_some]
        have areFinal := closed.stmts (isFinal block rfl)
        exact (((entered.trans (tried _ _)).leaveFrame _ _).trans
          (cleaningUp (finished block rfl inside areFinal true))).trans
          (of_tips (finished block rfl inside areFinal copying _))
  noClause scope inside areNodes copying b entries := by
    rw [clauses_nil]
    exact refl b
  clause scope clause rest drawn others inside areNodes copying b entries := by
    cases entries with
    | nil =>
        rw [clauses_noEntry]
        exact refl b
    | cons entry entries =>
        rw [clauses_cons]
        have isBody := closed _ (areNodes clause List.mem_cons_self) rfl rfl _
          List.mem_cons_self
        exact (of_tips (drawn inside (closed.stmts isBody) copying _)).trans
          (of_tips (others inside (fun other member =>
            areNodes other (List.mem_cons_of_mem _ member)) copying _ entries))
  unwound inside keep b := by
    rw [unwind_nil]
    exact refl b
  unwind frame outer drawn left inside keep b := by
    by_cases kept : outer.length < keep
    · rw [unwind_kept b frame outer kept]
      exact refl b
    · cases present : frame.cleanup? with
      | none =>
          rw [unwind_left b frame outer (Nat.le_of_not_lt kept) present]
          exact left inside.outer keep b
      | some block =>
          rw [unwind_cleanup b frame outer (Nat.le_of_not_lt kept) present]
          have isBlock := inside frame List.mem_cons_self block present
          exact (drawn block present inside.outer (closed.stmts isBlock) true b).trans
            (left inside.outer keep _)

/-! ### Whole fragments -/

theorem block (closed : Tree.Closed nodes) {body : Tree.Block} (isNode : body.toNode ∈ nodes)
    (b : Builder) : Enacts names nodes b (b.stmts [] false body.stmts) :=
  (drawingCases closed).stmts [] body.stmts (fun _ never => by cases never) (closed.stmts isNode)
    false b

theorem params (b : Builder) (list : List String) (included : ∀ name ∈ list, name ∈ names) :
    Enacts names nodes b (b.params list) := by
  unfold Builder.params
  induction list generalizing b with
  | nil => exact refl b
  | cons name list ih =>
      have enacts : (Node.implicit (.param name) []).Enacts names nodes :=
        Or.inl ⟨rfl, List.contains_iff_mem.2 (included name List.mem_cons_self)⟩
      exact (push b enacts).trans (ih _ fun other member =>
        included other (List.mem_cons_of_mem _ member))

theorem typedParams (b : Builder) (list : List Source.Param)
    (included : ∀ param ∈ list, param.name ∈ names) : Enacts names nodes b
      (list.foldl (fun b param => (b.mention param.ty).params [param.name]) b) := by
  induction list generalizing b with
  | nil => exact refl b
  | cons param list ih =>
      have isParam : ∀ name ∈ [param.name], name ∈ names := fun name member =>
        List.mem_singleton.1 member ▸ included param List.mem_cons_self
      exact (of_mention (params _ [param.name] isParam)).trans (ih _ fun other member =>
        included other (List.mem_cons_of_mem _ member))

/-- The code of a fragment enacts its body, its parameters and the field that it initializes. -/
theorem code (closed : Tree.Closed nodes) (b : Builder) (code : Fragment.Code)
    (body : ∀ body, code.body? = some body → body ∈ nodes)
    (field : ∀ decl init, code = .fieldInitializer decl init → .field decl ∈ nodes) :
    Enacts code.parameters nodes b (b.code code) := by
  match code with
  | .method decl =>
      have bound : Enacts _ nodes b _ := typedParams b decl.params fun param member =>
        List.mem_map_of_mem member
      rw [Builder.code]
      cases present : decl.body with
      | none => exact bound
      | some inner =>
        exact bound.trans (block closed (body _ (by rw [Fragment.Code.body?, present]; rfl)) _)
  | .lambda id names (.block inner) =>
      exact (params b names fun _ member => member).trans (block closed (body _ rfl) _)
  | .lambda id names (.value result) =>
      exact ((params b names fun _ member => member).trans
        (expr closed [] false _ result (body _ rfl))).trans (push _ (Or.inl ⟨rfl, rfl⟩))
  | .initializer inner => exact block closed (body _ rfl) b
  | .fieldInitializer decl init =>
      exact of_mention ((expr closed [] false (b.mention decl.ty) init (body _ rfl)).trans
        (pushAt _ (field decl init rfl) rfl _))

/-- The exits enact nothing of the tree. -/
theorem finish (b : Builder) (label : String) :
    Enacts names nodes b (b.finish label).toBuilder :=
  ((addNode b (Or.inl ⟨rfl, rfl⟩)).trans (of_bare? (bare?_connect _ _ _))).trans
    ((addNode _ (Or.inl ⟨rfl, rfl⟩)).trans (of_bare? (bare?_connect _ _ _)))

end Enacts

end Builder

/-- Every node of a built graph carries out a part of the fragment, or stands for none. -/
theorem enacts_of_ofFragment {fragment : Fragment} {env : Environment} {graph : Graph}
    (built : ofFragment fragment env = .ok graph) {id : Nat} {node : Node}
    (found : graph.nodes[id]? = some node) :
    node.Enacts fragment.code.parameters fragment.parts := by
  obtain ⟨-, rfl⟩ := eq_finish_of_ofFragment built
  have started : Builder.Enacts fragment.code.parameters fragment.parts {} .start :=
    .push {} (Or.inl ⟨rfl, rfl⟩)
  have drawn : Builder.Enacts fragment.code.parameters fragment.parts .start (draw fragment) := by
    refine .code fragment.closed_parts .start fragment.code (fun body isBody => ?_)
      fun decl init isCode => ?_
    · exact Fragment.mem_parts.2 (Or.inl (Fragment.mem_nodes_body isBody))
    · exact Fragment.mem_parts.2 (Or.inr ⟨decl, init, isCode, rfl⟩)
  rcases (started.trans drawn).trans (.finish _ fragment.name) id node.bare
    (bare?_toBuilder found) with never | enacts
  · cases never
  · exact enacts

end Graph

end FragmentFlow
