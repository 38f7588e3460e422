import FragmentFlow.Proofs.Cleanup.Protected
import FragmentFlow.Proofs.Drawing.Census
import FragmentFlow.Proofs.Drawing.Steps
import FragmentFlow.Proofs.Tree.Ownership

/-!
# What drawing adds

Code is drawn once in its place; every further drawing of it is marked as a copy.  So
each part of the tree has one node at most that is not a copy.  An edge to a catch clause
starts at a node that was drawn together with the edge, and so does what is parked as an
uncaught exception, which has the kind of one.  Behind a statement nothing waits for a
frame inside it.
-/

namespace FragmentFlow

/-! ### How often a number occurs in the tree -/

namespace Tree

/-- How often a number occurs at a node and below it, outside nested lambdas. -/
def Node.marks (node : Node) (id : Nat) : Nat :=
  (node.ownNodes.map Node.id).count id

theorem count_flatMap (nodes : List Node) (id : Nat) :
    ((nodes.flatMap Node.ownNodes).map Node.id).count id =
      total (fun node => node.marks id) nodes := by
  induction nodes with
  | nil => rfl
  | cons node nodes ih =>
      rw [List.flatMap_cons, List.map_append, List.count_append, ih, total_cons, Node.marks]

theorem Node.marks_eq (node : Node) (id : Nat) :
    node.marks id = (if node.id = id then 1 else 0) +
      if node.isLambda then 0 else total (fun child => child.marks id) node.children := by
  have below : (node.children.attach.flatMap fun child => child.1.ownNodes) =
      node.children.flatMap Node.ownNodes := by
    simp [List.flatMap_subtype]
  rw [marks, ownNodes, below]
  cases node.isLambda with
  | true => simp [List.count_singleton]
  | false =>
      rw [if_neg Bool.false_ne_true, if_neg Bool.false_ne_true, List.map_cons, List.count_cons,
        count_flatMap, Nat.add_comm]
      simp

/-- How often a number occurs in code that is drawn in its place.  In a copy it does not. -/
def Node.places (copying : Bool) (node : Node) (id : Nat) : Nat :=
  if copying then 0 else node.marks id

/-- Whether a node is drawn in its place and has a certain number. -/
def isPlace (copying : Bool) (id number : Nat) : Nat :=
  (id == number && !copying).toNat

theorem Node.places_true (node : Node) (id : Nat) : node.places true id = 0 := rfl

theorem total_places_true {α : Type} (f : α → Node) (items : List α) (id : Nat) :
    total (fun item => (f item).places true id) items = 0 := by
  induction items with
  | nil => rfl
  | cons item items ih => rw [total_cons, ih, Node.places_true]

theorem Node.places_eq (copying : Bool) (node : Node) (id : Nat) :
    node.places copying id = isPlace copying node.id id +
      if node.isLambda then 0 else total (fun child => child.places copying id) node.children := by
  cases copying with
  | true =>
      rw [isPlace, Bool.not_true, Bool.and_false, total_places_true (fun child => child)]
      split <;> rfl
  | false =>
      rw [isPlace, Bool.not_false, Bool.and_true]
      change node.marks id = _
      rw [Node.marks_eq]
      by_cases same : node.id = id
      · rw [if_pos same, beq_iff_eq.2 same]
        rfl
      · rw [if_neg same, beq_eq_false_iff_ne.2 same]
        rfl

/-- The places in an expression are those in its operands and its own one. -/
theorem places_expr (copying : Bool) (value : Expr) (id : Nat) :
    (Node.expr value).places copying id =
      (match value with
      | .literal .. | .ident .. | .lambda .. => 0
      | .assign _ _ operand | .unary _ _ operand => (Node.expr operand).places copying id
      | .binary _ _ lhs rhs => (Node.expr lhs).places copying id + (Node.expr rhs).places copying id
      | .conditional _ cond whenTrue whenFalse =>
        (Node.expr cond).places copying id + (Node.expr whenTrue).places copying id +
          (Node.expr whenFalse).places copying id
      | .call _ _ args | .new _ _ args =>
        total (fun arg => (Node.expr arg).places copying id) args) +
      isPlace copying value.id id := by
  rw [Node.places_eq, Nat.add_comm]
  cases value <;>
    simp [Node.id, Node.isLambda, Node.children, Expr.children, Nat.add_assoc]

/-- The statements of a block are drawn in its place. -/
theorem Block.places_toNode (copying : Bool) (block : Block) (id : Nat) :
    total (fun statement => (Node.stmt statement).places copying id) block.stmts ≤
      block.toNode.places copying id := by
  rw [Node.places_eq]
  simp only [Block.toNode, Node.isLambda, Node.children, Stmt.children, total_map]
  exact Nat.le_add_left _ _

/-- The places in a statement are those in its parts and its own one. -/
theorem places_stmt (copying : Bool) (statement : Stmt) (id : Nat) :
    (Node.stmt statement).places copying id =
      isPlace copying statement.id id +
        total (fun child => child.places copying id) statement.children := by
  rw [Node.places_eq]
  rfl

/-- The entry and the body of catch clauses are drawn in their places. -/
theorem total_places_catches (copying : Bool) (catches : List Catch) (id : Nat) :
    total (fun clause => isPlace copying clause.id id) catches +
        total (fun clause => total (fun statement => (Node.stmt statement).places copying id)
          clause.body.stmts) catches ≤
      total (fun clause => (Node.catchClause clause).places copying id) catches := by
  induction catches with
  | nil => exact Nat.le_refl _
  | cons clause catches ih =>
      have body := clause.body.places_toNode copying id
      have first : (Node.catchClause clause).places copying id =
          isPlace copying clause.id id + clause.body.toNode.places copying id := by
        rw [Node.places_eq]
        rfl
      rw [total_cons, total_cons, total_cons]
      omega

end Tree

namespace Graph

/-- Whether a node stands for a part of the tree in its place. -/
def Node.isOriginal (tree : Nat) (node : Node) : Bool :=
  node.tree == some tree && !node.isCopy

/-- Whether an action takes an exception from a catch clause. -/
def Action.isCatch : Action → Bool
  | catchParam .. => true
  | _ => false

namespace Builder

/-- The nodes that stand for a part of the tree in its place. -/
def originals (b : Builder) (tree : Nat) : List Nat :=
  (List.range b.nodes.size).filter fun id => (b.bare? id).any (Node.isOriginal tree)

theorem originals_eq (b : Builder) (tree : Nat) : b.originals tree = b.drawings false tree := by
  have same : Node.isOriginal tree = Node.isDrawing false tree := by
    funext node
    rw [Node.isOriginal, Node.isDrawing, beq_false]
  rw [drawings, ← same]
  rfl

/-- A node is not the entry of a catch clause. -/
def Plain (b : Builder) (id : Nat) : Prop :=
  ∃ node, b.bare? id = some node ∧ node.action.isCatch = false

/-- A node that is no catch entry stays one. -/
theorem Plain.grow {b later : Builder} {id : Nat} (plain : b.Plain id) (grows : Grows b later) :
    later.Plain id := by
  obtain ⟨node, found, isPlain⟩ := plain
  exact ⟨node, grows.nodes id node found, isPlain⟩

theorem originals_congr {b later : Builder} (size : later.nodes.size = b.nodes.size)
    (same : ∀ id, later.bare? id = b.bare? id) (tree : Nat) :
    later.originals tree = b.originals tree :=
  nodesWhere_congr size same _

/-- A new node is one more original of its tree, or none. -/
theorem originals_addNode (b : Builder) (node : Node) (tree : Nat) :
    ((b.addNode node).2.originals tree).length =
      (b.originals tree).length + (node.isOriginal tree).toNat :=
  length_nodesWhere_addNode b node _

/-- A pushed node is one more original of its tree, or none. -/
theorem originals_push (b : Builder) (node : Node) (tree : Nat) :
    ((b.push node).2.originals tree).length =
      (b.originals tree).length + (node.isOriginal tree).toNat :=
  length_nodesWhere_push b node _

/-! ### Additions -/

/-- What has been added to a builder in a place within some frames.  The number of nodes
that stand for a part of the tree in its place has grown by no more than a given one. -/
structure Adds (scope : Scope) (own : Nat → Nat) (b later : Builder) : Prop
    extends Extends b later where
  originals : ∀ tree, (later.originals tree).length ≤ (b.originals tree).length + own tree
  sources : ∀ edge ∈ later.edges,
    edge ∈ b.edges ∨ Fresh b later edge.source ∨ later.Plain edge.target
  exits : ∀ entry ∈ later.parked, entry ∈ b.parked ∨
    scope.Offers entry.1 ∧
      (entry.1 = .uncaught → Fresh b later entry.2.source ∧ entry.2.kind = .exception)

namespace Adds

variable {scope : Scope} {own other : Nat → Nat} {b middle later : Builder}

theorem refl (b : Builder) : Adds scope (fun _ => 0) b b where
  toExtends := .refl b
  originals _ := Nat.le_refl _
  sources _ member := Or.inl member
  exits _ member := Or.inl member

theorem trans (first : Adds scope own b middle) (second : Adds scope other middle later) :
    Adds scope (fun tree => own tree + other tree) b later where
  toExtends := first.toExtends.trans second.toExtends
  originals tree := by
    have one := first.originals tree
    have two := second.originals tree
    omega
  sources edge member := by
    rcases second.sources edge member with old | fresh | plain
    · rcases first.sources edge old with older | fresh | plain
      · exact Or.inl older
      · exact Or.inr (Or.inl (fresh.grow second.grows))
      · exact Or.inr (Or.inr (plain.grow second.grows))
    · exact Or.inr (Or.inl (fresh.since first.grows))
    · exact Or.inr (Or.inr plain)
  exits entry member := by
    rcases second.exits entry member with old | ⟨offers, fresh⟩
    · exact (first.exits entry old).imp_right fun new =>
        ⟨new.1, fun uncaught => (new.2 uncaught).imp_left fun source => source.grow second.grows⟩
    · exact Or.inr ⟨offers, fun uncaught =>
        (fresh uncaught).imp_left fun source => source.since first.grows⟩

/-- A count can be replaced by a larger one. -/
theorem count (adds : Adds scope own b later) (more : ∀ tree, own tree ≤ other tree) :
    Adds scope other b later where
  toExtends := adds.toExtends
  originals tree := Nat.le_trans (adds.originals tree) (Nat.add_le_add_left (more tree) _)
  sources := adds.sources
  exits := adds.exits

/-- A step in an outer scope is a step in any scope with the same exits. -/
theorem widen {outer : Scope} (adds : Adds outer own b later)
    (offers : ∀ exit, outer.Offers exit → scope.Offers exit) : Adds scope own b later where
  toExtends := adds.toExtends
  originals := adds.originals
  sources := adds.sources
  exits entry member := (adds.exits entry member).imp_right fun new => ⟨offers _ new.1, new.2⟩

theorem of_tips {tips : List Tip} (adds : Adds scope own { b with tips } later) :
    Adds scope own b later where
  toExtends := .of_tips adds.toExtends
  originals := adds.originals
  sources := adds.sources
  exits := adds.exits

theorem to_tips (tips : List Tip) (adds : Adds scope own b later) :
    Adds scope own b { later with tips } where
  toExtends := adds.toExtends.to_tips tips
  originals := adds.originals
  sources := adds.sources
  exits := adds.exits

theorem of_mention {ty : String} (adds : Adds scope own (b.mention ty) later) :
    Adds scope own b later where
  toExtends := .of_mention adds.toExtends
  originals := adds.originals
  sources := adds.sources
  exits := adds.exits

theorem push (b : Builder) (node : Node) (plain : node.action.isCatch = false) :
    Adds scope (fun tree => (node.isOriginal tree).toNat) b (b.push node).2 where
  toExtends := .push b node
  originals tree := Nat.le_of_eq (originals_push b node tree)
  sources edge member := by
    rcases mem_edges_push.1 member with old | ⟨-, target⟩
    · exact Or.inl old
    · exact Or.inr (Or.inr ⟨node.bare, target ▸ bare?_push_self b node, plain⟩)
  exits entry member := Or.inl (parked_push b node ▸ member)

theorem raise (adds : Adds scope own b later) {source : Nat} (fresh : Fresh b later source) :
    Adds scope own b (later.raise scope source) where
  toExtends := adds.toExtends.trans (.raise later scope source)
  originals tree := by
    rw [originals_congr (size_raise later scope source) (bare?_raise later scope source)]
    exact adds.originals tree
  sources edge member := by
    have grows := Grows.raise later scope source
    rcases mem_edges_raise.1 member with old | ⟨rfl, -, -⟩
    · rcases adds.sources edge old with older | new | plain
      · exact Or.inl older
      · exact Or.inr (Or.inl (new.grow grows))
      · exact Or.inr (Or.inr (plain.grow grows))
    · exact Or.inr (Or.inl (fresh.grow grows))
  exits entry member := by
    have grows := Grows.raise later scope source
    rw [parked_raise] at member
    rcases List.mem_append.1 member with old | new
    · exact (adds.exits entry old).imp_right fun found =>
        ⟨found.1, fun uncaught => (found.2 uncaught).imp_left fun new => new.grow grows⟩
    · obtain ⟨exit, found, rfl⟩ := List.mem_map.1 new
      exact Or.inr ⟨Scope.offers_route (Option.mem_toList.1 found), fun _ =>
        ⟨fresh.grow grows, rfl⟩⟩

/-- A node that raises an exception when it is drawn. -/
theorem pushRaise (adds : Adds scope own b later) (node : Node)
    (plain : node.action.isCatch = false) :
    Adds scope (fun tree => own tree + (node.isOriginal tree).toNat) b
      ((later.push node).2.raise scope later.nodes.size) :=
  (adds.trans (push later node plain)).raise (fresh_push adds.grows node)

theorem connect (adds : Adds scope own b later) (tips : List Tip) {target : Nat}
    (plain : later.Plain target) : Adds scope own b (later.connect tips target) where
  toExtends := adds.toExtends.trans (.connect later tips target)
  originals tree := by
    rw [originals_congr (size_connect later tips target) (bare?_connect later tips target)]
    exact adds.originals tree
  sources edge member := by
    have grows := Grows.connect later tips target
    rcases mem_edges_connect.1 member with old | ⟨_, _, rfl⟩
    · rcases adds.sources edge old with older | new | isPlain
      · exact Or.inl older
      · exact Or.inr (Or.inl (new.grow grows))
      · exact Or.inr (Or.inr (isPlain.grow grows))
    · exact Or.inr (Or.inr (plain.grow grows))
  exits entry member := by
    rw [connect_eq, parked_addEdges] at member
    exact (adds.exits entry member).imp_right fun found =>
      ⟨found.1, fun uncaught => (found.2 uncaught).imp_left fun new =>
        new.grow (.connect later tips target)⟩

theorem jump (adds : Adds scope own b later) {exit : Exit} (offers : scope.Offers exit)
    (caught : exit ≠ .uncaught) (kind : EdgeKind) : Adds scope own b (later.jump exit kind) where
  toExtends := adds.toExtends.trans (.jump later exit kind)
  originals := adds.originals
  sources := adds.sources
  exits entry member := by
    rcases List.mem_append.1 member with old | new
    · exact adds.exits entry old
    · obtain ⟨tip, -, rfl⟩ := List.mem_map.1 new
      exact Or.inr ⟨offers, fun uncaught => absurd uncaught caught⟩

/-- What is parked inside a frame and does not end there leads further out. -/
theorem leaveFrame {frame : Frame} {tips : List Tip} {ending : List Exit}
    (adds : Adds (frame :: scope) own { b with tips, parked := [] } later)
    (ends : ∀ exit ∈ frame.exits scope.length, exit ∈ ending) :
    Adds scope own b (later.leaveFrame b.parked ending) where
  toExtends := .leaveFrame adds.toExtends ending
  originals := adds.originals
  sources := adds.sources
  exits entry member := by
    rcases List.mem_append.1 member with before | inside
    · exact Or.inl before
    · obtain ⟨isParked, stays⟩ := List.mem_filter.1 inside
      rcases adds.exits entry isParked with never | ⟨⟨here, -⟩ | further, fresh⟩
      · cases never
      · have ended : ending.contains entry.1 = true := List.contains_iff_mem.2 (ends _ here)
        rw [ended] at stays
        cases stays
      · exact Or.inr ⟨further, fresh⟩

/-! ### Additions of drawn code -/

/-- A pushed node is no catch entry unless its action says so. -/
theorem plain_push (b : Builder) (node : Node) (plain : node.action.isCatch = false) :
    (b.push node).2.Plain b.nodes.size :=
  ⟨node.bare, bare?_push_self b node, plain⟩

theorem toNat_isOriginal_at (id : Nat) (copying : Bool) (action : Action) (operands : List Nat)
    (tree : Nat) : ((Node.at id copying action operands).isOriginal tree).toNat =
      Tree.isPlace copying id tree := rfl

/-- A node for a part of the tree takes the place of that part. -/
theorem pushAt (adds : Adds scope own b later) (id : Nat) (copying : Bool) (action : Action)
    (operands : List Nat) (plain : action.isCatch = false) :
    Adds scope (fun tree => own tree + Tree.isPlace copying id tree) b
      (later.push (.at id copying action operands)).2 :=
  adds.trans (push later (.at id copying action operands) plain)

/-- A node that can raise takes the place of its part of the tree. -/
theorem pushRaiseAt (adds : Adds scope own b later) (id : Nat) (copying : Bool) (action : Action)
    (operands : List Nat) (plain : action.isCatch = false) :
    Adds scope (fun tree => own tree + Tree.isPlace copying id tree) b
      ((later.push (.at id copying action operands)).2.raise scope later.nodes.size) :=
  adds.pushRaise (.at id copying action operands) plain

theorem congr (adds : Adds scope own b later) (same : ∀ tree, other tree = own tree) :
    Adds scope other b later :=
  adds.count fun tree => Nat.le_of_eq (same tree).symm

mutual

/-- An expression adds an original for every place in it. -/
theorem expr (scope : Scope) (copying : Bool) (b : Builder) (value : Tree.Expr) :
    Adds scope ((Tree.Node.expr value).places copying) b (b.expr scope copying value).2 := by
  match value with
  | .literal id value => exact ((refl b).pushAt id copying _ _ rfl).congr (Tree.places_expr _ _)
  | .ident id name => exact ((refl b).pushAt id copying _ _ rfl).congr (Tree.places_expr _ _)
  | .assign id target value =>
      exact ((expr scope copying b value).pushAt id copying _ _ rfl).congr (Tree.places_expr _ _)
  | .binary id op lhs rhs =>
      have left := expr scope copying b lhs
      rw [Builder.expr]
      dsimp only
      split
      · exact ((left.trans (of_tips (expr scope copying _ rhs))).trans
          (of_tips (push _ _ rfl))).congr (Tree.places_expr _ _)
      · have both := left.trans (expr scope copying _ rhs)
        split
        · exact (both.pushRaiseAt id copying _ _ rfl).congr (Tree.places_expr _ _)
        · exact (both.pushAt id copying _ _ rfl).congr (Tree.places_expr _ _)
  | .unary id op operand =>
      exact ((expr scope copying b operand).pushAt id copying _ _ rfl).congr (Tree.places_expr _ _)
  | .conditional id cond whenTrue whenFalse =>
      exact ((((expr scope copying b cond).trans (of_tips (expr scope copying _ whenTrue))).trans
        (of_tips (expr scope copying _ whenFalse))).trans (of_tips (push _ _ rfl))).congr
          (Tree.places_expr _ _)
  | .call id callee args =>
      exact ((exprs scope copying b args).pushRaiseAt id copying _ _ rfl).congr
        (Tree.places_expr _ _)
  | .new id ty args =>
      exact ((of_mention (exprs scope copying (b.mention ty) args)).pushRaiseAt id copying _ _
        rfl).congr (Tree.places_expr _ _)
  | .lambda id params body =>
      exact ((refl b).pushAt id copying _ _ rfl).congr (Tree.places_expr _ _)

theorem exprs (scope : Scope) (copying : Bool) (b : Builder) (values : List Tree.Expr) :
    Adds scope
      (fun tree => Tree.total (fun value => (Tree.Node.expr value).places copying tree) values) b
      (b.exprs scope copying values).2 := by
  match values with
  | [] => exact refl b
  | value :: values =>
      exact (expr scope copying b value).trans
        (exprs scope copying (b.expr scope copying value).2 values)

end

theorem expr? (scope : Scope) (copying : Bool) (b : Builder) (value : Option Tree.Expr) :
    Adds scope
      (fun tree => Tree.total (fun value => (Tree.Node.expr value).places copying tree)
        value.toList) b (b.expr? scope copying value).2 := by
  cases value with
  | none => exact refl b
  | some value => exact expr scope copying b value

theorem enterCatches (scope : Scope) (copying : Bool) (b : Builder) (catches : List Tree.Catch) :
    Adds scope
      (fun tree => Tree.total (fun clause => Tree.isPlace copying clause.id tree) catches) b
      (b.enterCatches copying catches).2 := by
  induction catches generalizing b with
  | nil => exact refl b
  | cons clause catches ih =>
      have added : Adds scope (Tree.isPlace copying clause.id) (b.mention clause.ty)
          ((b.mention clause.ty).addNode
            (.at clause.id copying (.catchParam clause.name clause.ty) [])).2 :=
        ⟨⟨.addNode _ _, fun _ member => member⟩,
          fun tree => Nat.le_of_eq (originals_addNode _ _ tree), fun _ member => Or.inl member,
          fun _ member => Or.inl member⟩
      exact (of_mention added).trans (ih _)

/-- A loop leads back to its head, which is no catch clause. -/
theorem looping {copying : Bool} {tips exits : List Tip} {head : Nat} {update : List Tree.Expr}
    {body : Tree.Block} (plain : b.Plain head)
    (drawn : ∀ b, Adds (.loop :: scope) own b (stmts (.loop :: scope) copying b body.stmts)) :
    Adds scope (fun tree => own tree +
      Tree.total (fun value => (Tree.Node.expr value).places copying tree) update) b
      (b.looping scope copying tips exits head update body) := by
  have left : Adds scope own b ((stmts (.loop :: scope) copying { b with tips, parked := [] }
      body.stmts).leaveFrame b.parked [.breaks scope.length, .continues scope.length]) :=
    leaveFrame (drawn _) fun exit member => member
  have continued : Adds scope own b ((stmts (.loop :: scope) copying
      { b with tips, parked := [] } body.stmts).atUpdates scope b.parked) := left.to_tips _
  have updated := continued.trans (exprs scope copying _ update)
  rw [Builder.looping, closeLoop_eq]
  exact (updated.connect _ (plain.grow updated.grows)).to_tips _

/-- A `try` ends what is parked for its `finally` block. -/
theorem guarded {copying : Bool} {handlers : List Handler} {body : Tree.Block}
    {catches : List Tree.Catch} {cleanup : Option Tree.Block}
    (drawn : ∀ b, Adds (.region handlers cleanup :: scope) own b
      (stmts (.region handlers cleanup :: scope) copying b body.stmts))
    (caught : ∀ b entries, Adds (.region [] cleanup :: scope) other b
      (clauses (.region [] cleanup :: scope) copying b entries catches)) :
    Adds scope (fun tree => own tree + other tree) b
      ((b.guarded scope copying handlers body catches cleanup).leaveFrame b.parked
        [.cleanup scope.length]) := by
  have whole : Adds (.region handlers cleanup :: scope) _ { b with tips := b.tips, parked := [] }
      (b.guarded scope copying handlers body catches cleanup) :=
    (drawn _).trans ((caught _ (handlers.map Handler.entry)).widen fun exit offers => offers)
  exact leaveFrame whole fun exit member => member

/-- Copies add no nodes in their places. -/
theorem cleaningUp {raised : List Tip} {block : Tree.Block}
    (drawn : ∀ b, Adds scope (fun _ => 0) b (stmts scope true b block.stmts)) :
    Adds scope (fun _ => 0) b (b.cleaningUp scope raised block) := by
  unfold Builder.cleaningUp
  split
  · exact refl b
  · exact (of_tips (drawn _)).pushRaise (.implicit .rethrow []) rfl

/-- Each statement adds the originals of its parts and its own one. -/
theorem drawingCases : DrawingCases
    (fun scope list => ∀ copying b, Adds scope
      (fun tree =>
        Tree.total (fun statement => (Tree.Node.stmt statement).places copying tree) list)
      b (stmts scope copying b list))
    (fun scope statement => ∀ copying b, Adds scope
      ((Tree.Node.stmt statement).places copying) b (stmt scope copying b statement))
    (fun scope list => ∀ copying b entries, Adds scope
      (fun tree => Tree.total (fun clause => Tree.total (fun statement =>
        (Tree.Node.stmt statement).places copying tree) clause.body.stmts) list)
      b (clauses scope copying b entries list))
    (fun scope => ∀ keep b, Adds scope (fun _ => 0) b (unwind scope keep b)) where
  nil scope copying b := by
    rw [stmts_nil]
    exact refl b
  cons scope first rest head tail copying b := by
    rw [stmts_cons]
    exact (head copying b).trans (tail copying _)
  block scope inner drawn copying b := by
    rw [stmt_block]
    exact (drawn copying b).count (inner.places_toNode copying)
  localDecl scope id name ty init copying b := by
    rw [stmt_localDecl]
    refine (of_mention ((expr? scope copying (b.mention ty) init).pushAt id copying _ _
      rfl)).count fun tree => ?_
    rw [Tree.places_stmt]
    simp only [Tree.Stmt.id, Tree.Stmt.children, Tree.total_map]
    omega
  exprStmt scope id value copying b := by
    rw [stmt_exprStmt]
    refine (expr scope copying b value).count fun tree => ?_
    rw [Tree.places_stmt]
    simp only [Tree.Stmt.children, Tree.total_cons]
    omega
  ifElse scope id cond whenTrue whenFalse first second copying b := by
    have tested := expr scope copying b cond
    cases whenFalse with
    | none =>
        rw [stmt_ifElse_none]
        refine ((tested.trans (of_tips (first copying _))).to_tips _).count fun tree => ?_
        have one := whenTrue.places_toNode copying tree
        rw [Tree.places_stmt]
        simp only [Tree.Stmt.children, Tree.total_cons]
        omega
    | some block =>
        rw [stmt_ifElse_some]
        refine (((tested.trans (of_tips (first copying _))).trans
          (of_tips (second block rfl copying _))).to_tips _).count fun tree => ?_
        have one := whenTrue.places_toNode copying tree
        have two := block.places_toNode copying tree
        rw [Tree.places_stmt]
        simp only [Tree.Stmt.children, Option.toList_some, List.map_cons, List.map_nil,
          Tree.total_cons]
        omega
  whileLoop scope id cond body drawn copying b := by
    rw [stmt_whileLoop]
    have headed := (push b (.at id copying .loopHead []) rfl).trans (expr scope copying _ cond)
    have plain := (plain_push b (.at id copying .loopHead []) rfl).grow
      (Extends.expr scope copying _ cond).grows
    refine (headed.trans (looping plain (drawn copying))).count fun tree => ?_
    have inner := body.places_toNode copying tree
    rw [Tree.places_stmt, toNat_isOriginal_at]
    simp only [Tree.Stmt.id, Tree.Stmt.children, Tree.total_cons, Tree.total_nil]
    omega
  forLoop scope id init cond update body started drawn copying b := by
    rw [stmt_forLoop]
    have headed := ((started copying b).pushAt id copying .loopHead [] rfl).trans
      (expr? scope copying _ cond)
    have plain := (plain_push (stmts scope copying b init) (.at id copying .loopHead []) rfl).grow
      (Extends.expr? scope copying _ cond).grows
    refine (headed.trans (looping plain (drawn copying))).count fun tree => ?_
    have inner := body.places_toNode copying tree
    rw [Tree.places_stmt]
    simp only [Tree.Stmt.id, Tree.Stmt.children, Tree.total_append, Tree.total_map,
      Tree.total_cons, Tree.total_nil]
    omega
  returnValue scope id value left copying b := by
    rw [stmt_returnValue]
    have returned := ((expr? scope copying b value).pushAt id copying .returnValue
      (b.expr? scope copying value).1 rfl).trans (left 0 _)
    refine (returned.jump scope.offers_returns Exit.noConfusion _).count fun tree => ?_
    rw [Tree.places_stmt]
    simp only [Tree.Stmt.id, Tree.Stmt.children, Tree.total_map]
    omega
  breakLoop scope id left copying b := by
    cases found : scope.innermostLoop? with
    | none =>
        rw [stmt_breakLoop_outside scope copying b id found]
        exact ((refl b).to_tips []).count fun tree => Nat.zero_le _
    | some frame =>
        rw [stmt_breakLoop scope copying b id found]
        exact ((left (frame + 1) b).jump (Scope.offers_innermostLoop? found List.mem_cons_self)
          Exit.noConfusion _).count fun tree => Nat.zero_le _
  continueLoop scope id left copying b := by
    cases found : scope.innermostLoop? with
    | none =>
        rw [stmt_continueLoop_outside scope copying b id found]
        exact ((refl b).to_tips []).count fun tree => Nat.zero_le _
    | some frame =>
        rw [stmt_continueLoop scope copying b id found]
        exact ((left (frame + 1) b).jump (Scope.offers_innermostLoop? found
          (List.mem_cons_of_mem _ List.mem_cons_self)) Exit.noConfusion _).count
            fun tree => Nat.zero_le _
  throwValue scope id value copying b := by
    rw [stmt_throwValue]
    have drawn := expr scope copying b value
    have thrown := drawn.pushAt id copying .throwValue [(b.expr scope copying value).1] rfl
    refine ((thrown.to_tips []).raise (fresh_push drawn.grows _)).count fun tree => ?_
    rw [Tree.places_stmt]
    simp only [Tree.Stmt.id, Tree.Stmt.children, Tree.total_cons, Tree.total_nil]
    omega
  tryCatch scope id body catches cleanup drawn caught finished copying b := by
    have entered := enterCatches scope copying b catches
    cases cleanup with
    | none =>
        rw [stmt_tryCatch_none]
        refine (entered.trans (guarded (drawn _ copying) (caught copying))).count fun tree => ?_
        have inner := body.places_toNode copying tree
        have handled := Tree.total_places_catches copying catches tree
        rw [Tree.places_stmt]
        simp only [Tree.Stmt.children, Tree.total_cons, Tree.total_append, Tree.total_map]
        omega
    | some block =>
        rw [stmt_tryCatch_some]
        have copied : ∀ b, Adds scope (fun _ => 0) b (stmts scope true b block.stmts) := fun b =>
          (finished block rfl true b).congr fun tree => (Tree.total_places_true _ _ tree).symm
        refine (((entered.trans (guarded (drawn _ copying) (caught copying))).trans
          (cleaningUp copied)).trans (of_tips (finished block rfl copying _))).count fun tree => ?_
        have inner := body.places_toNode copying tree
        have handled := Tree.total_places_catches copying catches tree
        have last := block.places_toNode copying tree
        rw [Tree.places_stmt]
        simp only [Tree.Stmt.children, Option.toList_some, List.map_cons, List.map_nil,
          Tree.total_cons, Tree.total_nil, Tree.total_append, Tree.total_map]
        omega
  noClause scope copying b entries := by
    rw [clauses_nil]
    exact refl b
  clause scope clause rest drawn others copying b entries := by
    cases entries with
    | nil =>
        rw [clauses_noEntry]
        exact (refl b).count fun tree => Nat.zero_le _
    | cons entry entries =>
        rw [clauses_cons]
        exact (of_tips (drawn copying _)).trans (of_tips (others copying _ entries))
  unwound keep b := by
    rw [unwind_nil]
    exact refl b
  unwind frame outer drawn left keep b := by
    have further : ∀ exit, outer.Offers exit → Scope.Offers (frame :: outer) exit :=
      fun exit offers => Or.inr offers
    by_cases kept : outer.length < keep
    · rw [unwind_kept b frame outer kept]
      exact refl b
    · cases present : frame.cleanup? with
      | none =>
          rw [unwind_left b frame outer (Nat.le_of_not_lt kept) present]
          exact (left keep b).widen further
      | some block =>
          rw [unwind_cleanup b frame outer (Nat.le_of_not_lt kept) present]
          refine (((drawn block present true b).trans (left keep _)).widen further).count
            fun tree => ?_
          exact Nat.le_of_eq (Tree.total_places_true _ _ tree)

/-- Statements add an original for every place in them. -/
theorem stmts (scope : Scope) (copying : Bool) (b : Builder) (list : List Tree.Stmt) : Adds scope
    (fun tree => Tree.total (fun statement => (Tree.Node.stmt statement).places copying tree) list)
    b (b.stmts scope copying list) :=
  drawingCases.stmts scope list copying b

/-- Copied statements add no originals. -/
theorem copies (scope : Scope) (b : Builder) (list : List Tree.Stmt) :
    Adds scope (fun _ => 0) b (b.stmts scope true list) :=
  (stmts scope true b list).congr fun tree => (Tree.total_places_true _ _ tree).symm

/-- Catch clauses add an original for every place in their bodies. -/
theorem clauses (scope : Scope) (copying : Bool) (b : Builder) (entries : List Nat)
    (list : List Tree.Catch) : Adds scope
    (fun tree => Tree.total (fun clause => Tree.total (fun statement =>
      (Tree.Node.stmt statement).places copying tree) clause.body.stmts) list)
    b (b.clauses scope copying entries list) :=
  drawingCases.clauses scope list copying b entries

theorem params (b : Builder) (names : List String) :
    Adds scope (fun _ => 0) b (b.params names) :=
  params_keep (motive := Adds scope (fun _ => 0) b)
    (fun later name adds => adds.trans (push later (.implicit (.param name) []) rfl)) (refl b) names

theorem typedParams (b : Builder) (list : List Source.Param) :
    Adds scope (fun _ => 0) b
      (list.foldl (fun b param => (b.mention param.ty).params [param.name]) b) :=
  typedParams_keep (motive := Adds scope (fun _ => 0) b)
    (fun later name adds => adds.trans (push later (.implicit (.param name) []) rfl))
    (fun later ty adds => adds.trans (of_mention (refl (later.mention ty)))) (refl b) list

theorem block (b : Builder) (body : Tree.Block) :
    Adds [] (body.toNode.places false) b (b.stmts [] false body.stmts) :=
  (stmts [] false b body.stmts).count (body.places_toNode false)

end Adds

/-- How often a number occurs where the code of a fragment is drawn.  The initial value of
a field is stored at the field. -/
def codePlaces (code : Fragment.Code) (tree : Nat) : Nat :=
  Tree.total (fun body => body.places false tree) code.body?.toList +
    match code with
    | .fieldInitializer decl _ => Tree.isPlace false decl.id tree
    | _ => 0

/-- The code of a fragment adds an original for every place in it. -/
theorem Adds.code (b : Builder) (code : Fragment.Code) :
    Adds [] (codePlaces code) b (b.code code) := by
  match code with
  | .method decl =>
      have bound : Adds [] (fun _ => 0) b _ := typedParams b decl.params
      rw [Builder.code]
      cases present : decl.body with
      | none => exact bound.count fun tree => Nat.zero_le _
      | some body =>
          refine (bound.trans (block _ body)).count fun tree => ?_
          simp [codePlaces, Fragment.Code.body?, present]
  | .lambda id names (.block body) =>
      refine ((params b names).trans (block _ body)).count fun tree => ?_
      simp [codePlaces, Fragment.Code.body?, Tree.LambdaBody.toNode]
  | .lambda id names (.value result) =>
      have drawn : Adds [] _ b _ := (params b names).trans (expr [] false _ result)
      have returned := drawn.trans (push _
        (.implicit .returnValue [((b.params names).expr [] false result).1]) rfl)
      refine (returned.jump (Scope.offers_returns []) Exit.noConfusion _).count fun tree => ?_
      simp [codePlaces, Fragment.Code.body?, Tree.LambdaBody.toNode, Node.isOriginal, Node.implicit]
  | .initializer body =>
      refine (block b body).count fun tree => ?_
      simp [codePlaces, Fragment.Code.body?]
  | .fieldInitializer decl init =>
      refine ((of_mention (expr [] false (b.mention decl.ty) init)).pushAt decl.id false
        (.decl decl.name) _ rfl).count fun tree => ?_
      simp [codePlaces, Fragment.Code.body?]

end Builder

/-! ### Whole fragments -/

/-- Numbers that are given once mark once. -/
theorem marks_le_one {node : Tree.Node} (distinct : (node.preorder.map Tree.Node.id).Nodup)
    (tree : Nat) : node.marks tree ≤ 1 :=
  List.nodup_iff_count_le_one.1 (distinct.sublist (node.ownNodes_sublist.map Tree.Node.id)) tree

/-- No number occurs twice where the code of a fragment is drawn. -/
theorem codePlaces_le_one {unit : Source.CompilationUnit} {serial : Nat} {fragment : Fragment}
    (member : fragment ∈ (Tree.ofUnit unit serial).fragments) (tree : Nat) :
    Builder.codePlaces fragment.code tree ≤ 1 := by
  have inBody : Tree.total (fun body => body.places false tree) fragment.code.body?.toList ≤ 1 := by
    cases isBody : fragment.code.body? with
    | none => exact Nat.zero_le _
    | some body => exact marks_le_one (Fragment.nodup_ids_body member isBody) tree
  obtain ⟨inPaths, isCode⟩ := Fragment.mem_fragments.1 member
  cases shape : fragment.code with
  | fieldInitializer decl init =>
      -- the number of the field is not one of those below it
      rw [shape] at isCode
      obtain ⟨isField, present⟩ := Fragment.eq_of_classify_field isCode
      have distinct := (Tree.nodup_ids_ofUnit unit serial).sublist
        ((Tree.Node.preorder_sublist (Tree.leaf_mem_preorder inPaths)).map Tree.Node.id)
      have once : (Tree.Node.field decl).places false tree ≤ 1 := by
        rw [← isField]
        exact marks_le_one distinct tree
      rw [Tree.Node.places_eq, Nat.add_comm] at once
      simp only [Tree.Node.children, present] at once
      exact once
  | method | lambda | initializer =>
      rw [shape] at inBody
      exact inBody

/-- In the drawing of a fragment, no part of the tree has two nodes in its place. -/
theorem length_originals_draw {unit : Source.CompilationUnit} {serial : Nat} {fragment : Fragment}
    (member : fragment ∈ (Tree.ofUnit unit serial).fragments) (tree : Nat) :
    ((draw fragment).originals tree).length ≤ 1 := by
  have drawn := (Builder.Adds.code .start fragment.code).originals tree
  have started : (Builder.start.originals tree).length = 0 := Builder.originals_push {} _ tree
  rw [started, Nat.zero_add] at drawn
  exact Nat.le_trans drawn (codePlaces_le_one member tree)

/-- Behind all code of a fragment, nothing waits for a frame. -/
theorem parked_draw {fragment : Fragment} {entry : Exit × Tip}
    (member : entry ∈ (draw fragment).parked) : entry.1 = .returns ∨ entry.1 = .uncaught := by
  rcases (Builder.Adds.code .start fragment.code).exits entry member with old | ⟨offers, -⟩
  · cases old
  · exact offers

end Graph

end FragmentFlow
