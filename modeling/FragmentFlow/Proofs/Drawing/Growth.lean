import FragmentFlow.Proofs.Drawing.Recursion

/-!
# What drawing keeps

Drawing only adds: an edge stays, a node keeps what it evaluates, and a tip that is
parked outside a statement stays parked behind it.  Whatever is said about a part of
a graph when it is drawn therefore holds of the finished graph.
-/

namespace FragmentFlow.Graph

/-- A node without the numbers of its edges. -/
def Node.bare (node : Node) : Node :=
  { node with outgoing := [], incoming := [] }

namespace Builder

/-- What a node evaluates. -/
def bare? (b : Builder) (id : Nat) : Option Node :=
  b.nodes[id]?.map Node.bare

/-- Some edge leads from one node to another. -/
def Arrow (b : Builder) (source target : Nat) : Prop :=
  ∃ kind, { source, target, kind : Edge } ∈ b.edges

/-- Only the numbers below the size have nodes. -/
theorem lt_size_of_bare? {b : Builder} {id : Nat} {node : Node} (found : b.bare? id = some node) :
    id < b.nodes.size := by
  obtain ⟨inner, present, -⟩ := Option.map_eq_some_iff.1 found
  exact (Array.getElem?_eq_some_iff.1 present).1

theorem bare?_isSome {b : Builder} {id : Nat} (bound : id < b.nodes.size) :
    ∃ node, b.bare? id = some node :=
  ⟨_, Option.map_eq_some_iff.2 ⟨b.nodes[id], Array.getElem?_eq_getElem bound, rfl⟩⟩

/-! ### Nodes and edges one by one -/

theorem bare?_addNode (b : Builder) (node : Node) (id : Nat) :
    (b.addNode node).2.bare? id = if id = b.nodes.size then some node.bare else b.bare? id := by
  simp only [bare?, addNode, Canvas.addNode, Array.getElem?_push]
  split <;> rfl

@[simp] theorem edges_addNode (b : Builder) (node : Node) :
    (b.addNode node).2.edges = b.edges := rfl

theorem mem_edges_of_hasEdge {b : Builder} {edge : Edge} (present : b.hasEdge edge = true) :
    edge ∈ b.edges := by
  unfold Canvas.hasEdge at present
  split at present
  · obtain ⟨id, -, found⟩ := List.any_eq_true.1 present
    obtain ⟨bound, same⟩ := Array.getElem?_eq_some_iff.1 (eq_of_beq found)
    exact same ▸ Array.getElem_mem bound
  · cases present

theorem mem_edges_addEdge {b : Builder} {edge other : Edge} :
    other ∈ (b.addEdge edge).edges ↔ other ∈ b.edges ∨ other = edge := by
  unfold addEdge Canvas.addEdge
  split
  · rename_i present
    constructor
    · exact Or.inl
    · rintro (old | rfl)
      · exact old
      · exact mem_edges_of_hasEdge present
  · exact Array.mem_push

@[simp] theorem bare?_addEdge (b : Builder) (edge : Edge) (id : Nat) :
    (b.addEdge edge).bare? id = b.bare? id := by
  unfold addEdge Canvas.addEdge
  split
  · rfl
  · simp only [bare?, Array.getElem?_modify]
    cases b.nodes[id]? with
    | none => split <;> split <;> rfl
    | some node => split <;> split <;> rfl

@[simp] theorem size_addEdge (b : Builder) (edge : Edge) :
    (b.addEdge edge).nodes.size = b.nodes.size := by
  unfold addEdge Canvas.addEdge
  split
  · rfl
  · simp only [Array.size_modify]

@[simp] theorem tips_addEdge (b : Builder) (edge : Edge) : (b.addEdge edge).tips = b.tips :=
  rfl

@[simp] theorem parked_addEdge (b : Builder) (edge : Edge) :
    (b.addEdge edge).parked = b.parked :=
  rfl

/-- Several edges are added one after the other. -/
def addEdges (b : Builder) (edges : List Edge) : Builder :=
  edges.foldl addEdge b

theorem connect_eq (b : Builder) (tips : List Tip) (target : Nat) :
    b.connect tips target =
      b.addEdges (tips.map fun tip => { source := tip.source, target, kind := tip.kind }) := by
  rw [connect, addEdges, List.foldl_map]

theorem mem_edges_addEdges {b : Builder} {edges : List Edge} {other : Edge} :
    other ∈ (b.addEdges edges).edges ↔ other ∈ b.edges ∨ other ∈ edges := by
  induction edges generalizing b with
  | nil => simp [addEdges]
  | cons edge edges ih =>
      have unfolded : b.addEdges (edge :: edges) = (b.addEdge edge).addEdges edges := rfl
      rw [unfolded, ih, mem_edges_addEdge, List.mem_cons, or_assoc]

@[simp] theorem bare?_addEdges (b : Builder) (edges : List Edge) (id : Nat) :
    (b.addEdges edges).bare? id = b.bare? id := by
  induction edges generalizing b with
  | nil => rfl
  | cons edge edges ih => exact (ih (b.addEdge edge)).trans (bare?_addEdge b edge id)

@[simp] theorem size_addEdges (b : Builder) (edges : List Edge) :
    (b.addEdges edges).nodes.size = b.nodes.size := by
  induction edges generalizing b with
  | nil => rfl
  | cons edge edges ih => exact (ih (b.addEdge edge)).trans (size_addEdge b edge)

@[simp] theorem tips_addEdges (b : Builder) (edges : List Edge) :
    (b.addEdges edges).tips = b.tips := by
  induction edges generalizing b with
  | nil => rfl
  | cons edge edges ih => exact (ih (b.addEdge edge)).trans (tips_addEdge b edge)

@[simp] theorem parked_addEdges (b : Builder) (edges : List Edge) :
    (b.addEdges edges).parked = b.parked := by
  induction edges generalizing b with
  | nil => rfl
  | cons edge edges ih => exact (ih (b.addEdge edge)).trans (parked_addEdge b edge)

@[simp] theorem typeNames_addEdges (b : Builder) (edges : List Edge) :
    (b.addEdges edges).typeNames = b.typeNames := by
  induction edges generalizing b with
  | nil => rfl
  | cons edge edges ih => exact ih (b.addEdge edge)

@[simp] theorem parked_connect (b : Builder) (tips : List Tip) (target : Nat) :
    (b.connect tips target).parked = b.parked := by
  rw [connect_eq, parked_addEdges]

@[simp] theorem typeNames_connect (b : Builder) (tips : List Tip) (target : Nat) :
    (b.connect tips target).typeNames = b.typeNames := by
  rw [connect_eq, typeNames_addEdges]

/-! ### A node at the current place -/

@[simp] theorem push_fst (b : Builder) (node : Node) : (b.push node).1 = b.nodes.size := rfl

@[simp] theorem tips_push (b : Builder) (node : Node) :
    (b.push node).2.tips = [{ source := b.nodes.size, kind := .normal }] := rfl

theorem parked_push (b : Builder) (node : Node) : (b.push node).2.parked = b.parked := by
  change ((b.addNode node).2.connect b.tips b.nodes.size).parked = b.parked
  rw [connect_eq, parked_addEdges]
  rfl

@[simp] theorem typeNames_push (b : Builder) (node : Node) :
    (b.push node).2.typeNames = b.typeNames :=
  typeNames_connect _ _ _

theorem size_push (b : Builder) (node : Node) :
    (b.push node).2.nodes.size = b.nodes.size + 1 := by
  change ((b.addNode node).2.connect b.tips b.nodes.size).nodes.size = _
  rw [connect_eq, size_addEdges]
  exact Array.size_push ..

theorem bare?_push (b : Builder) (node : Node) (id : Nat) :
    (b.push node).2.bare? id = if id = b.nodes.size then some node.bare else b.bare? id := by
  change ((b.addNode node).2.connect b.tips b.nodes.size).bare? id = _
  rw [connect_eq, bare?_addEdges, bare?_addNode]

theorem bare?_push_self (b : Builder) (node : Node) :
    (b.push node).2.bare? b.nodes.size = some node.bare := by
  rw [bare?_push, if_pos rfl]

theorem mem_edges_push {b : Builder} {node : Node} {edge : Edge} :
    edge ∈ (b.push node).2.edges ↔ edge ∈ b.edges ∨
      ({ source := edge.source, kind := edge.kind } ∈ b.tips ∧ edge.target = b.nodes.size) := by
  change edge ∈ ((b.addNode node).2.connect b.tips b.nodes.size).edges ↔ _
  rw [connect_eq, mem_edges_addEdges, edges_addNode, List.mem_map]
  constructor
  · rintro (old | ⟨tip, member, rfl⟩)
    · exact Or.inl old
    · exact Or.inr ⟨member, rfl⟩
  · rintro (old | ⟨member, target⟩)
    · exact Or.inl old
    · exact Or.inr ⟨_, member, by rw [← target]⟩

/-! ### Raising -/

theorem raise_eq (b : Builder) (scope : Scope) (source : Nat) :
    b.raise scope source =
      { b with
        parked := b.parked ++ scope.route.2.toList.map fun exit =>
          (exit, ({ source, kind := .exception } : Tip)) }.addEdges
        (scope.route.1.map fun target => { source, target, kind := .exception }) := by
  rcases shape : scope.route with ⟨entries, exit⟩
  rw [raise, addEdges, List.foldl_map, shape]
  cases exit with
  | none => simp
  | some exit => rfl

theorem parked_raise (b : Builder) (scope : Scope) (source : Nat) :
    (b.raise scope source).parked = b.parked ++ scope.route.2.toList.map fun exit =>
      (exit, ({ source, kind := .exception } : Tip)) := by
  rw [raise_eq, parked_addEdges]

@[simp] theorem tips_raise (b : Builder) (scope : Scope) (source : Nat) :
    (b.raise scope source).tips = b.tips := by
  rw [raise_eq, tips_addEdges]

@[simp] theorem typeNames_raise (b : Builder) (scope : Scope) (source : Nat) :
    (b.raise scope source).typeNames = b.typeNames := by
  rw [raise_eq, typeNames_addEdges]

@[simp] theorem size_raise (b : Builder) (scope : Scope) (source : Nat) :
    (b.raise scope source).nodes.size = b.nodes.size := by
  rw [raise_eq, size_addEdges]

@[simp] theorem bare?_raise (b : Builder) (scope : Scope) (source id : Nat) :
    (b.raise scope source).bare? id = b.bare? id := by
  rw [raise_eq, bare?_addEdges]
  rfl

theorem mem_edges_raise {b : Builder} {scope : Scope} {source : Nat} {edge : Edge} :
    edge ∈ (b.raise scope source).edges ↔ edge ∈ b.edges ∨
      (edge.source = source ∧ edge.target ∈ scope.route.1 ∧ edge.kind = .exception) := by
  rw [raise_eq, mem_edges_addEdges, List.mem_map]
  constructor
  · rintro (old | ⟨target, member, rfl⟩)
    · exact Or.inl old
    · exact Or.inr ⟨rfl, member, rfl⟩
  · rintro (old | ⟨rfl, member, kind⟩)
    · exact Or.inl old
    · exact Or.inr ⟨edge.target, member, by rw [← kind]⟩

/-- Edges and tips are changed independently. -/
theorem addEdges_tips (b : Builder) (tips : List Tip) (edges : List Edge) :
    { b with tips }.addEdges edges = { b.addEdges edges with tips } := by
  induction edges generalizing b with
  | nil => rfl
  | cons edge edges ih => exact ih (b.addEdge edge)

/-- Other tips do not matter to an exception. -/
theorem raise_tips (b : Builder) (tips : List Tip) (scope : Scope) (source : Nat) :
    { b with tips }.raise scope source = { b.raise scope source with tips } := by
  rw [raise_eq, raise_eq]
  exact addEdges_tips { b with
    parked := b.parked ++ scope.route.2.toList.map fun exit =>
      (exit, ({ source, kind := .exception } : Tip)) } tips _

/-- Every catch clause has an entry. -/
theorem length_enterCatches (copying : Bool) (b : Builder) (clauses : List Tree.Catch) :
    (b.enterCatches copying clauses).1.length = clauses.length := by
  induction clauses generalizing b with
  | nil => rfl
  | cons clause clauses ih => exact congrArg Nat.succ (ih _)

/-! ### Growth -/

/-- One builder has the nodes and edges of another, and perhaps more. -/
structure Grows (b later : Builder) : Prop where
  edges : ∀ edge ∈ b.edges, edge ∈ later.edges
  nodes : ∀ id node, b.bare? id = some node → later.bare? id = some node

namespace Grows

variable {b later last : Builder}

theorem refl (b : Builder) : Grows b b :=
  ⟨fun _ member => member, fun _ _ found => found⟩

theorem trans (first : Grows b later) (second : Grows later last) : Grows b last :=
  ⟨fun edge member => second.edges edge (first.edges edge member),
    fun id node found => second.nodes id node (first.nodes id node found)⟩

/-- Only nodes and edges count. -/
theorem of_eq (nodes : later.nodes = b.nodes) (edges : later.edges = b.edges) : Grows b later :=
  ⟨fun _ member => edges ▸ member, fun id _ found => by rw [bare?, nodes]; exact found⟩

theorem size_le (grows : Grows b later) : b.nodes.size ≤ later.nodes.size := by
  refine Nat.le_of_not_lt fun smaller => ?_
  obtain ⟨node, found⟩ := bare?_isSome smaller
  exact Nat.lt_irrefl _ (lt_size_of_bare? (grows.nodes _ _ found))

/-- What a node evaluated before it still evaluates. -/
theorem bare?_of_lt (grows : Grows b later) {id : Nat} (old : id < b.nodes.size) {node : Node}
    (found : later.bare? id = some node) : b.bare? id = some node := by
  obtain ⟨other, present⟩ := bare?_isSome old
  rw [present, ← grows.nodes id other present, found]

/-- Arrows stay. -/
theorem arrow (grows : Grows b later) {source target : Nat} (arrow : b.Arrow source target) :
    later.Arrow source target :=
  arrow.imp fun _ member => grows.edges _ member

theorem addNode (b : Builder) (node : Node) : Grows b (b.addNode node).2 := by
  refine ⟨fun _ member => member, fun id other found => ?_⟩
  rw [bare?_addNode, if_neg (Nat.ne_of_lt (lt_size_of_bare? found))]
  exact found

theorem addEdges (b : Builder) (edges : List Edge) : Grows b (b.addEdges edges) :=
  ⟨fun _ member => mem_edges_addEdges.2 (Or.inl member),
    fun id _ found => (bare?_addEdges b edges id).trans found⟩

theorem connect (b : Builder) (tips : List Tip) (target : Nat) :
    Grows b (b.connect tips target) := by
  rw [connect_eq]
  exact addEdges b _

theorem push (b : Builder) (node : Node) : Grows b (b.push node).2 :=
  ((addNode b node).trans (connect _ b.tips b.nodes.size)).trans (of_eq rfl rfl)

theorem raise (b : Builder) (scope : Scope) (source : Nat) :
    Grows b (b.raise scope source) :=
  ⟨fun _ member => mem_edges_raise.2 (Or.inl member),
    fun id _ found => (bare?_raise b scope source id).trans found⟩

end Grows

/-- One builder has grown from another and still has what was parked there. -/
structure Extends (b later : Builder) : Prop where
  grows : Grows b later
  parked : ∀ entry ∈ b.parked, entry ∈ later.parked

namespace Extends

variable {b later last : Builder}

theorem refl (b : Builder) : Extends b b :=
  ⟨.refl b, fun _ member => member⟩

theorem trans (first : Extends b later) (second : Extends later last) : Extends b last :=
  ⟨first.grows.trans second.grows, fun entry member =>
    second.parked entry (first.parked entry member)⟩

/-- Tips and type names do not count. -/
theorem of_eq (nodes : later.nodes = b.nodes) (edges : later.edges = b.edges)
    (parked : later.parked = b.parked) : Extends b later :=
  ⟨.of_eq nodes edges, fun _ member => parked ▸ member⟩

/-- Other tips at the start do not count. -/
theorem of_tips {tips : List Tip} (drawn : Extends { b with tips } later) : Extends b later :=
  ⟨⟨drawn.grows.edges, drawn.grows.nodes⟩, drawn.parked⟩

/-- Other tips at the end do not count. -/
theorem to_tips (tips : List Tip) (drawn : Extends b later) : Extends b { later with tips } :=
  ⟨⟨drawn.grows.edges, drawn.grows.nodes⟩, drawn.parked⟩

theorem of_mention {ty : String} (drawn : Extends (b.mention ty) later) : Extends b later :=
  ⟨⟨drawn.grows.edges, drawn.grows.nodes⟩, drawn.parked⟩

theorem push (b : Builder) (node : Node) : Extends b (b.push node).2 :=
  ⟨.push b node, fun _ member => (parked_push b node).symm ▸ member⟩

theorem connect (b : Builder) (tips : List Tip) (target : Nat) :
    Extends b (b.connect tips target) := by
  refine ⟨.connect b tips target, fun entry member => ?_⟩
  rw [connect_eq, parked_addEdges]
  exact member

theorem raise (b : Builder) (scope : Scope) (source : Nat) :
    Extends b (b.raise scope source) := by
  refine ⟨.raise b scope source, fun entry member => ?_⟩
  rw [parked_raise]
  exact List.mem_append_left _ member

/-- Parking tips extends the drawing. -/
theorem park (b : Builder) (exit : Exit) (tips : List Tip) : Extends b (b.park exit tips) :=
  ⟨.of_eq rfl rfl, fun _ member => List.mem_append_left _ member⟩

theorem jump (b : Builder) (exit : Exit) (kind : EdgeKind) : Extends b (b.jump exit kind) :=
  (park b exit _).trans (of_eq rfl rfl rfl)

/-- Leaving a frame brings back what was parked before it. -/
theorem leaveFrame {tips : List Tip} {parked : List (Exit × Tip)}
    (drawn : Extends { b with tips, parked } later) (ending : List Exit) :
    Extends b (later.leaveFrame b.parked ending) :=
  ⟨⟨drawn.grows.edges, drawn.grows.nodes⟩, fun _ member => List.mem_append_left _ member⟩

/-! ### Growth of drawn code -/

mutual

/-- An expression extends the drawing. -/
theorem expr (scope : Scope) (copying : Bool) (b : Builder) (value : Tree.Expr) :
    Extends b (b.expr scope copying value).2 := by
  match value with
  | .literal id value => exact push b _
  | .ident id name => exact push b _
  | .assign id target value => exact (expr scope copying b value).trans (push _ _)
  | .binary id op lhs rhs =>
      have left := expr scope copying b lhs
      rw [Builder.expr]
      dsimp only
      split
      · exact (left.trans (of_tips (expr scope copying _ rhs))).trans (of_tips (push _ _))
      · have drawn := left.trans (expr scope copying _ rhs)
        split
        · exact (drawn.trans (push _ _)).trans (raise _ scope _)
        · exact drawn.trans (push _ _)
  | .unary id op operand => exact (expr scope copying b operand).trans (push _ _)
  | .conditional id cond whenTrue whenFalse =>
      exact (((expr scope copying b cond).trans (of_tips (expr scope copying _ whenTrue))).trans
        (of_tips (expr scope copying _ whenFalse))).trans (of_tips (push _ _))
  | .call id callee args =>
      exact ((exprs scope copying b args).trans (push _ _)).trans (raise _ scope _)
  | .new id ty args =>
      exact (of_mention ((exprs scope copying (b.mention ty) args).trans (push _ _))).trans
        (raise _ scope _)
  | .lambda id params body => exact push b _

theorem exprs (scope : Scope) (copying : Bool) (b : Builder) (values : List Tree.Expr) :
    Extends b (b.exprs scope copying values).2 := by
  match values with
  | [] => exact refl b
  | value :: values =>
      exact (expr scope copying b value).trans
        (exprs scope copying (b.expr scope copying value).2 values)

end

theorem expr? (scope : Scope) (copying : Bool) (b : Builder) (value : Option Tree.Expr) :
    Extends b (b.expr? scope copying value).2 := by
  cases value with
  | none => exact refl b
  | some value => exact expr scope copying b value

theorem enterCatches (copying : Bool) (b : Builder) (clauses : List Tree.Catch) :
    Extends b (b.enterCatches copying clauses).2 := by
  induction clauses generalizing b with
  | nil => exact refl b
  | cons clause clauses ih =>
      have added : Extends (b.mention clause.ty) ((b.mention clause.ty).addNode
          (.at clause.id copying (.catchParam clause.name clause.ty) [])).2 :=
        ⟨.addNode _ _, fun _ member => member⟩
      exact (of_mention added).trans (ih _)

/-- A loop brings back what was parked before its body. -/
theorem looping {scope : Scope} {copying : Bool} {b : Builder} {tips exits : List Tip}
    {head : Nat} {update : List Tree.Expr} {body : Tree.Block}
    (drawn : ∀ b, Extends b (stmts (.loop :: scope) copying b body.stmts)) :
    Extends b (b.looping scope copying tips exits head update body) := by
  have left : Extends b ((stmts (.loop :: scope) copying { b with tips, parked := [] }
      body.stmts).leaveFrame b.parked [.breaks scope.length, .continues scope.length]) :=
    leaveFrame (drawn _) _
  exact ((left.trans (of_tips (exprs scope copying _ update))).trans (connect _ _ head)).to_tips _

/-- A `try` brings back what was parked before its body. -/
theorem guarded {scope : Scope} {copying : Bool} {b : Builder} {handlers : List Handler}
    {body : Tree.Block} {catches : List Tree.Catch} {cleanup : Option Tree.Block}
    (drawn : ∀ b, Extends b (stmts (.region handlers cleanup :: scope) copying b body.stmts))
    (caught : ∀ b entries,
      Extends b (clauses (.region [] cleanup :: scope) copying b entries catches))
    (ending : List Exit) :
    Extends b ((b.guarded scope copying handlers body catches cleanup).leaveFrame b.parked
      ending) :=
  leaveFrame ((drawn _).trans (caught _ _)) ending

theorem cleaningUp {scope : Scope} {b : Builder} {raised : List Tip} {block : Tree.Block}
    (drawn : ∀ b, Extends b (stmts scope true b block.stmts)) :
    Extends b (b.cleaningUp scope raised block) := by
  unfold Builder.cleaningUp
  split
  · exact refl b
  · exact ((of_tips (drawn _)).trans (push _ _)).trans (raise _ scope _)

/-- Each statement extends the drawing if its parts do. -/
theorem drawingCases : DrawingCases
    (fun scope list => ∀ copying b, Extends b (stmts scope copying b list))
    (fun scope statement => ∀ copying b, Extends b (stmt scope copying b statement))
    (fun scope list => ∀ copying b entries, Extends b (clauses scope copying b entries list))
    (fun scope => ∀ keep b, Extends b (unwind scope keep b)) where
  nil scope copying b := by
    rw [stmts_nil]
    exact refl b
  cons scope first rest head tail copying b := by
    rw [stmts_cons]
    exact (head copying b).trans (tail copying _)
  block scope inner drawn copying b := by
    rw [stmt_block]
    exact drawn copying b
  localDecl scope id name ty init copying b := by
    rw [stmt_localDecl]
    exact of_mention ((expr? scope copying (b.mention ty) init).trans (push _ _))
  exprStmt scope id value copying b := by
    rw [stmt_exprStmt]
    exact expr scope copying b value
  ifElse scope id cond whenTrue whenFalse first second copying b := by
    have tested := expr scope copying b cond
    cases whenFalse with
    | none =>
        rw [stmt_ifElse_none]
        exact (tested.trans (of_tips (first copying _))).to_tips _
    | some block =>
        rw [stmt_ifElse_some]
        exact ((tested.trans (of_tips (first copying _))).trans
          (of_tips (second block rfl copying _))).to_tips _
  whileLoop scope id cond body drawn copying b := by
    rw [stmt_whileLoop]
    exact ((push b _).trans (expr scope copying _ cond)).trans (looping (drawn copying))
  forLoop scope id init cond update body started drawn copying b := by
    rw [stmt_forLoop]
    exact (((started copying b).trans (push _ _)).trans (expr? scope copying _ cond)).trans
      (looping (drawn copying))
  returnValue scope id value left copying b := by
    rw [stmt_returnValue]
    exact (((expr? scope copying b value).trans (push _ _)).trans (left 0 _)).trans (jump _ _ _)
  breakLoop scope id left copying b := by
    cases found : scope.innermostLoop? with
    | none =>
        rw [stmt_breakLoop_outside scope copying b id found]
        exact (refl b).to_tips []
    | some frame =>
        rw [stmt_breakLoop scope copying b id found]
        exact (left (frame + 1) b).trans (jump _ _ _)
  continueLoop scope id left copying b := by
    cases found : scope.innermostLoop? with
    | none =>
        rw [stmt_continueLoop_outside scope copying b id found]
        exact (refl b).to_tips []
    | some frame =>
        rw [stmt_continueLoop scope copying b id found]
        exact (left (frame + 1) b).trans (jump _ _ _)
  throwValue scope id value copying b := by
    rw [stmt_throwValue]
    exact ((expr scope copying b value).trans (push _ _)).trans (of_tips (raise _ scope _))
  tryCatch scope id body catches cleanup drawn caught finished copying b := by
    have entered := enterCatches copying b catches
    cases cleanup with
    | none =>
        rw [stmt_tryCatch_none]
        exact entered.trans (guarded (drawn _ copying) (caught copying) _)
    | some block =>
        rw [stmt_tryCatch_some]
        exact ((entered.trans (guarded (drawn _ copying) (caught copying) _)).trans
          (cleaningUp (finished block rfl true))).trans (of_tips (finished block rfl copying _))
  noClause scope copying b entries := by
    rw [clauses_nil]
    exact refl b
  clause scope clause rest drawn others copying b entries := by
    cases entries with
    | nil =>
        rw [clauses_noEntry]
        exact refl b
    | cons entry entries =>
        rw [clauses_cons]
        exact (of_tips (drawn copying _)).trans (of_tips (others copying _ entries))
  unwound keep b := by
    rw [unwind_nil]
    exact refl b
  unwind frame outer drawn left keep b := by
    by_cases kept : outer.length < keep
    · rw [unwind_kept b frame outer kept]
      exact refl b
    · cases present : frame.cleanup? with
      | none =>
          rw [unwind_left b frame outer (Nat.le_of_not_lt kept) present]
          exact left keep b
      | some block =>
          rw [unwind_cleanup b frame outer (Nat.le_of_not_lt kept) present]
          exact (drawn block present true b).trans (left keep _)

/-- Statements extend the drawing. -/
theorem stmts (scope : Scope) (copying : Bool) (b : Builder) (list : List Tree.Stmt) :
    Extends b (b.stmts scope copying list) :=
  drawingCases.stmts scope list copying b

/-- Catch clauses extend the drawing. -/
theorem clauses (scope : Scope) (copying : Bool) (b : Builder) (entries : List Nat)
    (list : List Tree.Catch) : Extends b (b.clauses scope copying entries list) :=
  drawingCases.clauses scope list copying b entries

/-- Unwinding extends the drawing. -/
theorem unwind (scope : Scope) (keep : Nat) (b : Builder) : Extends b (b.unwind scope keep) :=
  drawingCases.unwinding scope keep b

theorem params (b : Builder) (names : List String) : Extends b (b.params names) :=
  params_keep (motive := Extends b) (fun later _ drawn => drawn.trans (push later _)) (refl b) names

theorem typedParams (b : Builder) (list : List Source.Param) :
    Extends b (list.foldl (fun b param => (b.mention param.ty).params [param.name]) b) :=
  typedParams_keep (motive := Extends b) (fun later _ drawn => drawn.trans (push later _))
    (fun _ _ drawn => drawn.trans (of_eq rfl rfl rfl)) (refl b) list

end Extends

end Builder

end FragmentFlow.Graph
