import FragmentFlow.Proofs.Drawing.Growth

/-!
# The steps of drawing

Whatever is drawn, it is drawn in two kinds of steps: a new node is added and entered
from nodes that exist, or an edge is added that leads back to a loop head or on to the
entry of a catch clause that has not been left yet.  A node that uses values is
entered only from where its operands were evaluated.  What holds of every graph is
proved of the steps.
-/

namespace FragmentFlow.Graph

namespace Action

/-- Whether a node evaluates an expression and so has a value. -/
def isValued : Action → Bool
  | literal _ | ident _ | assign _ | binary _ | unary _ | conditional | call _ | new _
  | lambda => true
  | _ => false

/-- Whether a node has at most one operand whose value it uses. -/
def usesOne : Action → Bool
  | assign _ | unary _ | decl _ => true
  | _ => false

/-- Whether the values of the operands matter. -/
def usesOperands : Action → Bool
  | assign _ | unary _ | decl _ | binary _ | conditional => true
  | _ => false

/-- Whether a node is entered from places that are drawn after it. -/
def isJoin : Action → Bool
  | loopHead | catchParam .. => true
  | _ => false

theorem isJoin_of_isValued {action : Action} (valued : action.isValued = true) :
    action.isJoin = false := by
  cases action <;> first | rfl | cases valued

theorem isJoin_of_usesOperands {action : Action} (uses : action.usesOperands = true) :
    action.isJoin = false := by
  cases action <;> first | rfl | cases uses

end Action

namespace EdgeKind

/-- The edge on which the right operand of a short-circuit operator is evaluated. -/
def evaluating (op : BinaryOp) : EdgeKind :=
  if op = .and then onTrue else onFalse

/-- The edge on which the right operand of a short-circuit operator is skipped. -/
def skipping (op : BinaryOp) : EdgeKind :=
  if op = .and then onFalse else onTrue

end EdgeKind

namespace Builder

/-- A node evaluates an expression. -/
def Valued (b : Builder) (id : Nat) : Prop :=
  ∃ node, b.bare? id = some node ∧ node.action.isValued = true

/-- A node is a place where control comes together. -/
def Joins (b : Builder) (id : Nat) : Prop :=
  ∃ node, b.bare? id = some node ∧ node.action.isJoin = true

/-- A node with a value joins nothing. -/
theorem Valued.not_joins {b : Builder} {id : Nat} (valued : b.Valued id) : ¬ b.Joins id := by
  rintro ⟨node, found, joins⟩
  obtain ⟨other, same, isValued⟩ := valued
  cases found.symm.trans same
  rw [Action.isJoin_of_isValued isValued] at joins
  cases joins

/-- A node with a value keeps it. -/
theorem Valued.grow {b later : Builder} {id : Nat} (valued : b.Valued id)
    (grows : Grows b later) : later.Valued id :=
  valued.imp fun _ found => ⟨grows.nodes _ _ found.1, found.2⟩

/-- The nodes behind `low` up to `high` evaluate expressions, and control comes to
them only by one kind of edge from one node. -/
structure Sealed (b : Builder) (low high source : Nat) (kind : EdgeKind) : Prop where
  valued : ∀ id, low < id → id ≤ high → b.Valued id
  linked : ∀ id, low < id → id ≤ high → ∃ edge ∈ b.edges, edge.target = id
  entered : ∀ edge ∈ b.edges, low < edge.target → edge.target ≤ high →
    (low < edge.source ∧ edge.source ≤ high) ∨ (edge.source = source ∧ edge.kind = kind)

/-- The operands of an action and the tips at which it is drawn. -/
inductive Shape (b : Builder) : Action → List Nat → List Tip → Prop
  | plain {action : Action} {operands : List Nat} {tips : List Tip} :
      action.usesOperands = false → (∀ operand ∈ operands, b.Valued operand) →
        Shape b action operands tips
  | bare {name : String} {tips : List Tip} : Shape b (.decl name) [] tips
  | one {action : Action} {operand : Nat} :
      action.usesOne = true → b.Valued operand →
        Shape b action [operand] [⟨operand, .normal⟩]
  | strict {op : BinaryOp} {left right : Nat} :
      op.isShortCircuit = false → left < right → b.Valued left →
        b.Sealed left right left .normal →
          Shape b (.binary op) [left, right] [⟨right, .normal⟩]
  | shortCircuit {op : BinaryOp} {left right : Nat} :
      op.isShortCircuit = true → left < right → b.Valued left →
        b.Sealed left right left (.evaluating op) →
          Shape b (.binary op) [left, right] [⟨right, .normal⟩, ⟨left, .skipping op⟩]
  | conditional {test first second : Nat} :
      test < first → first < second → b.Valued test → b.Sealed test first test .onTrue →
        b.Sealed first second test .onFalse →
          Shape b .conditional [test, first, second] [⟨first, .normal⟩, ⟨second, .normal⟩]

/-- An action without operands is drawn anywhere. -/
theorem Shape.alone {b : Builder} {action : Action} (unused : action.usesOperands = false)
    (tips : List Tip) : b.Shape action [] tips :=
  .plain unused fun _ member => nomatch member

/-- An edge may be added between nodes that exist. -/
inductive Accepts (b : Builder) (edge : Edge) : Prop
  | loop {node : Node} :
      b.bare? edge.target = some node → node.action = .loopHead → edge.target ≤ edge.source →
        Accepts b edge
  | clause {node : Node} {name ty : String} :
      b.bare? edge.target = some node → node.action = .catchParam name ty →
        edge.source ≠ edge.target → (∀ other ∈ b.edges, other.source ≠ edge.target) →
          Accepts b edge

/-- An edge is accepted where control joins. -/
theorem Accepts.joins {b : Builder} {edge : Edge} (accepts : b.Accepts edge) :
    b.Joins edge.target := by
  cases accepts with
  | loop found isLoop _ => exact ⟨_, found, by rw [isLoop]; rfl⟩
  | clause found isClause _ _ => exact ⟨_, found, by rw [isClause]; rfl⟩

/-- A builder is drawn from another one step by step. -/
inductive Draws (first : Builder) : Builder → Prop
  | refl : Draws first first
  /-- The current place moves. -/
  | moved {b later : Builder} :
      Draws first b → later.nodes = b.nodes → later.edges = b.edges → later.index = b.index →
        Draws first later
  /-- A node is added where some tips end. -/
  | grown {b : Builder} {node : Node} {tips : List Tip} :
      Draws first b → node.bare = node → (∀ tip ∈ tips, tip.source < b.nodes.size) →
        b.Shape node.action node.operands tips →
          Draws first ((b.addNode node).2.connect tips b.nodes.size)
  /-- An edge is added. -/
  | linked {b : Builder} {edge : Edge} :
      Draws first b → edge.source < b.nodes.size → b.Accepts edge → Draws first (b.addEdge edge)

/-! ### The nodes and edges of a step -/

theorem bare?_connect (b : Builder) (tips : List Tip) (target id : Nat) :
    (b.connect tips target).bare? id = b.bare? id := by
  rw [connect_eq, bare?_addEdges]

theorem size_connect (b : Builder) (tips : List Tip) (target : Nat) :
    (b.connect tips target).nodes.size = b.nodes.size := by
  rw [connect_eq, size_addEdges]

theorem mem_edges_connect {b : Builder} {tips : List Tip} {target : Nat} {edge : Edge} :
    edge ∈ (b.connect tips target).edges ↔ edge ∈ b.edges ∨
      ({ source := edge.source, kind := edge.kind } ∈ tips ∧ edge.target = target) := by
  rw [connect_eq, mem_edges_addEdges, List.mem_map]
  constructor
  · rintro (old | ⟨tip, member, rfl⟩)
    · exact Or.inl old
    · exact Or.inr ⟨member, rfl⟩
  · rintro (old | ⟨member, rfl⟩)
    · exact Or.inl old
    · exact Or.inr ⟨_, member, rfl⟩

theorem bare?_of_eq {b later : Builder} (nodes : later.nodes = b.nodes) (id : Nat) :
    later.bare? id = b.bare? id := by
  rw [bare?, nodes, bare?]

namespace Draws

variable {first b later : Builder}

theorem trans (start : Draws first b) (next : Draws b later) : Draws first later := by
  induction next with
  | refl => exact start
  | moved _ nodes edges index ih => exact .moved ih nodes edges index
  | grown _ isBare bound shape ih => exact .grown ih isBare bound shape
  | linked _ bound accepts ih => exact .linked ih bound accepts

/-- Tips and type names at the start do not count. -/
theorem of_eq (draws : Draws b later) (nodes : b.nodes = first.nodes)
    (edges : b.edges = first.edges) (index : b.index = first.index) : Draws first later :=
  (Draws.moved .refl nodes edges index).trans draws

/-- A drawing grows. -/
theorem grows (draws : Draws first b) : Grows first b := by
  induction draws with
  | refl => exact .refl first
  | moved _ nodes edges _ ih => exact ih.trans (.of_eq nodes edges)
  | grown _ _ _ _ ih => exact (ih.trans (.addNode _ _)).trans (.connect _ _ _)
  | linked _ _ _ ih => exact ih.trans (.addEdges _ [_])

/-- An edge that is drawn between older nodes ends where control comes together. -/
theorem new_edge (draws : Draws first b) {edge : Edge} (member : edge ∈ b.edges) :
    edge ∈ first.edges ∨ first.nodes.size ≤ edge.target ∨ b.Joins edge.target := by
  induction draws with
  | refl => exact Or.inl member
  | @moved b later draws nodes edges _ ih =>
      rcases ih (edges ▸ member) with old | fresh | ⟨node, found, joins⟩
      · exact Or.inl old
      · exact Or.inr (Or.inl fresh)
      · exact Or.inr (Or.inr ⟨node, (bare?_of_eq nodes _).trans found, joins⟩)
  | @grown b node tips draws _ _ _ ih =>
      rcases mem_edges_connect.1 member with before | ⟨-, target⟩
      · rcases ih before with old | fresh | joins
        · exact Or.inl old
        · exact Or.inr (Or.inl fresh)
        · refine Or.inr (Or.inr (joins.imp fun _ found => ⟨?_, found.2⟩))
          exact (Grows.connect _ tips _).nodes _ _ ((Grows.addNode b node).nodes _ _ found.1)
      · exact Or.inr (Or.inl (target ▸ draws.grows.size_le))
  | @linked b new draws _ accepts ih =>
      have kept : ∀ {id}, b.Joins id → (b.addEdge new).Joins id := fun joins =>
        joins.imp fun _ found => ⟨(bare?_addEdge b new _).trans found.1, found.2⟩
      rcases mem_edges_addEdge.1 member with before | rfl
      · rcases ih before with old | fresh | joins
        · exact Or.inl old
        · exact Or.inr (Or.inl fresh)
        · exact Or.inr (Or.inr (kept joins))
      · exact Or.inr (Or.inr (kept accepts.joins))

end Draws

/-- What is sealed stays sealed. -/
theorem Sealed.draws {first b : Builder} {low high source : Nat} {kind : EdgeKind}
    (isSealed : first.Sealed low high source kind) (draws : Draws first b)
    (bound : high < first.nodes.size) : b.Sealed low high source kind where
  valued id above below := (isSealed.valued id above below).grow draws.grows
  linked id above below := by
    obtain ⟨edge, member, target⟩ := isSealed.linked id above below
    exact ⟨edge, draws.grows.edges edge member, target⟩
  entered edge member above below := by
    rcases draws.new_edge member with old | fresh | joins
    · exact isSealed.entered edge old above below
    · exact absurd (Nat.lt_of_le_of_lt below bound) (Nat.not_lt.2 fresh)
    · exact absurd joins ((isSealed.valued _ above below).grow draws.grows).not_joins

theorem Valued.lt_size {b : Builder} {id : Nat} (valued : b.Valued id) : id < b.nodes.size :=
  lt_size_of_bare? valued.choose_spec.1

/-- The last node of a sealed span is a node. -/
theorem Sealed.high_lt {b : Builder} {low high source : Nat} {kind : EdgeKind}
    (isSealed : b.Sealed low high source kind) (less : low < high) : high < b.nodes.size :=
  (isSealed.valued high less (Nat.le_refl high)).lt_size

/-- A node of the right shape keeps it. -/
theorem Shape.draws {first b : Builder} {action : Action} {operands : List Nat}
    {tips : List Tip} (shape : first.Shape action operands tips) (draws : Draws first b) :
    b.Shape action operands tips := by
  cases shape with
  | plain unused valued => exact .plain unused fun operand member =>
      (valued operand member).grow draws.grows
  | bare => exact .bare
  | one uses valued => exact .one uses (valued.grow draws.grows)
  | strict isStrict less valued right =>
      exact .strict isStrict less (valued.grow draws.grows)
        (right.draws draws (right.high_lt less))
  | shortCircuit isShort less valued right =>
      exact .shortCircuit isShort less (valued.grow draws.grows)
        (right.draws draws (right.high_lt less))
  | conditional less more valued whenTrue whenFalse =>
      exact .conditional less more (valued.grow draws.grows)
        (whenTrue.draws draws (whenTrue.high_lt less))
        (whenFalse.draws draws (whenFalse.high_lt more))

/-- All operands evaluate expressions. -/
theorem Shape.valued {b : Builder} {action : Action} {operands : List Nat} {tips : List Tip}
    (shape : b.Shape action operands tips) : ∀ operand ∈ operands, b.Valued operand := by
  cases shape with
  | plain _ valued => exact valued
  | bare => exact fun _ member => nomatch member
  | one _ valued => simpa using valued
  | strict _ less left right => simpa using ⟨left, right.valued _ less (Nat.le_refl _)⟩
  | shortCircuit _ less left right => simpa using ⟨left, right.valued _ less (Nat.le_refl _)⟩
  | conditional less more test whenTrue whenFalse =>
      simpa using ⟨test, whenTrue.valued _ less (Nat.le_refl _),
        whenFalse.valued _ more (Nat.le_refl _)⟩

/-- A builder that is drawn from nothing. -/
abbrev Drawn (b : Builder) : Prop := Draws {} b

/-! ### Where the nodes of a graph stand -/

namespace Drawn

/-- Edges connect nodes. -/
theorem edge_bounds {b : Builder} (drawn : Drawn b) {edge : Edge} (member : edge ∈ b.edges) :
    edge.source < b.nodes.size ∧ edge.target < b.nodes.size := by
  induction drawn with
  | refl => cases Array.not_mem_empty _ member
  | moved _ nodes edges _ ih => exact nodes ▸ ih (edges ▸ member)
  | @grown b node tips draws _ bound _ ih =>
      rw [size_connect, show (b.addNode node).2.nodes.size = b.nodes.size + 1 from
        Array.size_push ..]
      rcases mem_edges_connect.1 member with old | ⟨tip, target⟩
      · obtain ⟨source, target⟩ := ih old
        exact ⟨Nat.lt_succ_of_lt source, Nat.lt_succ_of_lt target⟩
      · exact ⟨Nat.lt_succ_of_lt (bound _ tip), target ▸ Nat.lt_succ_self _⟩
  | linked _ bound accepts ih =>
      rw [size_addEdge]
      rcases mem_edges_addEdge.1 member with old | rfl
      · exact ih old
      · exact ⟨bound, lt_size_of_bare? accepts.joins.choose_spec.1⟩

/-- The first node is entered only if it is drawn for that. -/
theorem joins_first {b : Builder} (drawn : Drawn b) {edge : Edge} (member : edge ∈ b.edges)
    (first : edge.target = 0) : b.Joins 0 := by
  induction drawn with
  | refl => cases Array.not_mem_empty _ member
  | moved _ nodes edges _ ih =>
      obtain ⟨node, found, joins⟩ := ih (edges ▸ member)
      exact ⟨node, (bare?_of_eq nodes 0).trans found, joins⟩
  | @grown b node tips draws _ bound _ ih =>
      rcases mem_edges_connect.1 member with old | ⟨tip, target⟩
      · obtain ⟨other, found, joins⟩ := ih old
        exact ⟨other, (Grows.connect _ tips _).nodes _ _ ((Grows.addNode b node).nodes _ _ found),
          joins⟩
      · have before := bound _ tip
        omega
  | @linked b new draws _ accepts ih =>
      have joins : b.Joins 0 := by
        rcases mem_edges_addEdge.1 member with old | rfl
        · exact ih old
        · exact first ▸ accepts.joins
      exact joins.imp fun _ found => ⟨(bare?_addEdge b new 0).trans found.1, found.2⟩

/-- Edges lead on to later nodes, except where control comes together. -/
theorem source_lt_target {b : Builder} (drawn : Drawn b) {edge : Edge} (member : edge ∈ b.edges) :
    edge.source < edge.target ∨ b.Joins edge.target := by
  induction drawn with
  | refl => cases Array.not_mem_empty _ member
  | moved _ nodes edges _ ih =>
      refine (ih (edges ▸ member)).imp_right fun joins => joins.imp fun _ found => ?_
      exact ⟨(bare?_of_eq nodes _).trans found.1, found.2⟩
  | @grown b node tips draws _ bound _ ih =>
      rcases mem_edges_connect.1 member with old | ⟨tip, target⟩
      · refine (ih old).imp_right fun joins => joins.imp fun _ found => ⟨?_, found.2⟩
        exact (Grows.connect _ tips _).nodes _ _ ((Grows.addNode b node).nodes _ _ found.1)
      · exact Or.inl (target ▸ bound _ tip)
  | @linked b new draws _ accepts ih =>
      have kept : b.Joins edge.target → (b.addEdge new).Joins edge.target := fun joins =>
        joins.imp fun _ found => ⟨(bare?_addEdge b new _).trans found.1, found.2⟩
      rcases mem_edges_addEdge.1 member with old | rfl
      · exact (ih old).imp_right kept
      · exact Or.inr (kept accepts.joins)

/-- Operands are evaluated before the nodes that use them. -/
theorem operand_lt {b : Builder} (drawn : Drawn b) {id : Nat} {node : Node}
    (found : b.bare? id = some node) : ∀ operand ∈ node.operands, operand < id := by
  induction drawn with
  | refl => cases found
  | moved _ nodes _ _ ih => exact ih ((bare?_of_eq nodes id).symm.trans found)
  | @grown b new tips _ isBare _ shape ih =>
      rw [bare?_connect, bare?_addNode] at found
      split at found
      · rename_i isNew
        cases found
        rw [isBare, isNew]
        exact fun operand member => (shape.valued operand member).lt_size
      · exact ih found
  | linked _ _ _ ih =>
      rw [bare?_addEdge] at found
      exact ih found

/-- The edges into a node that uses its operands are those at which it was drawn. -/
theorem shaped {b : Builder} (drawn : Drawn b) {id : Nat} {node : Node}
    (found : b.bare? id = some node) (uses : node.action.usesOperands = true) :
    ∃ tips, b.Shape node.action node.operands tips ∧
      ∀ source kind, ⟨source, id, kind⟩ ∈ b.edges ↔ ⟨source, kind⟩ ∈ tips := by
  induction drawn with
  | refl => cases found
  | moved draws nodes edges index ih =>
      obtain ⟨tips, shape, entered⟩ := ih ((bare?_of_eq nodes id).symm.trans found)
      exact ⟨tips, shape.draws (.moved .refl nodes edges index), fun source kind =>
        edges ▸ entered source kind⟩
  | @grown b new tips draws isBare bound shape ih =>
      have next : Draws b ((b.addNode new).2.connect tips b.nodes.size) :=
        .grown .refl isBare bound shape
      rw [bare?_connect, bare?_addNode] at found
      split at found
      · rename_i isNew
        cases found
        rw [isBare]
        refine ⟨tips, shape.draws next, fun source kind => ?_⟩
        have unentered : ⟨source, id, kind⟩ ∉ b.edges := fun old =>
          Nat.ne_of_lt (Drawn.edge_bounds draws old).2 isNew
        rw [mem_edges_connect, edges_addNode, or_iff_right unentered]
        exact and_iff_left isNew
      · rename_i isOld
        obtain ⟨tips, shape, entered⟩ := ih found
        refine ⟨tips, shape.draws next, fun source kind => ?_⟩
        rw [mem_edges_connect, edges_addNode, or_iff_left fun new => isOld new.2]
        exact entered source kind
  | @linked b new draws bound accepts ih =>
      rw [bare?_addEdge] at found
      obtain ⟨tips, shape, entered⟩ := ih found
      refine ⟨tips, shape.draws (.linked .refl bound accepts), fun source kind => ?_⟩
      have elsewhere : (⟨source, id, kind⟩ : Edge) ≠ new := by
        rintro rfl
        obtain ⟨other, same, joins⟩ := accepts.joins
        cases found.symm.trans same
        rw [Action.isJoin_of_usesOperands uses] at joins
        cases joins
      rw [mem_edges_addEdge, or_iff_left elsewhere]
      exact entered source kind

end Drawn

end Builder

end FragmentFlow.Graph
