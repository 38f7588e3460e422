import FragmentFlow.Proofs.Cleanup.Protected
import FragmentFlow.Proofs.Coverage.Statements
import FragmentFlow.Proofs.Drawing.Steps

/-!
# The fence around protected code

While a graph is drawn, the nodes drawn inside the protected code are held: every edge
from a held node leads to a held node or to a node of the `finally` block.  The held
nodes stand for parts of the protected code, apart from those that raise again behind
an inner `finally` block.  Outside the protected code no tip is open at a held node,
unless the `finally` block is drawn next, whose first node then closes the fence.
-/

namespace FragmentFlow

/-- Statements begin with an expression statement of the `finally` block. -/
def Tree.Protected.Opens (guard : Tree.Protected) (list : List Tree.Stmt) : Prop :=
  ∃ id value rest, list = .exprStmt id value :: rest ∧
    (Tree.Node.expr value).AllOwn fun tree => ∃ number, tree = some number ∧ guard.Final number

/-- The statements of the cleanup open it. -/
theorem Tree.Protected.opens_cleanup (guard : Tree.Protected) :
    guard.Opens guard.cleanup.stmts := by
  obtain ⟨id, value, rest, begins⟩ := guard.opens
  refine ⟨id, value, rest, begins, fun inner below => ⟨_, rfl, inner, ?_, rfl⟩⟩
  have isFirst : Node.stmt (.exprStmt id value) ∈ guard.cleanup.toNode.children := by
    change _ ∈ guard.cleanup.stmts.map Node.stmt
    rw [begins]
    exact List.mem_cons_self
  have isValue : Node.expr value ∈ (Node.stmt (.exprStmt id value)).children := List.mem_cons_self
  exact (Node.preorder_sublist_of_child isFirst).subset
    ((Node.preorder_sublist_of_child isValue).subset
      ((Node.expr value).ownNodes_sublist.subset below))

namespace Graph.Builder

/-- A node stands for a part of the `finally` block. -/
def Closes (b : Builder) (guard : Tree.Protected) (id : Nat) : Prop :=
  ∃ node tree, b.bare? id = some node ∧ node.tree = some tree ∧ guard.Final tree

/-- A node that closes the cleanup keeps closing it. -/
theorem Closes.grow {b later : Builder} {guard : Tree.Protected} {id : Nat}
    (closes : b.Closes guard id) (grows : Grows b later) : later.Closes guard id := by
  obtain ⟨node, tree, found, rest⟩ := closes
  exact ⟨node, tree, grows.nodes id node found, rest⟩

/-- Control gets from held nodes only to held nodes and into the `finally` block. -/
structure Fenced (b : Builder) (guard : Tree.Protected) (held : Nat → Prop) : Prop where
  inner : ∀ id, held id →
    ∃ node, b.bare? id = some node ∧ ∀ tree, node.tree = some tree → guard.Inner tree
  covers : ∀ id node tree, b.bare? id = some node → node.tree = some tree → guard.Inner tree →
    held id
  bound : ∀ edge ∈ b.edges, edge.source < b.nodes.size
  edges : ∀ edge ∈ b.edges, held edge.source → held edge.target ∨ b.Closes guard edge.target

/-- Outside the protected code some tips are not open at held nodes. -/
def Loose (b : Builder) (place : Option Nat) (held : Nat → Prop) (tips : List Tip) : Prop :=
  ∀ tip ∈ tips, tip.source < b.nodes.size ∧ (place = none → ¬ held tip.source)

/-- Outside the protected code some tips are not open at held nodes, or the `finally`
block comes next. -/
def Ready (b : Builder) (guard : Tree.Protected) (place : Option Nat) (held : Nat → Prop)
    (tips : List Tip) (list : List Tree.Stmt) : Prop :=
  b.Loose place held tips ∨
    place = none ∧ guard.Opens list ∧ ∀ tip ∈ tips, tip.source < b.nodes.size

/-- The fence has been kept from one builder to another.  More nodes may be held, and
nothing that leaves the protected code has been parked at a held node. -/
structure Keeps (guard : Tree.Protected) (place : Option Nat) (scope : Scope)
    (held more : Nat → Prop) (b later : Builder) : Prop where
  grows : Grows b later
  holds : ∀ id, held id → more id
  only : ∀ id, id < b.nodes.size → more id → held id
  fenced : later.Fenced guard more
  parked : ∀ entry ∈ later.parked, entry ∈ b.parked ∨
    scope.Offers entry.1 ∧ entry.2.source < later.nodes.size ∧
      (entry.1.Leaves place → ¬ more entry.2.source)

/-- The fence has been kept, and no tip is open where none may be. -/
def Fences (guard : Tree.Protected) (place : Option Nat) (scope : Scope) (held : Nat → Prop)
    (b later : Builder) : Prop :=
  ∃ more, Keeps guard place scope held more b later ∧ later.Loose place more later.tips

section Fenced

variable {guard : Tree.Protected} {held more most : Nat → Prop} {place inner : Option Nat}
  {scope outer : Scope} {b middle later : Builder} {copying : Bool}

theorem Fenced.lt_size (fenced : b.Fenced guard held) {id : Nat} (isHeld : held id) :
    id < b.nodes.size := by
  obtain ⟨node, found, -⟩ := fenced.inner id isHeld
  exact lt_size_of_bare? found

/-- Tips and what is parked do not count. -/
theorem Fenced.of_eq (fenced : b.Fenced guard held) (nodes : later.nodes = b.nodes)
    (edges : later.edges = b.edges) : later.Fenced guard held := by
  have same : ∀ id, later.bare? id = b.bare? id := fun id => by rw [bare?, nodes, bare?]
  refine ⟨fun id isHeld => ?_, fun id node tree found => ?_, fun edge member => ?_,
    fun edge member isHeld => ?_⟩
  · rw [same]
    exact fenced.inner id isHeld
  · exact fenced.covers id node tree (same id ▸ found)
  · rw [nodes]
    exact fenced.bound edge (edges ▸ member)
  · refine (fenced.edges edge (edges ▸ member) isHeld).imp_right fun closes => ?_
    exact closes.grow (.of_eq nodes edges)

/-- A fence stays if nothing new is a part of the protected code and new edges do not
cross it. -/
theorem Fenced.grow (fenced : b.Fenced guard held) (grows : Grows b later)
    (outside : ∀ id node tree, later.bare? id = some node → b.nodes.size ≤ id →
      node.tree = some tree → ¬ guard.Inner tree)
    (edges : ∀ edge ∈ later.edges, edge ∈ b.edges ∨ edge.source < later.nodes.size ∧
      (held edge.source → held edge.target ∨ later.Closes guard edge.target)) :
    later.Fenced guard held := by
  refine ⟨fun id isHeld => ?_, fun id node tree found stands isInner => ?_,
    fun edge member => ?_, fun edge member isHeld => ?_⟩
  · obtain ⟨node, found, isInner⟩ := fenced.inner id isHeld
    exact ⟨node, grows.nodes id node found, isInner⟩
  · by_cases old : id < b.nodes.size
    · exact fenced.covers id node tree (grows.bare?_of_lt old found) stands isInner
    · exact absurd isInner (outside id node tree found (Nat.le_of_not_lt old) stands)
  · rcases edges edge member with old | ⟨bound, -⟩
    · exact Nat.lt_of_lt_of_le (fenced.bound edge old) grows.size_le
    · exact bound
  · rcases edges edge member with old | ⟨-, inside⟩
    · exact (fenced.edges edge old isHeld).imp_right fun closes => closes.grow grows
    · exact inside isHeld

theorem Loose.append {tips others : List Tip} (one : b.Loose place held tips)
    (other : b.Loose place held others) : b.Loose place held (tips ++ others) :=
  fun tip member => (List.mem_append.1 member).elim (one tip) (other tip)

theorem Loose.nil : b.Loose place held [] :=
  fun _ member => by cases member

theorem Loose.tipsAs (loose : b.Loose place held b.tips) (kind : EdgeKind) :
    b.Loose place held (b.tipsAs kind) := by
  intro tip member
  obtain ⟨old, present, rfl⟩ := List.mem_map.1 member
  exact loose old present

/-- Tips behind a test stay loose, whatever their kind. -/
theorem Loose.tested (loose : b.Loose place held b.tips) (isTested : Bool) (kind : EdgeKind) :
    b.Loose place held (if isTested then b.tipsAs kind else b.tips) := by
  split
  · exact loose.tipsAs kind
  · exact loose

/-- The tips on which a test leaves are loose. -/
theorem Loose.exits (loose : b.Loose place held b.tips) (isTested : Bool) (kind : EdgeKind) :
    b.Loose place held (if isTested then b.tipsAs kind else []) := by
  split
  · exact loose.tipsAs kind
  · exact .nil

/-- Loose tips stay loose while the drawing grows. -/
theorem Loose.grow {tips : List Tip} (loose : b.Loose place held tips) (grows : Grows b later) :
    later.Loose place held tips :=
  fun tip member => ⟨Nat.lt_of_lt_of_le (loose tip member).1 grows.size_le, (loose tip member).2⟩

namespace Keeps

theorem refl (fenced : b.Fenced guard held) : Keeps guard place scope held held b b where
  grows := .refl b
  holds _ isHeld := isHeld
  only _ _ isHeld := isHeld
  fenced := fenced
  parked _ member := Or.inl member

theorem bound (kept : Keeps guard place scope held more b later) {id : Nat}
    (old : id < b.nodes.size) : id < later.nodes.size :=
  Nat.lt_of_lt_of_le old kept.grows.size_le

/-- Loose tips stay loose. -/
theorem loose {tips : List Tip} (kept : Keeps guard place scope held more b later)
    (loose : b.Loose inner held tips) : later.Loose inner more tips := by
  intro tip member
  obtain ⟨old, free⟩ := loose tip member
  exact ⟨kept.bound old, fun outside isHeld => free outside (kept.only _ old isHeld)⟩

/-- What is ready stays ready. -/
theorem ready {tips : List Tip} {list : List Tree.Stmt}
    (kept : Keeps guard place scope held more b later)
    (ready : b.Ready guard inner held tips list) : later.Ready guard inner more tips list := by
  rcases ready with loose | ⟨outside, opens, old⟩
  · exact Or.inl (kept.loose loose)
  · exact Or.inr ⟨outside, opens, fun tip member => kept.bound (old tip member)⟩

/-- A scope that encloses held nodes still encloses them. -/
theorem encloses (kept : Keeps guard place scope held more b later)
    (encloses : Encloses guard held inner outer) : Encloses guard more inner outer :=
  encloses.mono kept.holds

theorem trans (first : Keeps guard place scope held more b middle)
    (second : Keeps guard place scope more most middle later) :
    Keeps guard place scope held most b later where
  grows := first.grows.trans second.grows
  holds id isHeld := second.holds id (first.holds id isHeld)
  only id bound isHeld := first.only id bound
    (second.only id (Nat.lt_of_lt_of_le bound first.grows.size_le) isHeld)
  fenced := second.fenced
  parked entry member := by
    rcases second.parked entry member with old | new
    · refine (first.parked entry old).imp_right fun ⟨offers, before, free⟩ => ?_
      exact ⟨offers, second.bound before, fun leaves isHeld =>
        free leaves (second.only _ before isHeld)⟩
    · exact Or.inr new

/-- Other tips at the start do not count. -/
theorem of_tips {tips : List Tip}
    (kept : Keeps guard place scope held more { b with tips } later) :
    Keeps guard place scope held more b later :=
  ⟨⟨kept.grows.edges, kept.grows.nodes⟩, kept.holds, kept.only, kept.fenced, kept.parked⟩

/-- Other tips at the end do not count. -/
theorem to_tips (kept : Keeps guard place scope held more b later) (tips : List Tip) :
    Keeps guard place scope held more b { later with tips } :=
  ⟨⟨kept.grows.edges, kept.grows.nodes⟩, kept.holds, kept.only, kept.fenced.of_eq rfl rfl,
    kept.parked⟩

/-- What has been kept further out, or in code that more exits leave, has been kept. -/
theorem widen (kept : Keeps guard inner outer held more b later)
    (offers : ∀ exit, outer.Offers exit → scope.Offers exit)
    (leaves : ∀ exit : Exit, exit.Leaves place → exit.Leaves inner) :
    Keeps guard place scope held more b later where
  grows := kept.grows
  holds := kept.holds
  only := kept.only
  fenced := kept.fenced
  parked entry member := (kept.parked entry member).imp_right fun new =>
    ⟨offers _ new.1, new.2.1, fun isLeaving => new.2.2 (leaves _ isLeaving)⟩

/-- Where nothing has been parked the frames around do not matter. -/
theorem of_parked (kept : Keeps guard inner outer held more b later)
    (same : later.parked = b.parked) : Keeps guard place scope held more b later :=
  { kept with parked := fun _ member => Or.inl (same ▸ member) }

theorem jump (kept : Keeps guard place scope held more b later) {exit : Exit} (kind : EdgeKind)
    (offers : scope.Offers exit)
    (loose : exit.Leaves place → later.Loose none more later.tips)
    (bound : ∀ tip ∈ later.tips, tip.source < later.nodes.size) :
    Keeps guard place scope held more b (later.jump exit kind) where
  grows := kept.grows.trans (.of_eq rfl rfl)
  holds := kept.holds
  only := kept.only
  fenced := kept.fenced.of_eq rfl rfl
  parked entry member := by
    rcases List.mem_append.1 member with old | new
    · exact kept.parked entry old
    · obtain ⟨tip, changed, rfl⟩ := List.mem_map.1 new
      obtain ⟨original, present, rfl⟩ := List.mem_map.1 changed
      have same : (if original.kind = .normal then { original with kind } else original).source =
          original.source := by
        split <;> rfl
      rw [same]
      exact Or.inr ⟨offers, bound original present, fun leaves =>
        (loose leaves original present).2 rfl⟩

/-- A frame is left: what ends there is no longer parked. -/
theorem leaveFrame {frame : Frame} {tips : List Tip}
    (kept : Keeps guard inner (frame :: scope) held more { b with tips, parked := [] } later)
    (leaves : ∀ exit, scope.Offers exit → exit.Leaves place → exit.Leaves inner) :
    Keeps guard place scope held more b
      (later.leaveFrame b.parked (frame.exits scope.length)) where
  grows := ⟨kept.grows.edges, kept.grows.nodes⟩
  holds := kept.holds
  only := kept.only
  fenced := kept.fenced.of_eq rfl rfl
  parked entry member := by
    rcases List.mem_append.1 member with old | new
    · exact Or.inl old
    · obtain ⟨present, other⟩ := List.mem_filter.1 new
      rcases kept.parked entry present with never | ⟨⟨here, -⟩ | further, new, free⟩
      · cases never
      · simp [here] at other
      · exact Or.inr ⟨further, new, fun isLeaving => free (leaves _ further isLeaving)⟩

/-- What has been parked since nothing was is open where it may be. -/
theorem looseUnder (kept : Keeps guard inner scope held more b later) (empty : b.parked = [])
    (exit : Exit) : later.Loose inner more (later.parkedUnder exit) := by
  intro tip member
  rcases kept.parked _ (mem_parkedUnder.1 member) with old | ⟨-, new, free⟩
  · rw [empty] at old
    cases old
  · refine ⟨new, fun outside => free fun depth inside => ?_⟩
    cases outside.symm.trans inside

end Keeps

/-! ### Straight code -/

/-- Code drawn straight on outside the protected code holds no new nodes.  It may
follow held nodes only as a part of the `finally` block. -/
theorem Fenced.straight_outside (fenced : b.Fenced guard held)
    (straight : Straight scope (guard.Belongs none) b later)
    (bound : ∀ tip ∈ b.tips, tip.source < b.nodes.size)
    (enters : ∀ tip ∈ b.tips, held tip.source → ∀ id, Fresh b later id → later.Closes guard id) :
    Keeps guard none scope held held b later where
  grows := straight.grows
  holds _ isHeld := isHeld
  only _ _ isHeld := isHeld
  fenced := by
    refine fenced.grow straight.grows (fun id node tree found above stands isInner => ?_)
      fun edge member => ?_
    · have belongs := straight.nodes id node found above tree stands
      cases belongs.1 isInner
    · have source := straight.source_lt fenced.bound bound member
      refine (straight.edges edge member).imp_right fun new => ⟨source, fun isHeld => ?_⟩
      have old := fenced.lt_size isHeld
      rcases new with ⟨fresh | ⟨tip, isOpen, same⟩, target⟩ | ⟨fresh, -⟩
      · exact absurd old (Nat.not_lt.2 fresh.1)
      · exact Or.inr (enters tip isOpen (same ▸ isHeld) _ target)
      · exact absurd old (Nat.not_lt.2 fresh.1)
  parked entry member := by
    refine (straight.parked entry member).imp_right fun ⟨fresh, found⟩ => ?_
    refine ⟨Scope.offers_route found, fresh.2, fun _ isHeld => ?_⟩
    exact absurd (fenced.lt_size isHeld) (Nat.not_lt.2 fresh.1)

/-- Code drawn straight on inside the protected code holds all new nodes. -/
theorem Fenced.straight_inside {depth : Nat} (fenced : b.Fenced guard held)
    (encloses : Encloses guard held (some depth) scope)
    (straight : Straight scope (guard.Belongs (some depth)) b later)
    (bound : ∀ tip ∈ b.tips, tip.source < b.nodes.size) :
    Keeps guard (some depth) scope held (fun id => held id ∨ Fresh b later id) b later where
  grows := straight.grows
  holds _ isHeld := Or.inl isHeld
  only _ old isHeld := isHeld.resolve_right fun fresh => absurd old (Nat.not_lt.2 fresh.1)
  fenced := by
    refine ⟨fun id isHeld => ?_, fun id node tree found stands isInner => ?_,
      fun edge member => straight.source_lt fenced.bound bound member,
      fun edge member isHeld => ?_⟩
    · rcases isHeld with old | fresh
      · obtain ⟨node, found, isInner⟩ := fenced.inner id old
        exact ⟨node, straight.grows.nodes id node found, isInner⟩
      · obtain ⟨node, found⟩ := bare?_isSome fresh.2
        exact ⟨node, found, fun tree stands =>
          (straight.nodes id node found fresh.1 tree stands).2 rfl⟩
    · by_cases old : id < b.nodes.size
      · left
        exact fenced.covers id node tree (straight.grows.bare?_of_lt old found) stands isInner
      · exact Or.inr ⟨Nat.le_of_not_lt old, lt_size_of_bare? found⟩
    · rcases straight.edges edge member with old | ⟨-, target⟩ | ⟨-, target⟩
      · have isOld := isHeld.resolve_right fun fresh =>
          absurd (fenced.bound edge old) (Nat.not_lt.2 fresh.1)
        exact (fenced.edges edge old isOld).imp Or.inl fun closes => closes.grow straight.grows
      · exact Or.inl (Or.inr target)
      · exact Or.inl (Or.inl (encloses.route.1 _ target))
  parked entry member := by
    refine (straight.parked entry member).imp_right fun ⟨fresh, found⟩ => ?_
    refine ⟨Scope.offers_route found, fresh.2, fun leaves => ?_⟩
    exact absurd (leaves depth rfl) (encloses.route.2 _ found)

/-- Code drawn straight on keeps the fence, and its nodes are held exactly inside the
protected code. -/
theorem Fenced.straight (fenced : b.Fenced guard held) (encloses : Encloses guard held place scope)
    (straight : Straight scope (guard.Belongs place) b later)
    (loose : b.Loose place held b.tips) :
    ∃ more, Keeps guard place scope held more b later ∧ later.Loose place more later.tips ∧
      ∀ id, Fresh b later id → (more id ↔ place.isSome = true) := by
  have bound : ∀ tip ∈ b.tips, tip.source < b.nodes.size := fun tip member => (loose tip member).1
  cases place with
  | none =>
      have kept := fenced.straight_outside straight bound fun tip member isHeld =>
        absurd isHeld ((loose tip member).2 rfl)
      have fresh : ∀ id, Fresh b later id → ¬ held id := fun id fresh isHeld =>
        absurd (fenced.lt_size isHeld) (Nat.not_lt.2 fresh.1)
      refine ⟨held, kept, fun tip member => ?_, fun id new => iff_of_false (fresh id new) (by simp)⟩
      rcases straight.tips tip member with new | ⟨old, isOpen, same⟩
      · exact ⟨new.2, fun _ => fresh _ new⟩
      · rw [← same]
        exact kept.loose loose old isOpen
  | some depth =>
      refine ⟨_, fenced.straight_inside encloses straight bound, fun tip member => ?_,
        fun id new => iff_of_true (Or.inr new) rfl⟩
      refine ⟨?_, fun outside => by cases outside⟩
      rcases straight.tips tip member with new | ⟨old, isOpen, same⟩
      · exact new.2
      · rw [← same]
        exact Nat.lt_of_lt_of_le (bound old isOpen) straight.grows.size_le

/-- The first expression of the `finally` block may follow held nodes. -/
theorem Fenced.opening (fenced : b.Fenced guard held) {value : Tree.Expr}
    (suits : guard.Suits none (.expr value))
    (final : (Tree.Node.expr value).AllOwn fun tree => ∃ number, tree = some number ∧
      guard.Final number) (bound : ∀ tip ∈ b.tips, tip.source < b.nodes.size) :
    Fences guard none scope held b (b.expr scope copying value).2 := by
  have passed := Passed.expr scope copying b final
  have kept := fenced.straight_outside (Passed.expr scope copying b suits.expr).toStraight bound
    fun tip isOpen isHeld id fresh => by
      obtain ⟨node, found⟩ := bare?_isSome fresh.2
      obtain ⟨number, stands, isFinal⟩ := passed.nodes id node found fresh.1
      exact ⟨node, number, found, stands, isFinal⟩
  refine ⟨held, kept, fun tip member => ?_⟩
  have fresh := passed.through tip member
  exact ⟨fresh.2, fun _ isHeld => absurd (fenced.lt_size isHeld) (Nat.not_lt.2 fresh.1)⟩

/-- Tips may lead back to a node that is held inside the protected code. -/
theorem Fenced.connect (fenced : b.Fenced guard held) {tips : List Tip} {target : Nat}
    (loose : b.Loose place held tips) (isHeld : place.isSome = true → held target) :
    (b.connect tips target).Fenced guard held := by
  refine fenced.grow (.connect b tips target) (fun id node tree found above => ?_)
    fun edge member => ?_
  · rw [bare?_connect] at found
    exact absurd (lt_size_of_bare? found) (Nat.not_lt.2 above)
  · refine (mem_edges_connect.1 member).imp_right fun ⟨tip, same⟩ => ⟨?_, fun known => ?_⟩
    · rw [size_connect]
      exact (loose _ tip).1
    · cases place with
      | none => exact absurd known ((loose _ tip).2 rfl)
      | some depth => exact Or.inl (same ▸ isHeld rfl)

theorem Keeps.connect (kept : Keeps guard place scope held more b later) {tips : List Tip}
    {target : Nat} (loose : later.Loose place more tips)
    (isHeld : place.isSome = true → more target) :
    Keeps guard place scope held more b (later.connect tips target) where
  grows := kept.grows.trans (.connect later tips target)
  holds := kept.holds
  only := kept.only
  fenced := kept.fenced.connect loose isHeld
  parked entry member := by
    rw [connect_eq, parked_addEdges] at member
    rw [connect_eq, size_addEdges]
    exact kept.parked entry member

end Fenced

end Graph.Builder

end FragmentFlow
