import FragmentFlow.Proofs.Coverage.Simulation
import FragmentFlow.Proofs.Drawing.Straight
import Mathlib.Data.List.Pairwise

/-!
# Protected code

A `finally` block protects the body and the catch clauses of its `try`.  A place is
outside that code or inside it; inside, one of the frames around the place is that of
the `try`, and an exit leaves the protected code if it ends in a frame further out.
-/

namespace FragmentFlow

namespace Tree

/-- A `try` whose `finally` block begins with an expression statement.  All nodes of
it have numbers of their own. -/
structure Protected where
  id : Nat
  body : Block
  catches : List Catch
  cleanup : Block
  distinct : ((Node.stmt (.tryCatch id body catches (some cleanup))).preorder.map Node.id).Nodup
  opens : ∃ first value rest, cleanup.stmts = .exprStmt first value :: rest

/-- Whether a statement is a `try`. -/
def Stmt.isTry : Stmt → Bool
  | tryCatch .. => true
  | _ => false

/-- The own nodes of an expression are expressions. -/
theorem Node.isExpression_of_mem_ownNodes {value : Expr} {inner : Node}
    (member : inner ∈ (Node.expr value).ownNodes) : inner.isExpression = true := by
  rcases Node.mem_ownNodes.1 member with rfl | ⟨outside, child, isChild, below⟩
  · rfl
  · have isPart : ∃ part, child = .expr part := by
      cases value with
      | lambda => cases outside
      | literal | ident => cases isChild
      | assign | binary | unary | conditional =>
          simp only [Node.children, Expr.children, List.mem_cons, List.not_mem_nil, or_false]
            at isChild
          grind
      | call _ _ args | new _ _ args =>
          obtain ⟨part, -, rfl⟩ := List.mem_map.1 isChild
          exact ⟨part, rfl⟩
    obtain ⟨part, rfl⟩ := isPart
    exact isExpression_of_mem_ownNodes below
termination_by value.size
decreasing_by exact Node.size_lt_of_mem_children isChild

/-- Different children of a node with distinct numbers have no number in common. -/
theorem Node.ids_disjoint {node one other : Node} (distinct : (node.preorder.map Node.id).Nodup)
    (isOne : one ∈ node.children) (isOther : other ∈ node.children) (differ : one ≠ other)
    {first second : Node} (inOne : first ∈ one.preorder) (inOther : second ∈ other.preorder) :
    first.id ≠ second.id := by
  intro same
  have inNode := (preorder_sublist_of_child isOne).subset inOne
  cases List.inj_on_of_nodup_map distinct inNode
    ((preorder_sublist_of_child isOther).subset inOther) same
  have nodup := List.Nodup.of_map _ distinct
  rw [preorder_eq] at nodup
  have disjoint := (List.nodup_flatMap.1 (List.nodup_cons.1 nodup).2).2
  have : Std.Symm (Function.onFun List.Disjoint Node.preorder) :=
    ⟨fun _ _ apart _ inSecond inFirst => apart inFirst inSecond⟩
  exact disjoint.forall isOne isOther differ inOne inOther

namespace Protected

variable (guard : Protected)

/-- The `try` as a node. -/
def toNode : Node :=
  .stmt (.tryCatch guard.id guard.body guard.catches (some guard.cleanup))

/-- A number in the body or in a catch clause. -/
def Inner (id : Nat) : Prop :=
  ∃ part ∈ guard.body.toNode :: guard.catches.map .catchClause,
    ∃ inner ∈ part.preorder, inner.id = id

/-- A number in the `finally` block. -/
def Final (id : Nat) : Prop :=
  ∃ inner ∈ guard.cleanup.toNode.preorder, inner.id = id

theorem children_toNode : guard.toNode.children =
    (guard.body.toNode :: guard.catches.map .catchClause) ++ [guard.cleanup.toNode] := rfl

theorem mem_preorder_of_inner {id : Nat} (inner : guard.Inner id) :
    ∃ node ∈ guard.toNode.preorder, node.id = id := by
  obtain ⟨part, isPart, node, below, same⟩ := inner
  have isChild : part ∈ guard.toNode.children := by
    rw [children_toNode]
    exact List.mem_append_left _ isPart
  exact ⟨node, (Node.preorder_sublist_of_child isChild).subset below, same⟩

/-- What is in the cleanup is not in the guarded parts. -/
theorem not_inner_of_final {id : Nat} (final : guard.Final id) : ¬ guard.Inner id := by
  rintro ⟨part, isPart, node, below, rfl⟩
  obtain ⟨inner, inBlock, same⟩ := final
  have distinct := guard.distinct
  rw [Node.preorder_eq] at distinct
  have nodup := (List.nodup_cons.1 distinct).2
  change (((guard.body.toNode :: guard.catches.map .catchClause) ++
    [guard.cleanup.toNode]).flatMap Node.preorder |>.map Node.id).Nodup at nodup
  rw [List.flatMap_append, List.map_append, List.flatMap_singleton] at nodup
  exact (List.disjoint_of_nodup_append nodup)
    (List.mem_map_of_mem (List.mem_flatMap.2 ⟨part, isPart, below⟩))
    (List.mem_map.2 ⟨inner, inBlock, same⟩)

/-- What a node stands for is protected exactly if the place is. -/
def Belongs (place : Option Nat) (tree : Option Nat) : Prop :=
  ∀ id, tree = some id → (guard.Inner id ↔ place.isSome = true)

/-- Code that may be drawn at a place: inside the protected code, a part of it;
outside, code without a part of it or with the whole `try`. -/
def Suits (place : Option Nat) (node : Node) : Prop :=
  node.AllOwn (guard.Belongs place) ∨
    place = none ∧ guard.toNode ∈ node.ownNodes ∧ (node.preorder.map Node.id).Nodup

/-- Nodes without a part of the tree belong everywhere. -/
theorem belongs_none (place : Option Nat) : guard.Belongs place none :=
  fun _ absent => by cases absent

variable {guard}

namespace Suits

variable {place : Option Nat} {node child : Node}

/-- An expression in a place has only parts that belong there. -/
theorem expr {value : Expr} (suits : guard.Suits place (.expr value)) :
    (Node.expr value).AllOwn (guard.Belongs place) := by
  rcases suits with owned | ⟨-, member, -⟩
  · exact owned
  · cases Node.isExpression_of_mem_ownNodes member

theorem self (suits : guard.Suits place node) (apart : place = none → node ≠ guard.toNode) :
    guard.Belongs place (some node.id) := by
  rcases suits with owned | ⟨rfl, member, distinct⟩
  · exact owned.self
  · -- the `try` lies below a child, and so does the number
    rintro id ⟨⟩
    refine iff_of_false (fun inner => ?_) (by simp)
    rcases Node.mem_ownNodes.1 member with same | ⟨outside, child, isChild, below⟩
    · exact apart rfl same.symm
    · obtain ⟨other, inTry, same⟩ := guard.mem_preorder_of_inner inner
      have inChild := (Node.preorder_sublist (child.ownNodes_sublist.subset below)).subset inTry
      rw [Node.preorder_eq, List.map_cons] at distinct
      exact (List.nodup_cons.1 distinct).1
        (List.mem_map.2 ⟨other, List.mem_flatMap.2 ⟨child, isChild, inChild⟩, same⟩)

/-- The parts of a node suit its place, unless it is the `try` itself. -/
theorem below (suits : guard.Suits place node) (apart : place = none → node ≠ guard.toNode)
    (outside : node.isLambda = false) (isChild : child ∈ node.children) :
    guard.Suits place child := by
  rcases suits with owned | ⟨rfl, member, distinct⟩
  · exact Or.inl (owned.child outside isChild)
  · rcases Node.mem_ownNodes.1 member with same | ⟨-, other, isOther, inOther⟩
    · exact absurd same.symm (apart rfl)
    · by_cases differ : child = other
      · have sublist := (Node.preorder_sublist_of_child isChild).map Node.id
        exact Or.inr ⟨rfl, differ ▸ inOther, distinct.sublist sublist⟩
      · -- the `try` lies below another child
        left
        rintro inner below id ⟨⟩
        refine iff_of_false (fun isInner => ?_) (by simp)
        obtain ⟨part, inTry, same⟩ := guard.mem_preorder_of_inner isInner
        exact Node.ids_disjoint distinct isOther isChild (Ne.symm differ)
          ((Node.preorder_sublist (other.ownNodes_sublist.subset inOther)).subset inTry)
          (child.ownNodes_sublist.subset below) same

/-- A statement that is no `try` is not this one. -/
theorem ne_of_isTry {statement : Stmt} (other : statement.isTry = false) :
    Node.stmt statement ≠ guard.toNode := by
  intro same
  cases same
  cases other

theorem number {statement : Stmt} (suits : guard.Suits place (.stmt statement))
    (other : statement.isTry = false) : guard.Belongs place (some statement.id) :=
  suits.self fun _ => ne_of_isTry other

/-- The parts of a statement that is no `try` suit its place. -/
theorem part {statement : Stmt} (suits : guard.Suits place (.stmt statement))
    (other : statement.isTry = false) (isChild : child ∈ statement.children) :
    guard.Suits place child :=
  suits.below (fun _ => ne_of_isTry other) rfl isChild

/-- The statements of a block suit its place. -/
theorem stmts {block : Block} (suits : guard.Suits place block.toNode) :
    ∀ statement ∈ block.stmts, guard.Suits place (.stmt statement) :=
  fun _ member => suits.part rfl (List.mem_map_of_mem member)

/-- A catch clause belongs to its place and its body suits it. -/
theorem clause {clause : Catch} (suits : guard.Suits place (.catchClause clause)) :
    guard.Belongs place (some clause.id) ∧ guard.Suits place clause.body.toNode := by
  have apart : place = none → Node.catchClause clause ≠ guard.toNode := by
    intro _ same
    cases same
  exact ⟨suits.self apart, suits.below apart rfl List.mem_cons_self⟩

end Suits

variable (guard)

/-- The guarded parts suit the place inside. -/
theorem suits_inside (depth : Nat) {part : Node}
    (isPart : part ∈ guard.body.toNode :: guard.catches.map .catchClause) :
    guard.Suits (some depth) part := by
  left
  rintro inner below id ⟨⟩
  exact iff_of_true ⟨part, isPart, inner, part.ownNodes_sublist.subset below, rfl⟩ rfl

/-- The cleanup suits the place outside. -/
theorem suits_cleanup : guard.Suits none guard.cleanup.toNode := by
  left
  rintro inner below id ⟨⟩
  have final : guard.Final inner.id :=
    ⟨inner, guard.cleanup.toNode.ownNodes_sublist.subset below, rfl⟩
  exact iff_of_false (guard.not_inner_of_final final) (by simp)

end Protected

end Tree

namespace Graph

/-- An exit leads out of the protected code; outside of it every exit does. -/
def Exit.Leaves (place : Option Nat) (exit : Exit) : Prop :=
  ∀ depth, place = some depth → exit.Below depth

/-- Outside, every exit leaves. -/
theorem Exit.leaves_none (exit : Exit) : exit.Leaves none :=
  fun _ absent => by cases absent

/-- The frames around a place outside the protected code or inside it, where the
nodes of the protected code are known.  Inside, exceptions lead to such nodes. -/
inductive Encloses (guard : Tree.Protected) (held : Nat → Prop) : Option Nat → Scope → Prop
  | nil : Encloses guard held none []
  | loop {place : Option Nat} {scope : Scope} :
      Encloses guard held place scope → Encloses guard held place (.loop :: scope)
  | region {place : Option Nat} {scope : Scope} {handlers : List Handler}
      {cleanup : Option Tree.Block} :
      (∀ block, cleanup = some block → guard.Suits place block.toNode) →
        (place.isSome = true → ∀ id ∈ handlers.map Handler.entry, held id) →
        Encloses guard held place scope →
        Encloses guard held place (.region handlers cleanup :: scope)
  | guard {scope : Scope} {handlers : List Handler} :
      (∀ id ∈ handlers.map Handler.entry, held id) → Encloses guard held none scope →
        Encloses guard held (some scope.length) (.region handlers (some guard.cleanup) :: scope)

namespace Encloses

variable {guard : Tree.Protected} {held more : Nat → Prop} {place : Option Nat} {scope : Scope}
  {depth : Nat}

/-- More nodes may be held. -/
theorem mono (encloses : Encloses guard held place scope) (grows : ∀ id, held id → more id) :
    Encloses guard more place scope := by
  induction encloses with
  | nil => exact .nil
  | loop _ ih => exact .loop ih
  | region suits entries _ ih =>
      exact .region suits (fun inside id member => grows id (entries inside id member)) ih
  | guard entries _ ih => exact .guard (fun id member => grows id (entries id member)) ih

/-- The frame of the `try` is one of the scope. -/
theorem lt_length (encloses : Encloses guard held (some depth) scope) : depth < scope.length := by
  generalize same : some depth = place at encloses
  induction encloses with
  | nil => cases same
  | loop _ ih | region _ _ _ ih => exact Nat.lt_succ_of_lt (ih same)
  | guard _ _ _ =>
      cases same
      exact Nat.lt_succ_self _

/-- Inside the protected code exceptions stay there: they enter catch clauses of it or
wait for a `finally` block that is not further out than the protecting one. -/
theorem route (encloses : Encloses guard held (some depth) scope) :
    (∀ id ∈ scope.route.1, held id) ∧
      ∀ exit, scope.route.2 = some exit → ¬ exit.Below depth := by
  generalize same : some depth = place at encloses
  induction encloses with
  | nil => cases same
  | loop _ ih => exact ih same
  | @region place scope handlers cleanup _ entries inner ih =>
      cases same
      have known := entries rfl
      simp only [Scope.route]
      split
      · exact ⟨known, fun exit absent => by cases absent⟩
      · split
        · refine ⟨known, fun exit found => ?_⟩
          cases found
          exact Nat.lt_asymm inner.lt_length
        · refine ⟨fun id member => ?_, (ih rfl).2⟩
          rcases List.mem_append.1 member with own | further
          · exact known id own
          · exact (ih rfl).1 id further
  | @guard scope handlers entries _ _ =>
      cases same
      simp only [Scope.route, Option.isSome_some, if_true]
      split
      · exact ⟨entries, fun exit absent => by cases absent⟩
      · refine ⟨entries, fun exit found => ?_⟩
        cases found
        exact Nat.lt_irrefl _

end Encloses

end Graph

end FragmentFlow
