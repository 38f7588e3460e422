import FragmentFlow.Proofs.Drawing.Growth
import FragmentFlow.Proofs.Tree.Positions

/-!
# Straight code

Code without frames of its own is drawn straight on.  Control comes to its nodes only
at the tips that were open before it, and gets away from them only at the tips behind
it and on the route that the frames around it give to exceptions.
-/

namespace FragmentFlow

/-- A property of numbers holds at a node and below it, outside nested lambdas. -/
def Tree.Node.AllOwn (own : Option Nat → Prop) (node : Tree.Node) : Prop :=
  ∀ inner ∈ node.ownNodes, own (some inner.id)

namespace Tree.Node.AllOwn

variable {own : Option Nat → Prop} {node : Tree.Node}

theorem self (owned : node.AllOwn own) : own (some node.id) :=
  owned node (Node.mem_ownNodes.2 (Or.inl rfl))

/-- A part of a node whose parts are own has own parts. -/
theorem child (owned : node.AllOwn own) (outside : node.isLambda = false) {part : Tree.Node}
    (isChild : part ∈ node.children) : part.AllOwn own :=
  fun inner below => owned inner (Node.mem_ownNodes.2 (Or.inr ⟨outside, part, isChild, below⟩))

end Tree.Node.AllOwn

namespace Graph.Builder

/-- A node has been added on the way from one builder to another. -/
def Fresh (b later : Builder) (id : Nat) : Prop :=
  b.nodes.size ≤ id ∧ id < later.nodes.size

/-- A node has been added, or a tip was open there before. -/
def Onward (b later : Builder) (id : Nat) : Prop :=
  Fresh b later id ∨ ∃ tip ∈ b.tips, tip.source = id

section Fresh

variable {b middle later : Builder} {id : Nat}

/-- A node that is new stays new. -/
theorem Fresh.grow (fresh : Fresh b middle id) (grows : Grows middle later) : Fresh b later id :=
  ⟨fresh.1, Nat.lt_of_lt_of_le fresh.2 grows.size_le⟩

/-- A node that is new since a later step is new since an earlier one. -/
theorem Fresh.since (fresh : Fresh middle later id) (grows : Grows b middle) : Fresh b later id :=
  ⟨Nat.le_trans grows.size_le fresh.1, fresh.2⟩

/-- Where control goes on it still goes on later. -/
theorem Onward.grow (onward : Onward b middle id) (grows : Grows middle later) :
    Onward b later id :=
  onward.imp_left fun fresh => fresh.grow grows

/-- A pushed node is new. -/
theorem fresh_push (grows : Grows b later) (node : Node) :
    Fresh b (later.push node).2 later.nodes.size :=
  ⟨grows.size_le, by rw [size_push]; exact Nat.lt_succ_self _⟩

end Fresh

/-- Code has been drawn straight on.  The parts of the tree that its nodes stand for
have a certain property. -/
structure Straight (scope : Scope) (own : Option Nat → Prop) (b later : Builder) : Prop where
  grows : Grows b later
  nodes : ∀ id node, later.bare? id = some node → b.nodes.size ≤ id → own node.tree
  edges : ∀ edge ∈ later.edges, edge ∈ b.edges ∨
    Onward b later edge.source ∧ Fresh b later edge.target ∨
      Fresh b later edge.source ∧ edge.target ∈ scope.route.1
  tips : ∀ tip ∈ later.tips, Onward b later tip.source
  parked : ∀ entry ∈ later.parked, entry ∈ b.parked ∨
    Fresh b later entry.2.source ∧ scope.route.2 = some entry.1

/-- Code has been drawn straight on, and every way behind it leads through it. -/
structure Passed (scope : Scope) (own : Option Nat → Prop) (b later : Builder) : Prop
    extends Straight scope own b later where
  through : ∀ tip ∈ later.tips, Fresh b later tip.source

namespace Straight

variable {scope : Scope} {own : Option Nat → Prop} {b middle later : Builder}

theorem refl (b : Builder) : Straight scope own b b where
  grows := .refl b
  nodes _ _ found above := absurd (lt_size_of_bare? found) (Nat.not_lt.2 above)
  edges _ member := Or.inl member
  tips tip member := Or.inr ⟨tip, member, rfl⟩
  parked _ member := Or.inl member

/-- Where a later step goes on, the whole goes on. -/
theorem onward (first : Straight scope own b middle) (grows : Grows middle later) {id : Nat}
    (next : Onward middle later id) : Onward b later id := by
  rcases next with fresh | ⟨tip, member, rfl⟩
  · exact Or.inl (fresh.since first.grows)
  · exact (first.tips tip member).grow grows

theorem edges_grow (straight : Straight scope own b middle) (grows : Grows middle later)
    {edge : Edge} (member : edge ∈ middle.edges) :
    edge ∈ b.edges ∨ Onward b later edge.source ∧ Fresh b later edge.target ∨
      Fresh b later edge.source ∧ edge.target ∈ scope.route.1 := by
  rcases straight.edges edge member with before | ⟨source, target⟩ | ⟨source, target⟩
  · exact Or.inl before
  · exact Or.inr (Or.inl ⟨source.grow grows, target.grow grows⟩)
  · exact Or.inr (Or.inr ⟨source.grow grows, target⟩)

theorem parked_grow (straight : Straight scope own b middle) (grows : Grows middle later)
    {entry : Exit × Tip} (member : entry ∈ middle.parked) :
    entry ∈ b.parked ∨ Fresh b later entry.2.source ∧ scope.route.2 = some entry.1 :=
  (straight.parked entry member).imp_right fun new => ⟨new.1.grow grows, new.2⟩

theorem trans (first : Straight scope own b middle) (second : Straight scope own middle later) :
    Straight scope own b later where
  grows := first.grows.trans second.grows
  nodes id node found above := by
    by_cases old : id < middle.nodes.size
    · exact first.nodes id node (second.grows.bare?_of_lt old found) above
    · exact second.nodes id node found (Nat.le_of_not_lt old)
  edges edge member := by
    rcases second.edges edge member with old | ⟨source, target⟩ | ⟨source, target⟩
    · exact first.edges_grow second.grows old
    · exact Or.inr (Or.inl ⟨first.onward second.grows source, target.since first.grows⟩)
    · exact Or.inr (Or.inr ⟨source.since first.grows, target⟩)
  tips tip member := first.onward second.grows (second.tips tip member)
  parked entry member := by
    rcases second.parked entry member with old | ⟨source, found⟩
    · exact first.parked_grow second.grows old
    · exact Or.inr ⟨source.since first.grows, found⟩

/-- Edges start at nodes. -/
theorem source_lt (straight : Straight scope own b later)
    (before : ∀ edge ∈ b.edges, edge.source < b.nodes.size)
    (bound : ∀ tip ∈ b.tips, tip.source < b.nodes.size) {edge : Edge}
    (member : edge ∈ later.edges) : edge.source < later.nodes.size := by
  rcases straight.edges edge member with old | ⟨fresh | ⟨tip, isOpen, same⟩, -⟩ | ⟨fresh, -⟩
  · exact Nat.lt_of_lt_of_le (before edge old) straight.grows.size_le
  · exact fresh.2
  · exact same ▸ Nat.lt_of_lt_of_le (bound tip isOpen) straight.grows.size_le
  · exact fresh.2

/-- The current place may move to where control has come. -/
theorem retip (straight : Straight scope own b later) (tips : List Tip)
    (reached : ∀ tip ∈ tips, Onward b later tip.source) :
    Straight scope own b { later with tips } where
  grows := ⟨straight.grows.edges, straight.grows.nodes⟩
  nodes := straight.nodes
  edges := straight.edges
  tips := reached
  parked := straight.parked

theorem tipsAs (straight : Straight scope own b later) (kind : EdgeKind) :
    ∀ tip ∈ later.tipsAs kind, Onward b later tip.source := by
  intro tip member
  obtain ⟨old, present, rfl⟩ := List.mem_map.1 member
  exact straight.tips old present

/-- Further code may be drawn on one way behind a test, while others stay open. -/
theorem shortCircuit {kind : EdgeKind} (tested : Straight scope own b middle)
    (drawn : Straight scope own { middle with tips := middle.tipsAs kind } later)
    (other : EdgeKind) :
    Straight scope own b { later with tips := later.tips ++ middle.tipsAs other } := by
  have both := (tested.retip _ (tested.tipsAs kind)).trans drawn
  refine both.retip _ fun tip member => ?_
  rcases List.mem_append.1 member with evaluated | skipped
  · exact both.tips tip evaluated
  · exact (tested.tipsAs other tip skipped).grow ⟨drawn.grows.edges, drawn.grows.nodes⟩

/-- Further code may be drawn on two ways behind a test. -/
theorem branches {last : Builder} {one other : EdgeKind} (tested : Straight scope own b middle)
    (first : Straight scope own { middle with tips := middle.tipsAs one } later)
    (second : Straight scope own { later with tips := middle.tipsAs other } last) :
    Straight scope own b { last with tips := later.tips ++ last.tips } := by
  have begun := (tested.retip _ (tested.tipsAs one)).trans first
  have both := (begun.retip _ fun tip member => (tested.tipsAs other tip member).grow
    ⟨first.grows.edges, first.grows.nodes⟩).trans second
  refine both.retip _ fun tip member => ?_
  rcases List.mem_append.1 member with earlier | later
  · exact (begun.tips tip earlier).grow ⟨second.grows.edges, second.grows.nodes⟩
  · exact both.tips tip later

theorem mention (b : Builder) (ty : String) : Straight scope own b (b.mention ty) where
  grows := .of_eq rfl rfl
  nodes _ _ found above := absurd (lt_size_of_bare? found) (Nat.not_lt.2 above)
  edges _ member := Or.inl member
  tips tip member := Or.inr ⟨tip, member, rfl⟩
  parked _ member := Or.inl member

theorem push (straight : Straight scope own b later) (node : Node) (isOwn : own node.tree) :
    Passed scope own b (later.push node).2 where
  grows := straight.grows.trans (.push later node)
  nodes id other found above := by
    rw [bare?_push] at found
    split at found
    · cases found
      exact isOwn
    · exact straight.nodes id other found above
  edges edge member := by
    rcases mem_edges_push.1 member with old | ⟨tip, target⟩
    · exact straight.edges_grow (.push later node) old
    · rw [target]
      exact Or.inr (Or.inl ⟨(straight.tips _ tip).grow (.push later node),
        fresh_push straight.grows node⟩)
  tips tip member := by
    cases List.mem_singleton.1 member
    exact Or.inl (fresh_push straight.grows node)
  parked entry member := by
    rw [parked_push] at member
    exact straight.parked_grow (.push later node) member
  through tip member := by
    cases List.mem_singleton.1 member
    exact fresh_push straight.grows node

/-- Straight code may follow a node. -/
theorem behind {node : Node} (rest : Straight scope own (b.push node).2 later)
    (isOwn : own node.tree) : Straight scope own b later ∧ Fresh b later b.nodes.size :=
  ⟨((refl b).push node isOwn).trans rest, (fresh_push (.refl b) node).grow rest.grows⟩

theorem raise (straight : Straight scope own b later) {source : Nat}
    (fresh : Fresh b later source) : Straight scope own b (later.raise scope source) where
  grows := straight.grows.trans (.raise later scope source)
  nodes id node found := straight.nodes id node (bare?_raise later scope source id ▸ found)
  edges edge member := by
    have grows := Grows.raise later scope source
    rcases mem_edges_raise.1 member with old | ⟨rfl, target, -⟩
    · exact straight.edges_grow grows old
    · exact Or.inr (Or.inr ⟨fresh.grow grows, target⟩)
  tips tip member := by
    rw [tips_raise] at member
    exact (straight.tips tip member).grow (.raise later scope source)
  parked entry member := by
    have grows := Grows.raise later scope source
    rw [parked_raise] at member
    rcases List.mem_append.1 member with old | new
    · exact straight.parked_grow grows old
    · obtain ⟨exit, found, rfl⟩ := List.mem_map.1 new
      exact Or.inr ⟨fresh.grow grows, Option.mem_toList.1 found⟩

end Straight

namespace Passed

variable {scope : Scope} {own : Option Nat → Prop} {b later : Builder}

theorem raise (passed : Passed scope own b later) {source : Nat} (fresh : Fresh b later source) :
    Passed scope own b (later.raise scope source) where
  toStraight := passed.toStraight.raise fresh
  through tip member := by
    rw [tips_raise] at member
    exact (passed.through tip member).grow (.raise later scope source)

/-- The last node may raise an exception. -/
theorem pushRaise (straight : Straight scope own b later) (node : Node) (isOwn : own node.tree) :
    Passed scope own b ((later.push node).2.raise scope later.nodes.size) :=
  (straight.push node isOwn).raise (fresh_push straight.grows node)

mutual

/-- Every expression is drawn straight on, and ends with a node of its own. -/
theorem expr (scope : Scope) (copying : Bool) (b : Builder) {value : Tree.Expr}
    (owned : (Tree.Node.expr value).AllOwn own) :
    Passed scope own b (b.expr scope copying value).2 := by
  have isOwn := owned.self
  match value with
  | .literal id value => exact (Straight.refl b).push _ isOwn
  | .ident id name => exact (Straight.refl b).push _ isOwn
  | .assign id target value =>
      exact (expr scope copying b (owned.child rfl List.mem_cons_self)).push _ isOwn
  | .binary id op lhs rhs =>
      have left := expr scope copying b (owned.child rfl List.mem_cons_self)
      have isRight := owned.child rfl (List.mem_cons_of_mem _ List.mem_cons_self)
      rw [Builder.expr]
      dsimp only
      split
      · exact (left.shortCircuit (expr scope copying _ isRight).toStraight _).push _ isOwn
      · have both := left.trans (expr scope copying _ isRight).toStraight
        split
        · exact pushRaise both _ isOwn
        · exact both.push _ isOwn
  | .unary id op operand =>
      exact (expr scope copying b (owned.child rfl List.mem_cons_self)).push _ isOwn
  | .conditional id cond whenTrue whenFalse =>
      have tested := expr scope copying b (owned.child rfl List.mem_cons_self)
      have isTrue := owned.child rfl (List.mem_cons_of_mem _ List.mem_cons_self)
      have isFalse :=
        owned.child rfl (List.mem_cons_of_mem _ (List.mem_cons_of_mem _ List.mem_cons_self))
      exact (tested.branches (expr scope copying _ isTrue).toStraight
        (expr scope copying _ isFalse).toStraight).push _ isOwn
  | .call id callee args =>
      exact pushRaise (exprs scope copying b fun arg member =>
        owned.child rfl (List.mem_map_of_mem member)) _ isOwn
  | .new id ty args =>
      exact pushRaise ((Straight.mention b ty).trans (exprs scope copying _ fun arg member =>
        owned.child rfl (List.mem_map_of_mem member))) _ isOwn
  | .lambda id params body => exact (Straight.refl b).push _ isOwn

theorem exprs (scope : Scope) (copying : Bool) (b : Builder) {values : List Tree.Expr}
    (owned : ∀ value ∈ values, (Tree.Node.expr value).AllOwn own) :
    Straight scope own b (b.exprs scope copying values).2 := by
  match values with
  | [] => exact .refl b
  | value :: values =>
      exact (expr scope copying b (owned value List.mem_cons_self)).trans
        (exprs scope copying (b.expr scope copying value).2 fun other member =>
          owned other (List.mem_cons_of_mem _ member))

end

end Passed

namespace Straight

variable {scope : Scope} {own : Option Nat → Prop} {b : Builder}

theorem expr? (scope : Scope) (copying : Bool) (b : Builder) {value : Option Tree.Expr}
    (owned : ∀ inner ∈ value.toList, (Tree.Node.expr inner).AllOwn own) :
    Straight scope own b (b.expr? scope copying value).2 := by
  cases value with
  | none => exact .refl b
  | some value => exact (Passed.expr scope copying b (owned value List.mem_cons_self)).toStraight

theorem addNode (scope : Scope) (b : Builder) (node : Node) (isOwn : own node.tree) :
    Straight scope own b (b.addNode node).2 where
  grows := .addNode b node
  nodes id other found above := by
    rw [bare?_addNode] at found
    split at found
    · cases found
      exact isOwn
    · exact absurd (lt_size_of_bare? found) (Nat.not_lt.2 above)
  edges _ member := Or.inl member
  tips tip member := Or.inr ⟨tip, member, rfl⟩
  parked _ member := Or.inl member

theorem enterCatches (scope : Scope) (copying : Bool) (b : Builder) {clauses : List Tree.Catch}
    (owned : ∀ clause ∈ clauses, own (some clause.id)) :
    Straight scope own b (b.enterCatches copying clauses).2 := by
  induction clauses generalizing b with
  | nil => exact .refl b
  | cons clause clauses ih =>
      have added := (mention b clause.ty).trans (addNode scope _
        (.at clause.id copying (.catchParam clause.name clause.ty) [])
        (owned clause List.mem_cons_self))
      exact added.trans (ih _ fun other member => owned other (List.mem_cons_of_mem _ member))

end Straight

theorem parked_enterCatches (copying : Bool) (b : Builder) (clauses : List Tree.Catch) :
    (b.enterCatches copying clauses).2.parked = b.parked := by
  induction clauses generalizing b with
  | nil => rfl
  | cons clause clauses ih => exact ih _

/-- The entries of catch clauses are new nodes. -/
theorem fresh_enterCatches {copying : Bool} {b : Builder} {clauses : List Tree.Catch} {id : Nat}
    (member : id ∈ (b.enterCatches copying clauses).1.map Handler.entry) :
    Fresh b (b.enterCatches copying clauses).2 id := by
  induction clauses generalizing b with
  | nil => cases member
  | cons clause clauses ih =>
      have added := Grows.addNode (b.mention clause.ty)
        (.at clause.id copying (.catchParam clause.name clause.ty) [])
      rcases List.mem_cons.1 member with rfl | later
      · have inner := (Extends.enterCatches copying ((b.mention clause.ty).addNode
          (.at clause.id copying (.catchParam clause.name clause.ty) [])).2 clauses).grows.size_le
        refine ⟨Nat.le_refl _, Nat.lt_of_lt_of_le ?_ inner⟩
        exact Nat.lt_of_lt_of_eq (Nat.lt_succ_self _) (Array.size_push ..).symm
      · exact (ih later).since ⟨added.edges, added.nodes⟩

end Graph.Builder

end FragmentFlow
