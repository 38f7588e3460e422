import FragmentFlow.Proofs.Drawing.Growth

/-!
# Counting nodes

The nodes of a drawing for which a test holds, in the order of their numbers.  Growth adds
further ones behind them.
-/

namespace FragmentFlow.Graph

/-- Whether a node stands for a part of the tree, in its place or as a copy. -/
def Node.isDrawing (copying : Bool) (tree : Nat) (node : Node) : Bool :=
  node.tree == some tree && node.isCopy == copying

theorem Node.isDrawing_iff {copying : Bool} {tree : Nat} {node : Node} :
    node.isDrawing copying tree = true ↔ node.tree = some tree ∧ node.isCopy = copying := by
  rw [isDrawing, Bool.and_eq_true, beq_iff_eq, beq_iff_eq]

namespace Builder

/-- The nodes for which a test of what they evaluate holds. -/
def nodesWhere (b : Builder) (test : Node → Bool) : List Nat :=
  (List.range b.nodes.size).filter fun id => (b.bare? id).any test

/-- The nodes that stand for a part of the tree: those in its place, or the copies. -/
def drawings (b : Builder) (copying : Bool) (tree : Nat) : List Nat :=
  b.nodesWhere (Node.isDrawing copying tree)

variable {b later : Builder} {test : Node → Bool} {id : Nat} {node : Node}

theorem mem_nodesWhere : id ∈ b.nodesWhere test ↔ ∃ node, b.bare? id = some node ∧ test node := by
  rw [nodesWhere, List.mem_filter, List.mem_range, Option.any_eq_true]
  apply and_iff_right_of_imp
  rintro ⟨node, found, -⟩
  exact lt_size_of_bare? found

theorem nodesWhere_congr (size : later.nodes.size = b.nodes.size)
    (same : ∀ id, later.bare? id = b.bare? id) (test : Node → Bool) :
    later.nodesWhere test = b.nodesWhere test := by
  simp only [nodesWhere, size, same]

/-- A new node comes behind the others if the test holds of it. -/
theorem nodesWhere_addNode (b : Builder) (node : Node) (test : Node → Bool) :
    (b.addNode node).2.nodesWhere test =
      b.nodesWhere test ++ if test node.bare then [b.nodes.size] else [] := by
  have size : (b.addNode node).2.nodes.size = b.nodes.size + 1 := Array.size_push ..
  have old : ∀ id ∈ List.range b.nodes.size,
      ((b.addNode node).2.bare? id).any test = (b.bare? id).any test := by
    intro id member
    rw [bare?_addNode, if_neg (Nat.ne_of_lt (List.mem_range.1 member))]
  have new : ((b.addNode node).2.bare? b.nodes.size).any test = test node.bare := by
    rw [bare?_addNode, if_pos rfl]
    rfl
  rw [nodesWhere, size, List.range_succ, List.filter_append, List.filter_congr old, nodesWhere,
    List.filter_cons, new, List.filter_nil]

theorem length_nodesWhere_addNode (b : Builder) (node : Node) (test : Node → Bool) :
    ((b.addNode node).2.nodesWhere test).length =
      (b.nodesWhere test).length + (test node.bare).toNat := by
  rw [nodesWhere_addNode, List.length_append]
  cases test node.bare <;> rfl

theorem length_nodesWhere_push (b : Builder) (node : Node) (test : Node → Bool) :
    ((b.push node).2.nodesWhere test).length =
      (b.nodesWhere test).length + (test node.bare).toNat := by
  have size : (b.push node).2.nodes.size = (b.addNode node).2.nodes.size :=
    (size_push b node).trans (Array.size_push ..).symm
  have same : ∀ id, (b.push node).2.bare? id = (b.addNode node).2.bare? id := by
    intro id
    rw [bare?_push, bare?_addNode]
  rw [nodesWhere_congr size same, length_nodesWhere_addNode]

/-- New nodes come behind the old ones. -/
theorem nodesWhere_of_grows (grows : Grows b later) (test : Node → Bool) :
    ∃ fresh, later.nodesWhere test = b.nodesWhere test ++ fresh ∧
      ∀ id ∈ fresh, b.nodes.size ≤ id := by
  obtain ⟨more, size⟩ := Nat.exists_eq_add_of_le grows.size_le
  have old : ∀ id ∈ List.range b.nodes.size,
      (later.bare? id).any test = (b.bare? id).any test := by
    intro id member
    obtain ⟨node, found⟩ := bare?_isSome (List.mem_range.1 member)
    rw [found, grows.nodes id node found]
  rw [nodesWhere, size, List.range_add, List.filter_append, List.filter_congr old]
  refine ⟨_, rfl, fun id member => ?_⟩
  obtain ⟨offset, -, rfl⟩ := List.mem_map.1 (List.mem_filter.1 member).1
  exact Nat.le_add_right _ _

theorem nodesWhere_eq_of_length (grows : Grows b later)
    (same : (later.nodesWhere test).length = (b.nodesWhere test).length) :
    later.nodesWhere test = b.nodesWhere test := by
  obtain ⟨fresh, split, -⟩ := nodesWhere_of_grows grows test
  rw [split, List.length_append] at same
  have none : fresh = [] := List.length_eq_zero_iff.1 (by omega)
  rw [split, none, List.append_nil]

/-- Where a single node is new, it is the last one. -/
theorem exists_new (grows : Grows b later)
    (one : (later.nodesWhere test).length = (b.nodesWhere test).length + 1) :
    ∃ id node, b.nodes.size ≤ id ∧ later.bare? id = some node ∧ test node = true ∧
      later.nodesWhere test = b.nodesWhere test ++ [id] := by
  obtain ⟨fresh, split, new⟩ := nodesWhere_of_grows grows test
  rw [split, List.length_append] at one
  obtain ⟨id, rfl⟩ := List.length_eq_one_iff.1 (show fresh.length = 1 by omega)
  have member : id ∈ later.nodesWhere test := split ▸ List.mem_append_right _ List.mem_cons_self
  obtain ⟨node, found, holds⟩ := mem_nodesWhere.1 member
  exact ⟨id, node, new id List.mem_cons_self, found, holds, split⟩

theorem nodesWhere_eq_append (grows : Grows b later)
    (one : (later.nodesWhere test).length = (b.nodesWhere test).length + 1)
    (new : b.nodes.size ≤ id) (found : later.bare? id = some node) (holds : test node = true) :
    later.nodesWhere test = b.nodesWhere test ++ [id] := by
  obtain ⟨last, -, -, -, -, split⟩ := exists_new grows one
  have member : id ∈ later.nodesWhere test := mem_nodesWhere.2 ⟨node, found, holds⟩
  rw [split] at member
  rcases List.mem_append.1 member with old | isLast
  · obtain ⟨other, present, -⟩ := mem_nodesWhere.1 old
    exact absurd (lt_size_of_bare? present) (Nat.not_lt.2 new)
  · rw [split, List.mem_singleton.1 isLast]

end Builder

end FragmentFlow.Graph
