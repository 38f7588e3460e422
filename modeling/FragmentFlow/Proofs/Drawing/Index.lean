import FragmentFlow.Proofs.Drawing.Census
import FragmentFlow.Proofs.Drawing.Steps

/-!
# The index of a drawing

While a graph is drawn, the nodes for a part of the tree are entered in an index: a node in
its place in front of the others, a copy behind them.  So the index lists the nodes that
stand for a part in its place, the latest first, and behind them the copies in the order of
their numbers.
-/

namespace FragmentFlow.Graph

namespace Index

/-- A lookup compares with the first key and goes on. -/
theorem find_cons (key : Nat) (ids : List Nat) (rest : Index) (tree : Nat) :
    find ((key, ids) :: rest) tree = if tree = key then ids else find rest tree := by
  rw [find, List.lookup_cons]
  by_cases same : tree = key
  · rw [if_pos same, beq_iff_eq.2 same]
    rfl
  · rw [if_neg same, beq_eq_false_iff_ne.2 same]
    rfl

/-- Adding a node changes what is listed for its own part of the tree only. -/
theorem find_add (index : Index) (tree id : Nat) (isCopy : Bool) (other : Nat) :
    (index.add tree id isCopy).find other =
      if other = tree then
        if isCopy then index.find other ++ [id] else id :: index.find other
      else index.find other := by
  induction index with
  | nil =>
      rw [add, find_cons]
      cases isCopy <;> rfl
  | cons entry rest ih =>
      obtain ⟨key, ids⟩ := entry
      by_cases isKey : key = tree
      · rw [add, if_pos isKey, find_cons, find_cons, isKey]
        by_cases same : other = tree
        · simp only [if_pos same]
        · simp only [if_neg same]
      · rw [add, if_neg isKey, find_cons, find_cons, ih]
        by_cases here : other = key
        · simp only [if_pos here, if_neg (here ▸ isKey : ¬ other = tree)]
        · simp only [if_neg here]

end Index

namespace Builder

variable {b later : Builder}

/-- The index lists the nodes in the place of a part of the tree, the latest first, and
behind them the copies. -/
def Listed (b : Builder) : Prop :=
  ∀ tree, b.index.find tree = (b.drawings false tree).reverse ++ b.drawings true tree

/-- Where no node is new, the index stays right. -/
theorem Listed.of_same (listed : b.Listed) (index : later.index = b.index)
    (size : later.nodes.size = b.nodes.size) (same : ∀ id, later.bare? id = b.bare? id) :
    later.Listed := by
  intro tree
  rw [index, drawings, drawings, nodesWhere_congr size same, nodesWhere_congr size same]
  exact listed tree

/-- A new node is entered where it belongs. -/
theorem Listed.addNode (listed : b.Listed) (node : Node) : (b.addNode node).2.Listed := by
  intro tree
  have old := listed tree
  rw [drawings, drawings] at old ⊢
  rw [nodesWhere_addNode, nodesWhere_addNode]
  obtain ⟨action, place, isCopy, operands, outgoing, incoming⟩ := node
  cases place with
  | none =>
      change b.index.find tree = _
      simpa [Node.isDrawing, Node.bare] using old
  | some place =>
      change (b.index.add place b.nodes.size isCopy).find tree = _
      rw [Index.find_add, old]
      by_cases same : tree = place
      · subst same
        cases isCopy <;> simp [Node.isDrawing, Node.bare]
      · simp [Node.isDrawing, Node.bare, same, Ne.symm same]

/-- An edge is not entered in the index. -/
theorem index_addEdge (b : Builder) (edge : Edge) : (b.addEdge edge).index = b.index := by
  unfold Builder.addEdge Canvas.addEdge
  split <;> rfl

/-- Edges leave the index alone. -/
theorem index_addEdges (b : Builder) (edges : List Edge) :
    (b.addEdges edges).index = b.index := by
  induction edges generalizing b with
  | nil => rfl
  | cons edge edges ih => exact (ih (b.addEdge edge)).trans (b.index_addEdge edge)

theorem Listed.addEdges (listed : b.Listed) (edges : List Edge) : (b.addEdges edges).Listed :=
  listed.of_same (b.index_addEdges edges) (b.size_addEdges edges) (b.bare?_addEdges edges)

/-- Every step of drawing keeps the index right. -/
theorem Drawn.listed (drawn : Drawn b) : b.Listed := by
  induction drawn with
  | refl => exact fun _ => rfl
  | moved _ nodes _ index ih =>
      exact ih.of_same index (congrArg Array.size nodes) (bare?_of_eq nodes)
  | grown _ _ _ _ ih =>
      rw [connect_eq]
      exact (ih.addNode _).addEdges _
  | linked _ _ _ ih => exact ih.addEdges [_]

end Builder

end FragmentFlow.Graph
