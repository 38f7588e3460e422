import FragmentFlow.Proofs.Drawing.Fragments
import FragmentFlow.Proofs.Drawing.Index
import FragmentFlow.Proofs.Drawing.Numbering

/-!
# Edges and paths of a graph

The successors of a node are the edges that start at it and its predecessors the
edges that end at it, both in the order of all edges.  A path follows edges from node
to node; what it evaluates are the parts of the tree that its nodes stand for.
-/

namespace FragmentFlow.Graph

/-- Looking up all numbers of a list gives the list. -/
theorem filterMap_range_getElem? {α : Type} (list : List α) :
    (List.range list.length).filterMap (list[·]?) = list := by
  induction list with
  | nil => rfl
  | cons head tail ih =>
      rw [List.length_cons, List.range_succ_eq_map, List.filterMap_cons, List.filterMap_map]
      exact congrArg (head :: ·) ih

/-- Numbered elements for which a test holds, looked up one by one. -/
theorem filterMap_numbers (b : Builder) (test : Edge → Bool) :
    (b.numbers test).filterMap (b.edges[·]?) = b.edges.toList.filter test := by
  have all := filterMap_range_getElem? b.edges.toList
  simp only [Array.length_toList, Array.getElem?_toList] at all
  rw [← all, Builder.numbers, List.filterMap_filter, List.filter_filterMap]
  congr 1
  funext number
  cases b.edges[number]? with
  | none => rfl
  | some edge => cases holds : test edge <;> simp [holds, Option.filter]

/-- The numbers in a graph can be followed: the entry is a node, edges connect nodes, and a
node lists the edges that start at it, in any order and perhaps repeatedly. -/
structure WellFormed (graph : Graph) : Prop where
  nonempty : Graph.entry < graph.size
  connected : ∀ edge ∈ graph.edges, edge.source < graph.size ∧ edge.target < graph.size
  listed : ∀ (id : Nat) (node : Node), graph.nodes[id]? = some node → ∀ number,
    number ∈ node.outgoing ↔ ∃ edge, graph.edges[number]? = some edge ∧ edge.source = id

theorem WellFormed.mem_successors {graph : Graph} (well : graph.WellFormed) {id : Nat}
    {edge : Edge} : edge ∈ graph.successors id ↔ edge ∈ graph.edges ∧ edge.source = id := by
  rw [successors]
  cases found : graph.nodes[id]? with
  | none =>
      refine iff_of_false List.not_mem_nil ?_
      rintro ⟨member, rfl⟩
      have bound := Array.getElem?_eq_getElem (well.connected edge member).1
      cases found.symm.trans bound
  | some node =>
      have listed := well.listed id node found
      rw [List.mem_filterMap]
      constructor
      · rintro ⟨number, isListed, atNumber⟩
        obtain ⟨other, same, starts⟩ := (listed number).1 isListed
        cases atNumber.symm.trans same
        exact ⟨Array.mem_of_getElem? atNumber, starts⟩
      · rintro ⟨member, starts⟩
        obtain ⟨number, atNumber⟩ := Array.mem_iff_getElem?.1 member
        exact ⟨number, (listed number).2 ⟨edge, atNumber, starts⟩, atNumber⟩

namespace WellDrawn

variable {graph : Graph}

theorem successors_eq (well : graph.WellDrawn) {id : Nat} (bound : id < graph.size) :
    graph.successors id = graph.edges.toList.filter fun edge => edge.source == id := by
  obtain ⟨node, found⟩ : ∃ node, graph.nodes[id]? = some node :=
    ⟨_, Array.getElem?_eq_getElem bound⟩
  rw [successors, found]
  dsimp only
  rw [well.drawn.indexed.outgoing id node found]
  exact filterMap_numbers graph.toBuilder _

theorem predecessors_eq (well : graph.WellDrawn) {id : Nat} (bound : id < graph.size) :
    graph.predecessors id = graph.edges.toList.filter fun edge => edge.target == id := by
  obtain ⟨node, found⟩ : ∃ node, graph.nodes[id]? = some node :=
    ⟨_, Array.getElem?_eq_getElem bound⟩
  rw [predecessors, found]
  dsimp only
  rw [well.drawn.indexed.incoming id node found]
  exact filterMap_numbers graph.toBuilder _

/-- Edges lead to nodes. -/
theorem target_lt (well : graph.WellDrawn) {edge : Edge} (member : edge ∈ graph.edges) :
    edge.target < graph.size :=
  (well.drawn.edge_bounds member).2

theorem size_pos (well : graph.WellDrawn) : Graph.entry < graph.size :=
  Builder.lt_size_of_bare? well.entry

/-- No edge ends at the entry. -/
theorem target_ne_entry (well : graph.WellDrawn) {edge : Edge} (member : edge ∈ graph.edges) :
    edge.target ≠ Graph.entry := by
  intro isEntry
  obtain ⟨node, found, joins⟩ := well.drawn.joins_first member isEntry
  cases well.entry.symm.trans found
  cases joins

/-- A drawn graph is well-formed. -/
theorem wellFormed (well : graph.WellDrawn) : graph.WellFormed where
  nonempty := well.size_pos
  connected _ member := well.drawn.edge_bounds member
  listed id node found number := by
    rw [well.drawn.indexed.outgoing id node found, Builder.numbers, List.mem_filter,
      List.mem_range, Option.any_eq_true]
    simp only [beq_iff_eq]
    apply and_iff_right_of_imp
    rintro ⟨edge, atNumber, -⟩
    exact (Array.getElem?_eq_some_iff.1 atNumber).1

theorem mem_successors (well : graph.WellDrawn) {id : Nat} {edge : Edge} :
    edge ∈ graph.successors id ↔ edge ∈ graph.edges ∧ edge.source = id :=
  well.wellFormed.mem_successors

theorem mem_predecessors (well : graph.WellDrawn) {id : Nat} {edge : Edge} :
    edge ∈ graph.predecessors id ↔ edge ∈ graph.edges ∧ edge.target = id := by
  by_cases bound : id < graph.size
  · rw [well.predecessors_eq bound, List.mem_filter, Array.mem_toList_iff, beq_iff_eq]
  · have absent : graph.nodes[id]? = none := Array.getElem?_eq_none (Nat.le_of_not_lt bound)
    rw [predecessors, absent]
    constructor
    · exact fun member => nomatch member
    · rintro ⟨member, rfl⟩
      exact absurd (well.target_lt member) bound

/-- What the index gives for a part of the tree: the nodes in its place, the latest first,
and behind them the copies. -/
theorem nodesFor_eq (well : graph.WellDrawn) (tree : Nat) :
    graph.nodesFor tree = (graph.toBuilder.drawings false tree).reverse ++
      graph.toBuilder.drawings true tree :=
  well.drawn.listed tree

/-- The nodes for a part of the tree are those that evaluate it. -/
theorem mem_nodesFor (well : graph.WellDrawn) {tree id : Nat} :
    id ∈ graph.nodesFor tree ↔ ∃ node, graph.nodes[id]? = some node ∧ node.tree = some tree := by
  rw [well.nodesFor_eq, List.mem_append, List.mem_reverse, Builder.drawings, Builder.drawings,
    Builder.mem_nodesWhere, Builder.mem_nodesWhere]
  simp only [Node.isDrawing_iff]
  constructor
  · rintro (⟨node, found, isTree, -⟩ | ⟨node, found, isTree, -⟩) <;>
    · obtain ⟨drawn, present, rfl⟩ := Option.map_eq_some_iff.1 found
      exact ⟨drawn, present, isTree⟩
  · rintro ⟨node, present, isTree⟩
    have found := bare?_toBuilder present
    cases isCopy : node.isCopy with
    | false => exact Or.inl ⟨node.bare, found, isTree, isCopy⟩
    | true => exact Or.inr ⟨node.bare, found, isTree, isCopy⟩

end WellDrawn

/-- Edges lead from a node to another, past a list of nodes that ends with the last
one. -/
inductive Path (graph : Graph) (source : Nat) : List Nat → Nat → Prop
  | stay : Path graph source [] source
  | step {nodes : List Nat} {middle : Nat} {edge : Edge} :
      Path graph source nodes middle → edge ∈ graph.successors middle →
        Path graph source (nodes ++ [edge.target]) edge.target

/-- A path passes its last node. -/
theorem Path.last_mem {graph : Graph} {start last : Nat} {nodes : List Nat}
    (path : graph.Path start nodes last) : last ∈ start :: nodes := by
  cases path with
  | stay => exact List.mem_cons_self
  | step _ _ =>
      apply List.mem_cons_of_mem
      exact List.mem_append_right _ List.mem_cons_self

/-- A path that passes a node is a path to it and one from there. -/
theorem Path.split {graph : Graph} {start middle last : Nat} {nodes : List Nat}
    (path : graph.Path start nodes last) (member : middle ∈ start :: nodes) :
    ∃ before after, nodes = before ++ after ∧ graph.Path start before middle ∧
      graph.Path middle after last := by
  induction path with
  | stay =>
      cases List.mem_singleton.1 member
      exact ⟨[], [], rfl, .stay, .stay⟩
  | @step nodes previous edge path leaving ih =>
      rw [← List.cons_append] at member
      rcases List.mem_append.1 member with earlier | here
      · obtain ⟨before, after, rfl, first, second⟩ := ih earlier
        exact ⟨before, after ++ [edge.target], List.append_assoc .., first, .step second leaving⟩
      · cases List.mem_singleton.1 here
        exact ⟨nodes ++ [edge.target], [], (List.append_nil _).symm, .step path leaving, .stay⟩

/-- The parts of the tree that some nodes evaluate. -/
def trace (graph : Graph) (nodes : List Nat) : List Nat :=
  nodes.filterMap fun id => graph.nodes[id]?.bind Node.tree

/-- Control can come to a node. -/
def Reaches (graph : Graph) (id : Nat) : Prop :=
  ∃ nodes, graph.Path Graph.entry nodes id

/-- Control starts at the entry. -/
theorem Reaches.entry (graph : Graph) : graph.Reaches Graph.entry :=
  ⟨[], .stay⟩

theorem Reaches.lt_size {graph : Graph} (well : graph.WellDrawn) {id : Nat}
    (reaches : graph.Reaches id) : id < graph.size := by
  obtain ⟨nodes, path⟩ := reaches
  cases path with
  | stay => exact well.size_pos
  | step _ leaving => exact well.target_lt (well.mem_successors.1 leaving).1

/-- Control follows the edges. -/
theorem Reaches.step {graph : Graph} {id : Nat} {edge : Edge} (reaches : graph.Reaches id)
    (member : edge ∈ graph.successors id) : graph.Reaches edge.target := by
  obtain ⟨nodes, path⟩ := reaches
  exact ⟨_, .step path member⟩

/-- Every path from the entry to a node passes another one. -/
def Dominates (graph : Graph) (origin id : Nat) : Prop :=
  ∀ nodes, graph.Path Graph.entry nodes id → origin ∈ Graph.entry :: nodes

namespace Dominates

variable {graph : Graph} {origin id : Nat}

theorem self (graph : Graph) (id : Nat) : graph.Dominates id id :=
  fun _ path => path.last_mem

/-- Control that reaches a node reaches what dominates it. -/
theorem reaches (dominates : graph.Dominates origin id) (reaches : graph.Reaches id) :
    graph.Reaches origin := by
  obtain ⟨nodes, path⟩ := reaches
  obtain ⟨before, -, -, toOrigin, -⟩ := path.split (dominates nodes path)
  exact ⟨before, toOrigin⟩

/-- What dominates all predecessors of a node dominates it. -/
theorem of_last (well : graph.WellDrawn) (notEntry : id ≠ Graph.entry)
    (last : ∀ source kind, ⟨source, id, kind⟩ ∈ graph.edges → graph.Dominates origin source) :
    graph.Dominates origin id := by
  intro nodes path
  cases path with
  | stay => exact absurd rfl notEntry
  | step path leaving =>
      obtain ⟨drawn, rfl⟩ := well.mem_successors.1 leaving
      rw [← List.cons_append]
      exact List.mem_append_left _ (last _ _ drawn _ path)

end Dominates

end FragmentFlow.Graph
