import FragmentFlow.Fragment
import FragmentFlow.Proofs.Tree.Numbering
import Mathlib.Data.List.Flatten
import Mathlib.Data.List.Nodup
import Mathlib.Data.List.Perm.Basic

/-!
# Positions and fragments of a tree

A tree has one position for each of its nodes, and the number of a node determines
its position.  So does the key of a fragment, and the fragment around a position is
one of the fragments of the tree.
-/

namespace FragmentFlow

namespace Tree

/-! ### Walks -/

/-- Preorder and postorder come to the same nodes. -/
theorem Node.preorder_perm (node : Node) : node.preorder.Perm node.postorder := by
  rw [Node.preorder_eq, Node.postorder_eq]
  have below : (node.children.flatMap Node.preorder).Perm (node.children.flatMap Node.postorder) :=
    List.Perm.flatMap_left _ fun child member => child.preorder_perm
  exact (below.cons node).trans (List.perm_append_singleton node _).symm
termination_by node.size
decreasing_by exact Node.size_lt_of_mem_children member

theorem Node.mem_preorder_self (node : Node) : node ∈ node.preorder := by
  rw [Node.preorder_eq]
  exact List.mem_cons_self

/-- What an item gives is part of what all items give. -/
theorem sublist_flatMap {α β : Type} {f : α → List β} {item : α} {items : List α}
    (member : item ∈ items) : (f item).Sublist (items.flatMap f) :=
  List.flatMap_singleton f item ▸ (List.singleton_sublist.2 member).flatMap f

/-- What lies below a child of a node lies below the node. -/
theorem Node.preorder_sublist_of_child {node child : Node} (member : child ∈ node.children) :
    child.preorder.Sublist node.preorder := by
  rw [node.preorder_eq]
  exact (sublist_flatMap member).cons node

/-- The preorder of an inner node is part of that of the outer one. -/
theorem Node.preorder_sublist {inner node : Node} (member : inner ∈ node.preorder) :
    inner.preorder.Sublist node.preorder := by
  rw [node.preorder_eq] at member
  rcases List.mem_cons.1 member with rfl | below
  · exact List.Sublist.refl _
  · obtain ⟨child, isChild, inside⟩ := List.mem_flatMap.1 below
    exact (preorder_sublist inside).trans (preorder_sublist_of_child isChild)
termination_by node.size
decreasing_by exact Node.size_lt_of_mem_children isChild

theorem Node.mem_ownNodes {inner node : Node} :
    inner ∈ node.ownNodes ↔
      inner = node ∨ node.isLambda = false ∧ ∃ child ∈ node.children, inner ∈ child.ownNodes := by
  rw [Node.ownNodes]
  cases node.isLambda with
  | true => simp
  | false => simp [List.mem_flatMap]

/-- Own nodes are in preorder. -/
theorem Node.ownNodes_sublist (node : Node) : node.ownNodes.Sublist node.preorder := by
  rw [Node.ownNodes, Node.preorder_eq]
  split
  · exact (List.nil_sublist _).cons_cons node
  · have below :
        (node.children.flatMap Node.ownNodes).Sublist (node.children.flatMap Node.preorder) :=
      List.Sublist.flatMap_right _ fun child member => child.ownNodes_sublist
    simpa [List.flatMap_subtype] using below.cons_cons node
termination_by node.size
decreasing_by exact Node.size_lt_of_mem_children member

/-- No two nodes of a tree have the same number. -/
theorem nodup_ids_ofUnit (unit : Source.CompilationUnit) (serial : Nat) :
    ((ofUnit unit serial).preorder.map Node.id).Nodup := by
  have same := (Node.preorder_perm (ofUnit unit serial).rootNode).map Node.id
  apply same.nodup_iff.2
  have numbered := ids_ofUnit unit serial
  rw [nodes] at numbered
  rw [numbered]
  exact List.nodup_range

/-! ### Positions -/

/-- The paths from a node on lead to the nodes below it, in preorder. -/
theorem Node.map_leaf_paths (tree : Tree) (above : List Node) (node : Node) :
    (node.paths tree above).map Path.leaf = node.preorder := by
  rw [Node.paths_eq, Node.preorder_eq, List.map_cons, List.map_flatMap]
  congr 1
  refine List.flatMap_congr fun child member => ?_
  exact child.map_leaf_paths tree (node :: above)
termination_by node.size
decreasing_by exact Node.size_lt_of_mem_children member

/-- The paths in a tree belong to it. -/
theorem Node.tree_of_mem_paths {tree : Tree} {above : List Node} {node : Node} {path : Path}
    (member : path ∈ node.paths tree above) : path.tree = tree := by
  rw [Node.paths_eq] at member
  rcases List.mem_cons.1 member with rfl | below
  · rfl
  · obtain ⟨child, isChild, inside⟩ := List.mem_flatMap.1 below
    exact tree_of_mem_paths inside
termination_by node.size
decreasing_by exact Node.size_lt_of_mem_children isChild

/-- Above a position of a subtree lies a position of the subtree, unless it is the
root of the subtree. -/
theorem Node.parent_mem_paths {tree : Tree} {above upper : List Node} {node leaf parent : Node}
    (member : ⟨tree, leaf, parent :: upper⟩ ∈ node.paths tree above) :
    ⟨tree, parent, upper⟩ ∈ node.paths tree above ∨ parent :: upper = above := by
  rw [Node.paths_eq] at member ⊢
  rcases List.mem_cons.1 member with same | below
  · cases same
    exact Or.inr rfl
  · left
    obtain ⟨child, isChild, inside⟩ := List.mem_flatMap.1 below
    rcases parent_mem_paths inside with found | same
    · exact List.mem_cons_of_mem _ (List.mem_flatMap.2 ⟨child, isChild, found⟩)
    · cases same
      exact List.mem_cons_self
termination_by node.size
decreasing_by exact Node.size_lt_of_mem_children isChild

/-- The parent of a position of a tree is one. -/
theorem parent_mem_paths {tree : Tree} {upper : List Node} {leaf parent : Node}
    (member : ⟨tree, leaf, parent :: upper⟩ ∈ tree.paths) : ⟨tree, parent, upper⟩ ∈ tree.paths := by
  rcases Node.parent_mem_paths member with found | same
  · exact found
  · cases same

/-- A path leads to a node of the tree. -/
theorem leaf_mem_preorder {tree : Tree} {path : Path} (member : path ∈ tree.paths) :
    path.leaf ∈ tree.preorder := by
  have leaves := Node.map_leaf_paths tree [] tree.rootNode
  rw [preorder, ← leaves]
  exact List.mem_map_of_mem member

/-- The number of its node determines a position of a tree. -/
theorem eq_of_leaf_id {unit : Source.CompilationUnit} {serial : Nat} {path other : Path}
    (member : path ∈ (ofUnit unit serial).paths) (found : other ∈ (ofUnit unit serial).paths)
    (same : path.leaf.id = other.leaf.id) : path = other := by
  have distinct := nodup_ids_ofUnit unit serial
  rw [preorder, ← Node.map_leaf_paths (ofUnit unit serial) [], List.map_map] at distinct
  exact List.inj_on_of_nodup_map distinct member found same

/-- Paths with the same numbers lead to the same number. -/
theorem Path.leaf_id_of_ids {path other : Path} (same : path.ids = other.ids) :
    path.leaf.id = other.leaf.id := by
  have reversed : (path.upward.map Node.id).reverse = (other.upward.map Node.id).reverse := by
    rw [← List.map_reverse, ← List.map_reverse]
    exact same
  exact List.head_eq_of_cons_eq (List.reverse_injective reversed)

end Tree

/-! ### Fragments -/

namespace Fragment

open FragmentFlow.Tree (Node Path)

theorem mem_fragments {tree : Tree} {fragment : Fragment} :
    fragment ∈ tree.fragments ↔ fragment.path ∈ tree.paths ∧
      classify fragment.path.leaf fragment.path.above.head? = some fragment.code := by
  rw [Tree.fragments, List.mem_filterMap]
  constructor
  · rintro ⟨path, member, found⟩
    obtain ⟨code, isCode, rfl⟩ := Option.map_eq_some_iff.1 found
    exact ⟨member, isCode⟩
  · intro found
    exact ⟨fragment.path, found.1, Option.map_eq_some_iff.2 ⟨fragment.code, found.2, rfl⟩⟩

/-- A fragment of a tree belongs to it. -/
theorem tree_of_mem_fragments {tree : Tree} {fragment : Fragment}
    (member : fragment ∈ tree.fragments) : fragment.path.tree = tree :=
  Node.tree_of_mem_paths (mem_fragments.1 member).1

/-- The key of a fragment of a tree determines it. -/
theorem eq_of_same {unit : Source.CompilationUnit} {serial : Nat} {fragment other : Fragment}
    (member : fragment ∈ (Tree.ofUnit unit serial).fragments)
    (found : other ∈ (Tree.ofUnit unit serial).fragments) (same : fragment.same other = true) :
    fragment = other := by
  obtain ⟨inPaths, isCode⟩ := mem_fragments.1 member
  obtain ⟨otherInPaths, isOtherCode⟩ := mem_fragments.1 found
  rw [Fragment.same, Path.same, Bool.and_eq_true, Bool.and_eq_true, beq_iff_eq, beq_iff_eq] at same
  have samePath : fragment.path = other.path :=
    Tree.eq_of_leaf_id inPaths otherInPaths (Path.leaf_id_of_ids same.1.2)
  have sameCode : fragment.code = other.code := by
    rw [samePath] at isCode
    exact Option.some.inj (isCode.symm.trans isOtherCode)
  obtain ⟨path, code⟩ := fragment
  cases samePath
  cases sameCode
  rfl

/-- A node that counts as being inside a fragment roots it. -/
theorem classify_of_classifyInside {node : Node} {parent : Option Node} {code : Code}
    (found : classifyInside node parent = some code) : classify node parent = some code := by
  unfold classifyInside at found
  split at found
  · exact found
  · exact found
  · exact found
  · cases found

theorem mem_fragments_of_locateFrom {tree : Tree} {node : Node} {above : List Node}
    {fragment : Fragment} (member : ⟨tree, node, above⟩ ∈ tree.paths)
    (located : locateFrom tree node above = some fragment) : fragment ∈ tree.fragments := by
  induction above generalizing node with
  | nil =>
      obtain ⟨code, found, rfl⟩ := Option.map_eq_some_iff.1 located
      exact mem_fragments.2 ⟨member, classify_of_classifyInside found⟩
  | cons parent above ih =>
      have parentMember := Tree.parent_mem_paths member
      unfold locateFrom at located
      split at located
      · rename_i code found
        cases located
        exact mem_fragments.2 ⟨member, classify_of_classifyInside found⟩
      · split at located
        · cases located
          exact mem_fragments.2 ⟨parentMember, rfl⟩
        · exact ih parentMember located

/-- The fragment around a position of a tree is one of the fragments of the tree. -/
theorem mem_fragments_of_locate {tree : Tree} {path : Path} {fragment : Fragment}
    (member : path ∈ tree.paths) (located : locate path = some fragment) :
    fragment ∈ tree.fragments := by
  cases Node.tree_of_mem_paths member
  exact mem_fragments_of_locateFrom member located

/-- What a fragment evaluates is its root or a child of it. -/
theorem body_of_classify {node body : Node} {parent : Option Node} {code : Code}
    (found : classify node parent = some code) (isBody : code.body? = some body) :
    body = node ∨ body ∈ node.children := by
  unfold classify at found
  split at found
  · rename_i decl
    cases found
    obtain ⟨block, present, rfl⟩ := Option.map_eq_some_iff.1 isBody
    right
    rw [Node.children, present]
    exact List.mem_append_right _ List.mem_cons_self
  · cases found
    cases isBody
    exact Or.inr List.mem_cons_self
  · cases found
    cases isBody
    exact Or.inl rfl
  · rename_i decl _
    obtain ⟨init, present, rfl⟩ := Option.map_eq_some_iff.1 found
    cases isBody
    right
    rw [Node.children, present]
    exact List.mem_cons_self
  · cases found

/-- No two nodes below the body of a fragment have the same number. -/
theorem nodup_ids_body {unit : Source.CompilationUnit} {serial : Nat} {fragment : Fragment}
    (member : fragment ∈ (Tree.ofUnit unit serial).fragments) {body : Node}
    (isBody : fragment.body? = some body) : (body.preorder.map Node.id).Nodup := by
  obtain ⟨inPaths, isCode⟩ := mem_fragments.1 member
  have inLeaf : body ∈ fragment.path.leaf.preorder := by
    rcases body_of_classify isCode isBody with same | isChild
    · rw [same]
      exact Node.mem_preorder_self _
    · exact (Node.preorder_sublist_of_child isChild).subset body.mem_preorder_self
  have inTree : fragment.path.leaf.preorder.Sublist (Tree.ofUnit unit serial).preorder :=
    Node.preorder_sublist (Tree.leaf_mem_preorder inPaths)
  have below := (Node.preorder_sublist inLeaf).trans inTree
  exact (Tree.nodup_ids_ofUnit unit serial).sublist (below.map Node.id)

/-- No two nodes below a node of a fragment have the same number. -/
theorem nodup_ids_of_mem_nodes {unit : Source.CompilationUnit} {serial : Nat} {fragment : Fragment}
    (member : fragment ∈ (Tree.ofUnit unit serial).fragments) {node : Node}
    (isNode : node ∈ fragment.nodes) : (node.preorder.map Node.id).Nodup := by
  rw [Fragment.nodes] at isNode
  split at isNode
  · cases isNode
  · rename_i body isBody
    have below := Node.preorder_sublist (body.ownNodes_sublist.subset isNode)
    exact (nodup_ids_body member isBody).sublist (below.map Node.id)

/-! ### Units with one initializer -/

section Initializers

variable (name : String) (body : List Source.Stmt)

/-- A class with nothing but a static initializer. -/
def initialized : Source.Class where
  name
  members := [.initializer true body]

/-- The tree of a unit with nothing but such a class. -/
def initializedTree : Tree :=
  Tree.ofUnit { name, classes := [initialized name body] }

/-- The block of the initializer. -/
def initializerBlock : Tree.Block :=
  .mk (Tree.numberStmts 0 body).2 true (Tree.numberStmts 0 body).1

/-- The initializer is the first fragment of the tree. -/
theorem fragments_initializedTree :
    ∃ rest, (initializedTree name body).fragments =
      { path :=
          { tree := initializedTree name body
            leaf := (initializerBlock body).toNode
            above := [.classDecl (Tree.numberClass 0 (initialized name body)).1,
              (initializedTree name body).rootNode] }
        code := .initializer (initializerBlock body) } :: rest := by
  have classes : (initializedTree name body).rootNode.children =
    [.classDecl (Tree.numberClass 0 (initialized name body)).1] := rfl
  have members : (Node.classDecl (Tree.numberClass 0 (initialized name body)).1).children =
    [(initializerBlock body).toNode] := rfl
  rw [Tree.fragments, Tree.paths, Node.paths_eq, classes, List.flatMap_singleton, Node.paths_eq,
    members, List.flatMap_singleton, Node.paths_eq]
  exact ⟨_, rfl⟩

theorem fragments_initializedTree_ne_nil : (initializedTree name body).fragments ≠ [] := by
  obtain ⟨rest, fragments⟩ := fragments_initializedTree name body
  rw [fragments]
  exact List.cons_ne_nil _ _

/-- The initializer as a fragment of the tree. -/
def initializerOf : Fragment :=
  (initializedTree name body).fragments.head (fragments_initializedTree_ne_nil name body)

/-- The initializer is a fragment of its tree. -/
theorem initializerOf_mem : initializerOf name body ∈ (initializedTree name body).fragments :=
  List.head_mem _

/-- The code of the initializer is its block. -/
theorem code_initializerOf :
    (initializerOf name body).code = .initializer (initializerBlock body) := by
  obtain ⟨rest, fragments⟩ := fragments_initializedTree name body
  simp only [initializerOf, fragments, List.head_cons]

end Initializers

end Fragment

end FragmentFlow
