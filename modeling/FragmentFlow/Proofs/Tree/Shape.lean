import FragmentFlow.Proofs.Tree.Positions
import Mathlib.Data.List.Chain

/-!
# The shape of an arena

The links in the arena of a unit are those of a tree: parents and parts agree, every node but
the root is a part of one node, the walk from the root meets the nodes from outside to inside
and from left to right, and the way up from any node ends at the root.  All this is read off
the numbered tree of the unit, of which the arena holds one entry for each node.
-/

namespace FragmentFlow.Tree

/-- The way from the root to a node leads through another node, or ends there. -/
def Arena.Encloses (arena : Arena) (outer inner : Nat) : Prop :=
  ∃ way, arena.pathTo? inner = some way ∧ outer ∈ way

/-- The links of the arena are those of a tree. -/
structure WellFormed (tree : Tree) : Prop where
  /-- The root is the last node. -/
  root_last : tree.arena.root + 1 = tree.arena.entries.size
  child_lt : ∀ id, ∀ child ∈ tree.arena.children id, child < id
  parent_iff : ∀ child id, tree.arena.parent? child = some id ↔ child ∈ tree.arena.children id
  /-- All lists of parts together hold each node but the root, and hold it once. -/
  children_once : ((List.range tree.arena.entries.size).flatMap tree.arena.children).Perm
    (List.range tree.arena.root)
  orphan_iff : ∀ id ≤ tree.arena.root, tree.arena.parent? id = none ↔ id = tree.arena.root
  /-- The walk from the root ends.  It meets each node once, a node before all below it, and
  what lies at or below a part before what lies at or below a later part. -/
  walk : ∃ order, tree.arena.descendants tree.arena.root = some order ∧
    order.Perm (List.range tree.arena.entries.size) ∧
    (∀ outer inner, tree.arena.Encloses outer inner → outer ≠ inner →
      [outer, inner].Sublist order) ∧
    ∀ id left right, [left, right].Sublist (tree.arena.children id) →
      ∀ one other, tree.arena.Encloses left one → tree.arena.Encloses right other →
        [one, other].Sublist order
  /-- The way up from a node ends.  The path found there starts at the root and goes down from
  part to part; without its end it is the path to the parent. -/
  path : ∀ id ≤ tree.arena.root, ∃ path, tree.pathTo? id = some path ∧
    tree.arena.pathTo? id = some path.ids ∧
    path.ids.head? = some tree.arena.root ∧ path.ids.getLast? = some id ∧
    path.ids.IsChain (fun parent child => child ∈ tree.arena.children parent) ∧
    path.parent? = (tree.arena.parent? id).bind tree.pathTo?

/-! ### Steps of a path -/

/-- A fact that passes from the children of a node to the node holds of every node. -/
theorem Node.induction {motive : Node → Prop}
    (step : ∀ node : Node, (∀ child ∈ node.children, motive child) → motive node)
    (node : Node) : motive node :=
  step node fun child _ => Node.induction step child
termination_by node.size
decreasing_by exact Node.size_lt_of_mem_children ‹_›

/-- The paths from a node on start with the one to itself. -/
theorem Node.self_mem_paths (tree : Tree) (above : List Node) (node : Node) :
    ⟨tree, node, above⟩ ∈ node.paths tree above := by
  rw [Node.paths_eq]
  exact List.mem_cons_self

/-- A path to a node goes on to each of its children. -/
theorem Node.child_mem_paths {tree : Tree} {above upper : List Node} {node parent child : Node}
    (member : ⟨tree, parent, upper⟩ ∈ node.paths tree above) (isChild : child ∈ parent.children) :
    ⟨tree, child, parent :: upper⟩ ∈ node.paths tree above := by
  induction node using Node.induction generalizing above with
  | step node ih =>
      rw [Node.paths_eq] at member ⊢
      apply List.mem_cons_of_mem
      rcases List.mem_cons.1 member with same | below
      · cases same
        exact List.mem_flatMap.2 ⟨child, isChild, child.self_mem_paths tree _⟩
      · obtain ⟨next, isNext, inside⟩ := List.mem_flatMap.1 below
        exact List.mem_flatMap.2 ⟨next, isNext, ih next isNext inside⟩

/-- The node before the last one of a path is the parent of the last. -/
theorem Node.isChild_of_mem_paths {tree : Tree} {above upper : List Node}
    {node leaf parent : Node} (member : ⟨tree, leaf, parent :: upper⟩ ∈ node.paths tree above) :
    leaf ∈ parent.children ∨ leaf = node ∧ parent :: upper = above := by
  induction node using Node.induction generalizing above with
  | step node ih =>
      rw [Node.paths_eq] at member
      rcases List.mem_cons.1 member with same | below
      · cases same
        exact Or.inr ⟨rfl, rfl⟩
      · obtain ⟨next, isNext, inside⟩ := List.mem_flatMap.1 below
        rcases ih next isNext inside with isChild | ⟨rfl, same⟩
        · exact Or.inl isChild
        · cases same
          exact Or.inl isNext

/-- A position below the root is a position of a child of the node above it. -/
theorem mem_paths_cons {tree : Tree} {upper : List Node} {leaf parent : Node} :
    ⟨tree, leaf, parent :: upper⟩ ∈ tree.paths ↔
      ⟨tree, parent, upper⟩ ∈ tree.paths ∧ leaf ∈ parent.children := by
  constructor
  · intro member
    refine ⟨parent_mem_paths member, ?_⟩
    rcases Node.isChild_of_mem_paths member with isChild | ⟨-, same⟩
    · exact isChild
    · cases same
  · intro found
    exact Node.child_mem_paths found.1 found.2

/-- Paths from a node on keep what is above it. -/
theorem Node.suffix_of_mem_paths {tree : Tree} {above : List Node} {node : Node} {path : Path}
    (member : path ∈ node.paths tree above) : above <:+ path.above := by
  induction node using Node.induction generalizing above with
  | step node ih =>
      rw [Node.paths_eq] at member
      rcases List.mem_cons.1 member with rfl | below
      · exact List.suffix_refl above
      · obtain ⟨child, isChild, inside⟩ := List.mem_flatMap.1 below
        exact (List.suffix_cons node above).trans (ih child isChild inside)

/-- The path with nothing above it leads to the root. -/
theorem eq_rootNode_of_mem_paths {tree : Tree} {leaf : Node}
    (member : ⟨tree, leaf, []⟩ ∈ tree.paths) : leaf = tree.rootNode := by
  rw [paths, Node.paths_eq] at member
  rcases List.mem_cons.1 member with same | below
  · cases same
    rfl
  · obtain ⟨child, -, inside⟩ := List.mem_flatMap.1 below
    have impossible := List.suffix_nil.1 (Node.suffix_of_mem_paths inside)
    cases impossible

theorem mem_nodes_iff {tree : Tree} {node : Node} : node ∈ tree.nodes ↔ node ∈ tree.preorder :=
  (Node.preorder_perm tree.rootNode).mem_iff.symm

/-- There is a path to every node. -/
theorem exists_path {tree : Tree} {node : Node} (member : node ∈ tree.nodes) :
    ∃ above, ⟨tree, node, above⟩ ∈ tree.paths := by
  rw [mem_nodes_iff, preorder, ← Node.map_leaf_paths tree []] at member
  obtain ⟨path, isPath, rfl⟩ := List.mem_map.1 member
  cases Node.tree_of_mem_paths isPath
  exact ⟨path.above, isPath⟩

/-- A path to a node begins with a path to each of its ancestors. -/
theorem ancestor_mem_paths {tree : Tree} {leaf upper : Node} {between rest : List Node}
    (member : ⟨tree, leaf, between ++ upper :: rest⟩ ∈ tree.paths) :
    ⟨tree, upper, rest⟩ ∈ tree.paths := by
  induction between generalizing leaf with
  | nil => exact (mem_paths_cons.1 member).1
  | cons parent between ih => exact ih (mem_paths_cons.1 member).1

/-- On the way down from a node to a position lies one of the children of the node. -/
theorem mem_preorder_children {tree : Tree} {leaf upper : Node} {between rest : List Node}
    (member : ⟨tree, leaf, between ++ upper :: rest⟩ ∈ tree.paths) :
    leaf ∈ upper.children.flatMap Node.preorder := by
  induction between generalizing leaf with
  | nil =>
      have isChild := (mem_paths_cons.1 member).2
      exact List.mem_flatMap.2 ⟨leaf, isChild, leaf.mem_preorder_self⟩
  | cons parent between ih =>
      obtain ⟨parentMember, isChild⟩ := mem_paths_cons.1 member
      obtain ⟨next, isNext, inside⟩ := List.mem_flatMap.1 (ih parentMember)
      have below := (Node.preorder_sublist inside).subset
        ((Node.preorder_sublist_of_child isChild).subset leaf.mem_preorder_self)
      exact List.mem_flatMap.2 ⟨next, isNext, below⟩

/-- The numbers along a path end with that of its leaf. -/
theorem Path.ids_cons (tree : Tree) (leaf parent : Node) (above : List Node) :
    Path.ids ⟨tree, leaf, parent :: above⟩ = Path.ids ⟨tree, parent, above⟩ ++ [leaf.id] := by
  simp [Path.ids, Path.upward]

/-- The last number along a path is that of its leaf. -/
theorem Path.getLast?_ids (path : Path) : path.ids.getLast? = some path.leaf.id := by
  simp [Path.ids, Path.upward]

/-! ### Postorder -/

theorem Node.mem_postorder_self (node : Node) : node ∈ node.postorder := by
  rw [Node.postorder_eq]
  exact List.mem_append_right _ List.mem_cons_self

/-- The postorder of an inner node is part of that of the outer one. -/
theorem Node.postorder_sublist {inner node : Node} (member : inner ∈ node.postorder) :
    inner.postorder.Sublist node.postorder := by
  induction node using Node.induction with
  | step node ih =>
      rw [node.postorder_eq, List.mem_append, List.mem_singleton] at member
      rcases member with below | rfl
      · obtain ⟨child, isChild, inside⟩ := List.mem_flatMap.1 below
        have inChild := ih child isChild inside
        rw [node.postorder_eq]
        exact (inChild.trans (sublist_flatMap isChild)).trans (List.sublist_append_left _ _)
      · exact List.Sublist.refl _

/-- The children of all nodes of a subtree, and its root, are the nodes of the subtree. -/
theorem Node.children_perm (node : Node) :
    (node.postorder.flatMap Node.children ++ [node]).Perm node.postorder := by
  induction node using Node.induction with
  | step node ih =>
      have below : (node.children.flatMap fun child =>
          child.postorder.flatMap Node.children ++ [child]).Perm
          (node.children.flatMap Node.postorder) := List.Perm.flatMap_left _ ih
      have apart : (node.children.flatMap fun child =>
          child.postorder.flatMap Node.children ++ [child]).Perm
          ((node.children.flatMap Node.postorder).flatMap Node.children ++ node.children) := by
        refine (List.flatMap_append_perm _ _ _).symm.trans ?_
        rw [List.flatMap_assoc, List.flatMap_singleton']
      have self : [node].flatMap Node.children = node.children := List.flatMap_singleton ..
      rw [node.postorder_eq, List.flatMap_append, self]
      exact (apart.symm.trans below).append_right _

/-! ### Looking up numbers -/

theorem find?_key_iff {α : Type} (key : α → Nat) {items : List α}
    (distinct : (items.map key).Nodup) {number : Nat} {item : α} :
    items.find? (fun item => key item == number) = some item ↔
      item ∈ items ∧ key item = number := by
  constructor
  · intro found
    exact ⟨List.mem_of_find?_eq_some found, by simpa using List.find?_some found⟩
  · rintro ⟨member, rfl⟩
    cases found : items.find? (fun other => key other == key item) with
    | none =>
        have missing := List.find?_eq_none.1 found item member
        simp at missing
    | some other =>
        have same : key other = key item := by simpa using List.find?_some found
        rw [List.inj_on_of_nodup_map distinct (List.mem_of_find?_eq_some found) member same]

/-! ### Entries -/

/-- The nodes of a subtree below a parent as they are stored, with their numbers. -/
def Node.listed (parent : Option Nat) (node : Node) : List (Nat × Entry) :=
  (node.children.attach.flatMap fun child => child.1.listed (some node.id)) ++
    [(node.id, { kind := node.kind, parent })]
termination_by node.size
decreasing_by exact Node.size_lt_of_mem_children child.2

theorem Node.listed_eq (parent : Option Nat) (node : Node) :
    node.listed parent = node.children.flatMap (Node.listed (some node.id)) ++
      [(node.id, { kind := node.kind, parent })] := by
  rw [Node.listed]
  simp [List.flatMap_subtype]

/-- Entries are listed under the numbers of their nodes. -/
theorem Node.map_fst_listed (parent : Option Nat) (node : Node) :
    (node.listed parent).map Prod.fst = node.postorder.map Node.id := by
  induction node using Node.induction generalizing parent with
  | step node ih =>
      rw [listed_eq, postorder_eq, List.map_append, List.map_append, List.map_flatMap,
        List.map_flatMap]
      congr 1
      exact List.flatMap_congr fun child isChild => ih child isChild _

/-- The entries in the list are those that are stored. -/
theorem Node.map_snd_listed (parent : Option Nat) (node : Node) :
    (node.listed parent).map Prod.snd = node.stored parent := by
  induction node using Node.induction generalizing parent with
  | step node ih =>
      rw [listed_eq, stored_eq, List.map_append, List.map_flatMap]
      congr 1
      exact List.flatMap_congr fun child isChild => ih child isChild _

/-- A position is listed with the node above it as the parent. -/
theorem Node.mem_listed {tree : Tree} {above : List Node} {node : Node} {path : Path}
    (member : path ∈ node.paths tree above) :
    (path.leaf.id, ⟨path.leaf.kind, path.above.head?.map Node.id⟩) ∈
      node.listed (above.head?.map Node.id) := by
  induction node using Node.induction generalizing above with
  | step node ih =>
      rw [Node.paths_eq] at member
      rw [listed_eq, List.mem_append]
      rcases List.mem_cons.1 member with rfl | below
      · exact Or.inr List.mem_cons_self
      · obtain ⟨child, isChild, inside⟩ := List.mem_flatMap.1 below
        exact Or.inl (List.mem_flatMap.2 ⟨child, isChild, ih child isChild inside⟩)

section Numbered

variable {unit : Source.CompilationUnit} {serial id : Nat}

/-- The arena has a node at its number, with the node above it as its parent. -/
theorem entry_of_mem_paths {leaf : Node} {above : List Node}
    (member : ⟨ofUnit unit serial, leaf, above⟩ ∈ (ofUnit unit serial).paths) :
    (ofUnit unit serial).arena.entries[leaf.id]? =
      some ⟨leaf.kind, above.head?.map Node.id⟩ := by
  obtain ⟨place, found⟩ := List.mem_iff_getElem?.1 (Node.mem_listed member)
  have number : ((ofUnit unit serial).nodes.map Node.id)[place]? = some leaf.id := by
    have first := congrArg (Option.map Prod.fst) found
    rw [← List.getElem?_map, Node.map_fst_listed] at first
    exact first
  rw [ids_ofUnit] at number
  obtain ⟨small, isPlace⟩ := List.getElem?_eq_some_iff.1 number
  obtain rfl : place = leaf.id := by rwa [List.getElem_range] at isPlace
  rw [arena_ofUnit, List.getElem?_toArray, ← Node.map_snd_listed, List.getElem?_map]
  exact congrArg (Option.map Prod.snd) found

/-- The root of the arena is the number of the root. -/
theorem root_arena (unit : Source.CompilationUnit) (serial : Nat) :
    (ofUnit unit serial).arena.root = (ofUnit unit serial).root.id := by
  rw [arena_ofUnit]

theorem size_arena (unit : Source.CompilationUnit) (serial : Nat) :
    (ofUnit unit serial).arena.entries.size = (ofUnit unit serial).root.id + 1 := by
  have counted := congrArg List.length (ids_ofUnit unit serial)
  rw [List.length_map, List.length_range] at counted
  rw [arena_ofUnit, List.size_toArray, Node.length_stored]
  exact counted

/-- A number belongs to one node. -/
theorem eq_of_id {node other : Node} (member : node ∈ (ofUnit unit serial).nodes)
    (found : other ∈ (ofUnit unit serial).nodes) (same : node.id = other.id) : node = other :=
  List.inj_on_of_nodup_map (nodup_ids_ofUnit unit serial) (mem_nodes_iff.1 member)
    (mem_nodes_iff.1 found) same

theorem node?_eq_some_iff {node : Node} : (ofUnit unit serial).node? id = some node ↔
    node ∈ (ofUnit unit serial).nodes ∧ node.id = id := by
  apply find?_key_iff Node.id
  rw [ids_ofUnit]
  exact List.nodup_range

/-- No number is larger than that of the root. -/
theorem id_le_root {node : Node} (member : node ∈ (ofUnit unit serial).nodes) :
    node.id ≤ (ofUnit unit serial).root.id := by
  have listed : node.id ∈ (ofUnit unit serial).nodes.map Node.id := List.mem_map_of_mem member
  rw [ids_ofUnit] at listed
  exact Nat.le_of_lt_succ (List.mem_range.1 listed)

/-- Every number up to that of the root belongs to a node. -/
theorem exists_node (small : id ≤ (ofUnit unit serial).root.id) :
    ∃ node ∈ (ofUnit unit serial).nodes, node.id = id := by
  have member : id ∈ (ofUnit unit serial).nodes.map Node.id := by
    rw [ids_ofUnit]
    exact List.mem_range.2 (Nat.lt_succ_of_le small)
  exact List.mem_map.1 member

theorem mem_nodes_of_path {leaf : Node} {above : List Node}
    (member : ⟨ofUnit unit serial, leaf, above⟩ ∈ (ofUnit unit serial).paths) :
    leaf ∈ (ofUnit unit serial).nodes :=
  mem_nodes_iff.2 (leaf_mem_preorder member)

/-! ### Parts and parents -/

/-- What is stored at a number is a node of the tree. -/
theorem exists_node_of_entry {entry : Entry}
    (stored : (ofUnit unit serial).arena.entries[id]? = some entry) :
    ∃ node ∈ (ofUnit unit serial).nodes, node.id = id ∧ entry.kind = node.kind := by
  obtain ⟨small, -⟩ := Array.getElem?_eq_some_iff.1 stored
  rw [size_arena] at small
  obtain ⟨node, member, rfl⟩ := exists_node (Nat.le_of_lt_succ small)
  obtain ⟨above, isPath⟩ := exists_path member
  cases (entry_of_mem_paths isPath).symm.trans stored
  exact ⟨node, member, rfl, rfl⟩

/-- The stored children of a node are the numbers of its children. -/
theorem children_id {node : Node} (member : node ∈ (ofUnit unit serial).nodes) :
    (ofUnit unit serial).arena.children node.id = node.children.map Node.id := by
  obtain ⟨above, isPath⟩ := exists_path member
  rw [Arena.children, entry_of_mem_paths isPath, Option.map_some, Option.getD_some,
    Node.parts_kind]

theorem mem_children {child : Nat} : child ∈ (ofUnit unit serial).arena.children id ↔
    ∃ node ∈ (ofUnit unit serial).nodes, node.id = id ∧ child ∈ node.children.map Node.id := by
  constructor
  · intro member
    cases stored : (ofUnit unit serial).arena.entries[id]? with
    | none =>
        rw [Arena.children, stored] at member
        cases member
    | some entry =>
        obtain ⟨node, isNode, rfl, -⟩ := exists_node_of_entry stored
        exact ⟨node, isNode, rfl, children_id isNode ▸ member⟩
  · rintro ⟨node, isNode, rfl, member⟩
    rw [children_id isNode]
    exact member

/-- The parent of a node is the node above it. -/
theorem parent?_of_mem_paths {leaf : Node} {above : List Node}
    (member : ⟨ofUnit unit serial, leaf, above⟩ ∈ (ofUnit unit serial).paths) :
    (ofUnit unit serial).arena.parent? leaf.id = above.head?.map Node.id := by
  rw [Arena.parent?, entry_of_mem_paths member]
  rfl

theorem parent?_eq_some_iff {child : Nat} : (ofUnit unit serial).arena.parent? child = some id ↔
    child ∈ (ofUnit unit serial).arena.children id := by
  rw [mem_children]
  constructor
  · intro found
    obtain ⟨entry, stored, -⟩ := Option.bind_eq_some_iff.1 found
    obtain ⟨leaf, member, rfl, -⟩ := exists_node_of_entry stored
    obtain ⟨above, isPath⟩ := exists_path member
    rw [parent?_of_mem_paths isPath] at found
    cases above with
    | nil => cases found
    | cons parent above =>
        cases found
        obtain ⟨parentMember, isChild⟩ := mem_paths_cons.1 isPath
        exact ⟨parent, mem_nodes_of_path parentMember, rfl, List.mem_map_of_mem isChild⟩
  · rintro ⟨node, member, rfl, inChildren⟩
    obtain ⟨leaf, isChild, rfl⟩ := List.mem_map.1 inChildren
    obtain ⟨above, isPath⟩ := exists_path member
    exact parent?_of_mem_paths (mem_paths_cons.2 ⟨isPath, isChild⟩)

/-- A node is a child of one node only. -/
theorem parent_unique {node other child part : Node} (member : node ∈ (ofUnit unit serial).nodes)
    (isChild : child ∈ node.children) (otherMember : other ∈ (ofUnit unit serial).nodes)
    (isPart : part ∈ other.children) (same : child.id = part.id) : node = other := by
  have parent := fun {node child : Node} (member : node ∈ (ofUnit unit serial).nodes)
      (isChild : child ∈ node.children) =>
    parent?_eq_some_iff.2 (mem_children.2 ⟨node, member, rfl, List.mem_map_of_mem isChild⟩)
  have ids := (parent member isChild).symm.trans (same ▸ parent otherMember isPart)
  exact eq_of_id member otherMember (Option.some.inj ids)

/-- Children of nodes are nodes. -/
theorem child_mem_nodes {node child : Node} (member : node ∈ (ofUnit unit serial).nodes)
    (isChild : child ∈ node.children) : child ∈ (ofUnit unit serial).nodes := by
  obtain ⟨above, isPath⟩ := exists_path member
  exact mem_nodes_of_path (mem_paths_cons.2 ⟨isPath, isChild⟩)

/-- A child has a smaller number than its parent. -/
theorem id_lt_of_child {node child : Node} (member : node ∈ (ofUnit unit serial).nodes)
    (isChild : child ∈ node.children) : child.id < node.id := by
  have increasing : ((ofUnit unit serial).nodes.map Node.id).Pairwise (· < ·) := by
    rw [ids_ofUnit]
    exact List.pairwise_lt_range
  have inside := increasing.sublist ((Node.postorder_sublist member).map Node.id)
  rw [node.postorder_eq, List.map_append, List.pairwise_append] at inside
  refine inside.2.2 child.id ?_ node.id List.mem_cons_self
  exact List.mem_map_of_mem (List.mem_flatMap.2 ⟨child, isChild, child.mem_postorder_self⟩)

/-- Only the root has no parent. -/
theorem parent?_eq_none_iff {node : Node} (member : node ∈ (ofUnit unit serial).nodes) :
    (ofUnit unit serial).arena.parent? node.id = none ↔
      node.id = (ofUnit unit serial).root.id := by
  obtain ⟨above, isPath⟩ := exists_path member
  rw [parent?_of_mem_paths isPath]
  cases above with
  | nil =>
      rw [eq_rootNode_of_mem_paths isPath]
      exact iff_of_true rfl rfl
  | cons parent above =>
      obtain ⟨parentMember, isChild⟩ := mem_paths_cons.1 isPath
      have inTree := mem_nodes_of_path parentMember
      have below := Nat.lt_of_lt_of_le (id_lt_of_child inTree isChild) (id_le_root inTree)
      exact iff_of_false (Option.some_ne_none _) (Nat.ne_of_lt below)

/-- All numbers but that of the root are stored as a child, each one once. -/
theorem children_once (unit : Source.CompilationUnit) (serial : Nat) :
    ((List.range (ofUnit unit serial).arena.entries.size).flatMap
      (ofUnit unit serial).arena.children).Perm (List.range (ofUnit unit serial).arena.root) := by
  have ids : (List.range (ofUnit unit serial).arena.entries.size).flatMap
      (ofUnit unit serial).arena.children =
      ((ofUnit unit serial).nodes.flatMap Node.children).map Node.id := by
    have numbers : List.range ((ofUnit unit serial).root.id + 1) = _ :=
      (ids_ofUnit unit serial).symm
    rw [size_arena, numbers, List.flatMap_map, List.map_flatMap]
    exact List.flatMap_congr fun node member => children_id member
  have whole := (Node.children_perm (ofUnit unit serial).rootNode).map Node.id
  have numbers : (ofUnit unit serial).rootNode.postorder.map Node.id = _ := ids_ofUnit unit serial
  rw [numbers, List.map_append, List.range_succ] at whole
  rw [ids, root_arena]
  exact (List.perm_append_right_iff _).1 whole

/-! ### The way up -/

/-- There is no way up from a number that is not there. -/
theorem Arena.climb_of_none {arena : Arena} {id : Nat} (absent : arena.entries[id]? = none)
    (limit : Nat) (way : List Nat) : arena.climb limit id way = none := by
  cases limit with
  | zero => rfl
  | succ limit => rw [climb, absent]

/-- The way up from a node goes through the nodes above it. -/
theorem climb_of_mem_paths {leaf : Node} {above : List Node}
    (member : ⟨ofUnit unit serial, leaf, above⟩ ∈ (ofUnit unit serial).paths) (limit : Nat)
    (way : List Nat) : (ofUnit unit serial).arena.climb (limit + above.length + 1) leaf.id way =
      some (Path.ids ⟨ofUnit unit serial, leaf, above⟩ ++ way) := by
  induction above generalizing leaf way with
  | nil =>
      rw [Arena.climb, entry_of_mem_paths member]
      rfl
  | cons parent above ih =>
      rw [Arena.climb, entry_of_mem_paths member, Path.ids_cons, List.append_assoc]
      exact ih (mem_paths_cons.1 member).1 (leaf.id :: way)

/-- The numbers grow on the way up, so it is no longer than there are nodes. -/
theorem length_above_le {leaf : Node} {above : List Node}
    (member : ⟨ofUnit unit serial, leaf, above⟩ ∈ (ofUnit unit serial).paths) :
    leaf.id + above.length ≤ (ofUnit unit serial).root.id := by
  induction above generalizing leaf with
  | nil =>
      rw [eq_rootNode_of_mem_paths member]
      exact Nat.le_refl _
  | cons parent above ih =>
      obtain ⟨parentMember, isChild⟩ := mem_paths_cons.1 member
      have less := id_lt_of_child (mem_nodes_of_path parentMember) isChild
      have further := ih parentMember
      rw [List.length_cons]
      omega

/-- The way up from a node is the way down to it. -/
theorem arena_pathTo?_of_mem_paths {path : Path} (member : path ∈ (ofUnit unit serial).paths) :
    (ofUnit unit serial).arena.pathTo? path.leaf.id = some path.ids := by
  obtain ⟨tree, leaf, above⟩ := path
  cases Node.tree_of_mem_paths member
  have short := length_above_le member
  obtain ⟨limit, enough⟩ : ∃ limit, (ofUnit unit serial).arena.entries.size =
      limit + above.length + 1 := by
    rw [size_arena]
    exact ⟨(ofUnit unit serial).root.id - above.length, by omega⟩
  rw [Arena.pathTo?, enough, climb_of_mem_paths member, List.append_nil]
  rfl

/-- Numbers of nodes lead back to the nodes. -/
theorem mapM_node? {nodes : List Node}
    (members : ∀ node ∈ nodes, node ∈ (ofUnit unit serial).nodes) :
    (nodes.map Node.id).mapM (ofUnit unit serial).node? = some nodes := by
  induction nodes with
  | nil => rfl
  | cons node nodes ih =>
      have first := node?_eq_some_iff.2 ⟨members node List.mem_cons_self, rfl⟩
      have rest := ih fun other member => members other (List.mem_cons_of_mem _ member)
      rw [List.map_cons, List.mapM_cons, first, rest]
      rfl

/-- All nodes along a path are nodes of the tree. -/
theorem upward_mem_nodes {path : Path} (member : path ∈ (ofUnit unit serial).paths) :
    ∀ node ∈ path.upward, node ∈ (ofUnit unit serial).nodes := by
  obtain ⟨tree, leaf, above⟩ := path
  cases Node.tree_of_mem_paths member
  intro node onPath
  rcases List.mem_cons.1 onPath with rfl | isAbove
  · exact mem_nodes_of_path member
  · obtain ⟨between, rest, isSplit⟩ := List.append_of_mem isAbove
    dsimp only at isSplit
    subst isSplit
    exact mem_nodes_of_path (ancestor_mem_paths member)

/-- Climbing from a leaf gives the path to it. -/
theorem pathTo?_of_mem_paths {path : Path} (member : path ∈ (ofUnit unit serial).paths) :
    (ofUnit unit serial).pathTo? path.leaf.id = some path := by
  have back : path.ids.reverse = path.upward.map Node.id := by
    rw [Path.ids, ← List.map_reverse, List.reverse_reverse]
  have upward := mapM_node? (upward_mem_nodes member)
  unfold Tree.pathTo?
  rw [arena_pathTo?_of_mem_paths member, Option.bind_eq_bind, Option.bind_some, back, upward]
  obtain ⟨tree, leaf, above⟩ := path
  cases Node.tree_of_mem_paths member
  rfl

theorem pathTo?_eq_some_iff {path : Path} : (ofUnit unit serial).pathTo? id = some path ↔
    path ∈ (ofUnit unit serial).paths ∧ path.leaf.id = id := by
  constructor
  · intro found
    obtain ⟨way, climbed, -⟩ := Option.bind_eq_some_iff.1 found
    cases stored : (ofUnit unit serial).arena.entries[id]? with
    | none =>
        rw [Arena.pathTo?, Arena.climb_of_none stored] at climbed
        cases climbed
    | some entry =>
        obtain ⟨node, isNode, rfl, -⟩ := exists_node_of_entry stored
        obtain ⟨above, isPath⟩ := exists_path isNode
        cases (pathTo?_of_mem_paths isPath).symm.trans found
        exact ⟨isPath, rfl⟩
  · rintro ⟨member, rfl⟩
    exact pathTo?_of_mem_paths member

/-- A path starts at the root and goes down from part to part. -/
theorem chain_of_mem_paths {leaf : Node} {above : List Node}
    (member : ⟨ofUnit unit serial, leaf, above⟩ ∈ (ofUnit unit serial).paths) :
    (Path.ids ⟨ofUnit unit serial, leaf, above⟩).head? = some (ofUnit unit serial).arena.root ∧
    (Path.ids ⟨ofUnit unit serial, leaf, above⟩).IsChain
      (fun parent child => child ∈ (ofUnit unit serial).arena.children parent) := by
  induction above generalizing leaf with
  | nil =>
      cases eq_rootNode_of_mem_paths member
      rw [root_arena]
      exact ⟨rfl, List.IsChain.singleton _⟩
  | cons parent above ih =>
      obtain ⟨parentMember, isChild⟩ := mem_paths_cons.1 member
      obtain ⟨start, chain⟩ := ih parentMember
      rw [Path.ids_cons]
      constructor
      · rw [List.head?_append, start]
        rfl
      · refine chain.append (List.IsChain.singleton _) ?_
        intro last isLast next isNext
        rw [Path.getLast?_ids] at isLast
        cases isLast
        cases isNext
        rw [children_id (mem_nodes_of_path parentMember)]
        exact List.mem_map_of_mem isChild

/-- The path to a node without its end is the path to its parent. -/
theorem parent?_path {path : Path} (member : path ∈ (ofUnit unit serial).paths) :
    path.parent? =
      ((ofUnit unit serial).arena.parent? path.leaf.id).bind (ofUnit unit serial).pathTo? := by
  obtain ⟨tree, leaf, above⟩ := path
  cases Node.tree_of_mem_paths member
  rw [parent?_of_mem_paths member]
  cases above with
  | nil => rfl
  | cons parent above => exact (pathTo?_of_mem_paths (parent_mem_paths member)).symm

/-! ### The walk down -/

/-- The nodes have the numbers below their count. -/
theorem preorder_perm (unit : Source.CompilationUnit) (serial : Nat) :
    ((ofUnit unit serial).preorder.map Node.id).Perm
      (List.range (ofUnit unit serial).arena.entries.size) := by
  have same := (Node.preorder_perm (ofUnit unit serial).rootNode).map Node.id
  have numbers : (ofUnit unit serial).rootNode.postorder.map Node.id = _ := ids_ofUnit unit serial
  rw [numbers] at same
  rw [size_arena]
  exact same

/-- Subtrees on top of the stack are walked one after the other. -/
theorem walk_parts {arena : Arena} {parts : List Node}
    (each : ∀ part ∈ parts, ∀ limit stack met,
      arena.walk (part.preorder.length + limit) (part.id :: stack) met =
        arena.walk limit stack (met ++ (part.preorder.map Node.id).toArray))
    (limit : Nat) (stack : List Nat) (met : Array Nat) :
    arena.walk ((parts.flatMap Node.preorder).length + limit) (parts.map Node.id ++ stack) met =
      arena.walk limit stack (met ++ ((parts.flatMap Node.preorder).map Node.id).toArray) := by
  induction parts generalizing met with
  | nil =>
      rw [List.flatMap_nil, List.map_nil, Array.append_empty, List.length_nil, Nat.zero_add]
      rfl
  | cons part parts ih =>
      rw [List.flatMap_cons, List.length_append, Nat.add_assoc, List.map_cons, List.cons_append,
        each part List.mem_cons_self,
        ih fun other member => each other (List.mem_cons_of_mem _ member)]
      congr 1
      simp

/-- The walk meets the nodes of a subtree in preorder and goes on behind it. -/
theorem walk_node {node : Node} (member : node ∈ (ofUnit unit serial).nodes) (limit : Nat)
    (stack : List Nat) (met : Array Nat) :
    (ofUnit unit serial).arena.walk (node.preorder.length + limit) (node.id :: stack) met =
      (ofUnit unit serial).arena.walk limit stack
        (met ++ (node.preorder.map Node.id).toArray) := by
  induction node using Node.induction generalizing limit stack met with
  | step node ih =>
      obtain ⟨above, isPath⟩ := exists_path member
      rw [node.preorder_eq, List.length_cons, Nat.add_right_comm, Arena.walk,
        entry_of_mem_paths isPath]
      dsimp only
      rw [Node.parts_kind,
        walk_parts fun child isChild => ih child isChild (child_mem_nodes member isChild)]
      congr 1
      simp

/-- The walk from the root meets all nodes. -/
theorem descendants_root (unit : Source.CompilationUnit) (serial : Nat) :
    (ofUnit unit serial).arena.descendants (ofUnit unit serial).arena.root =
      some ((ofUnit unit serial).preorder.map Node.id) := by
  have member : (ofUnit unit serial).rootNode ∈ (ofUnit unit serial).nodes :=
    Node.mem_postorder_self _
  have walked := walk_node member 0 [] #[]
  have count := (preorder_perm unit serial).length_eq
  rw [List.length_map, List.length_range] at count
  rw [Arena.walk, Array.empty_append] at walked
  rw [Arena.descendants, root_arena, ← count]
  exact congrArg (Option.map Array.toList) walked

/-- A node on the way to another one has it in its subtree. -/
theorem Encloses.exists_nodes {outer inner : Nat}
    (encloses : (ofUnit unit serial).arena.Encloses outer inner) :
    ∃ upper ∈ (ofUnit unit serial).nodes, ∃ lower, upper.id = outer ∧ lower.id = inner ∧
      (lower = upper ∨ lower ∈ upper.children.flatMap Node.preorder) := by
  obtain ⟨way, climbed, through⟩ := encloses
  cases stored : (ofUnit unit serial).arena.entries[inner]? with
  | none =>
      rw [Arena.pathTo?, Arena.climb_of_none stored] at climbed
      cases climbed
  | some entry =>
      obtain ⟨leaf, isLeaf, rfl, -⟩ := exists_node_of_entry stored
      obtain ⟨above, member⟩ := exists_path isLeaf
      cases (arena_pathTo?_of_mem_paths member).symm.trans climbed
      obtain ⟨upper, onPath, isUpper⟩ := List.mem_map.1 through
      rcases List.mem_cons.1 (List.mem_reverse.1 onPath) with rfl | isAbove
      · exact ⟨_, isLeaf, _, isUpper, rfl, Or.inl rfl⟩
      · obtain ⟨between, rest, rfl⟩ := List.append_of_mem isAbove
        exact ⟨upper, mem_nodes_of_path (ancestor_mem_paths member), leaf, isUpper, rfl,
          Or.inr (mem_preorder_children member)⟩

/-- In preorder an outer node comes before those inside it. -/
theorem outer_first {outer inner : Nat}
    (encloses : (ofUnit unit serial).arena.Encloses outer inner) (different : outer ≠ inner) :
    [outer, inner].Sublist ((ofUnit unit serial).preorder.map Node.id) := by
  obtain ⟨upper, member, lower, rfl, rfl, same | below⟩ := Encloses.exists_nodes encloses
  · exact absurd (congrArg Node.id same.symm) different
  · have inside : [upper, lower].Sublist upper.preorder := by
      rw [upper.preorder_eq]
      exact (List.singleton_sublist.2 below).cons_cons upper
    exact (inside.trans (Node.preorder_sublist (mem_nodes_iff.1 member))).map Node.id

theorem Encloses.mem_preorder {node : Node} {inner : Nat}
    (member : node ∈ (ofUnit unit serial).nodes)
    (encloses : (ofUnit unit serial).arena.Encloses node.id inner) :
    ∃ lower ∈ node.preorder, lower.id = inner := by
  obtain ⟨upper, found, lower, same, isInner, atOrBelow⟩ := Encloses.exists_nodes encloses
  obtain rfl : upper = node := eq_of_id found member same
  refine ⟨lower, ?_, isInner⟩
  rw [upper.preorder_eq]
  rcases atOrBelow with rfl | below
  · exact List.mem_cons_self
  · exact List.mem_cons_of_mem _ below

/-- In preorder what is in an earlier child comes before what is in a later one. -/
theorem left_first {left right one other : Nat}
    (siblings : [left, right].Sublist ((ofUnit unit serial).arena.children id))
    (inLeft : (ofUnit unit serial).arena.Encloses left one)
    (inRight : (ofUnit unit serial).arena.Encloses right other) :
    [one, other].Sublist ((ofUnit unit serial).preorder.map Node.id) := by
  obtain ⟨node, member, rfl, -⟩ := mem_children.1 (siblings.subset List.mem_cons_self)
  rw [children_id member] at siblings
  obtain ⟨pair, inChildren, isPair⟩ := List.sublist_map_iff.1 siblings
  obtain ⟨first, second, rfl⟩ : ∃ first second, pair = [first, second] := by
    match pair with
    | [first, second] => exact ⟨first, second, rfl⟩
  cases isPair
  have inTree : ∀ child ∈ node.children, child ∈ (ofUnit unit serial).nodes :=
    fun child => child_mem_nodes member
  obtain ⟨lower, below, rfl⟩ := Encloses.mem_preorder
    (inTree first (inChildren.subset List.mem_cons_self)) inLeft
  obtain ⟨later, belowLater, rfl⟩ := Encloses.mem_preorder
    (inTree second (inChildren.subset (List.mem_cons_of_mem _ List.mem_cons_self))) inRight
  have inPair : [lower, later].Sublist ([first, second].flatMap Node.preorder) := by
    simpa using (List.singleton_sublist.2 below).append (List.singleton_sublist.2 belowLater)
  have inNode : ([first, second].flatMap Node.preorder).Sublist node.preorder := by
    rw [node.preorder_eq]
    exact (inChildren.flatMap Node.preorder).cons node
  exact ((inPair.trans inNode).trans (Node.preorder_sublist (mem_nodes_iff.1 member))).map Node.id

end Numbered

/-- The tree of a unit is well formed. -/
theorem wellFormed_ofUnit (unit : Source.CompilationUnit) (serial : Nat) :
    (ofUnit unit serial).WellFormed where
  root_last := by rw [root_arena, size_arena]
  child_lt := by
    intro id child isChild
    obtain ⟨node, member, rfl, inChildren⟩ := mem_children.1 isChild
    obtain ⟨leaf, isLeaf, rfl⟩ := List.mem_map.1 inChildren
    exact id_lt_of_child member isLeaf
  parent_iff child id := parent?_eq_some_iff
  children_once := children_once unit serial
  orphan_iff := by
    intro id small
    rw [root_arena] at small ⊢
    obtain ⟨node, member, rfl⟩ := exists_node small
    exact parent?_eq_none_iff member
  walk := ⟨_, descendants_root unit serial, preorder_perm unit serial, fun _ _ => outer_first,
    fun _ _ _ siblings _ _ => left_first siblings⟩
  path := by
    intro id small
    rw [root_arena] at small
    obtain ⟨node, member, rfl⟩ := exists_node small
    obtain ⟨above, isPath⟩ := exists_path member
    obtain ⟨start, chain⟩ := chain_of_mem_paths isPath
    exact ⟨_, pathTo?_of_mem_paths isPath, arena_pathTo?_of_mem_paths isPath, start,
      Path.getLast?_ids _, chain, parent?_path isPath⟩

end FragmentFlow.Tree
