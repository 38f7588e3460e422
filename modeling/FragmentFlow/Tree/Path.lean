import FragmentFlow.Tree.Render

/-!
# Positions in a tree

A path leads from the root of a tree to one of its nodes.  It is kept from the
leaf upwards, which is the direction in which it is searched.
-/

namespace FragmentFlow

namespace Tree

/-- A position: a node and the nodes above it, nearest first. -/
structure Path where
  tree : Tree
  leaf : Node
  above : List Node

namespace Path

/-- The nodes from the leaf up to the root. -/
def upward (path : Path) : List Node :=
  path.leaf :: path.above

/-- The numbers from the root down to the leaf. -/
def ids (path : Path) : List Nat :=
  path.upward.reverse.map Node.id

/-- The number of nodes on the path. -/
def depth (path : Path) : Nat :=
  path.upward.length

/-- The position of the parent. -/
def parent? (path : Path) : Option Path :=
  match path.above with
  | [] => none
  | node :: above => some { path with leaf := node, above }

/-- The path through the first `depth` nodes, if it has so many. -/
def upTo? (path : Path) (depth : Nat) : Option Path :=
  if depth ≤ path.depth then
    match path.upward.drop (path.depth - depth) with
    | [] => none
    | leaf :: above => some { path with leaf, above }
  else none

/-- Whether two paths lead through the same nodes of the same tree. -/
def same (path other : Path) : Bool :=
  path.tree.serial == other.tree.serial && path.ids == other.ids

/-- The name of the innermost class the position lies in. -/
def enclosingClass? (path : Path) : Option String :=
  path.upward.findSome? fun
    | .classDecl decl => some decl.name
    | _ => none

/-- The position in words: unit, number and kind. -/
def describe (path : Path) : String :=
  path.tree.name ++ ":#" ++ toString path.leaf.id ++ " " ++ path.leaf.kindName

/-- The position as a trail of numbers. -/
def trail (path : Path) : String :=
  "TreePath(" ++ path.tree.name ++
    String.join (path.ids.map fun id => "/" ++ toString id) ++ ")"

end Path

/-- The positions of a subtree in preorder. -/
def Node.paths (tree : Tree) (above : List Node) (node : Node) : List Path :=
  { tree, leaf := node, above } ::
    node.children.attach.flatMap fun child => child.1.paths tree (node :: above)
termination_by node.size
decreasing_by exact Node.size_lt_of_mem_children child.2

theorem Node.paths_eq (tree : Tree) (above : List Node) (node : Node) :
    node.paths tree above =
      { tree, leaf := node, above } :: node.children.flatMap (Node.paths tree (node :: above)) := by
  rw [Node.paths]
  simp [List.flatMap_subtype]

/-- All positions of a tree in preorder. -/
def paths (tree : Tree) : List Path :=
  tree.rootNode.paths tree []

/-- The position of the node with a number, found from the node upwards. -/
def pathTo? (tree : Tree) (id : Nat) : Option Path := do
  let ids ← tree.arena.pathTo? id
  let leaf :: above ← ids.reverse.mapM tree.node? | none
  some { tree, leaf, above }

end Tree

end FragmentFlow
