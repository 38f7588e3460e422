import FragmentFlow.Tree.Arena
import FragmentFlow.Tree.Numbering

/-!
# Walks over trees

Preorder lists a node before its subtree, postorder after it; siblings keep their
order in both.
-/

namespace FragmentFlow.Tree

namespace Node

/-- The nodes of a subtree, each before the nodes below it. -/
def preorder (node : Node) : List Node :=
  node :: node.children.attach.flatMap fun child => child.1.preorder
termination_by node.size
decreasing_by exact size_lt_of_mem_children child.2

/-- The nodes of a subtree, each after the nodes below it. -/
def postorder (node : Node) : List Node :=
  (node.children.attach.flatMap fun child => child.1.postorder) ++ [node]
termination_by node.size
decreasing_by exact size_lt_of_mem_children child.2

theorem preorder_eq (node : Node) :
    node.preorder = node :: node.children.flatMap preorder := by
  rw [preorder]
  simp [List.flatMap_subtype]

theorem postorder_eq (node : Node) :
    node.postorder = node.children.flatMap postorder ++ [node] := by
  rw [postorder]
  simp [List.flatMap_subtype]

end Node

end FragmentFlow.Tree

namespace FragmentFlow

/-- A tree.  The serial number tells trees apart that come from equal units. -/
structure Tree where
  serial : Nat := 0
  unit : Source.CompilationUnit

namespace Tree

/-- The tree of a unit. -/
def ofUnit (unit : Source.CompilationUnit) (serial : Nat := 0) : Tree :=
  { serial, unit }

/-- The name of the unit. -/
def name (tree : Tree) : String :=
  tree.unit.name

/-- The numbered unit. -/
def root (tree : Tree) : Root :=
  numberUnit tree.unit

/-- The nodes as they are stored. -/
def arena (tree : Tree) : Arena :=
  .ofUnit tree.unit

/-- The root as a node. -/
def rootNode (tree : Tree) : Node :=
  .root tree.root

/-- All nodes by their numbers. -/
def nodes (tree : Tree) : List Node :=
  tree.rootNode.postorder

/-- All nodes in source order. -/
def preorder (tree : Tree) : List Node :=
  tree.rootNode.preorder

/-- The node with a number. -/
def node? (tree : Tree) (id : Nat) : Option Node :=
  tree.nodes.find? fun node => node.id == id

/-- The names of the classes, by their numbers. -/
def classNames (tree : Tree) : List String :=
  tree.nodes.filterMap fun
    | .classDecl decl => some decl.name
    | _ => none

end Tree

end FragmentFlow
