import FragmentFlow.Proofs.Drawing.Rendering
import FragmentFlow.Proofs.Tree.Ownership
import FragmentFlow.Proofs.Tree.Shape

/-!
# Drawing from stored nodes

A fragment is drawn from its root by following numbers in the arena of its tree, where every
number leads to a stored node but nothing says which.  In the arena of a unit the numbers below
the root of a fragment lead to its constructs.  So the arena shows the code of each fragment, and
what is drawn from stored nodes is what is drawn from the constructs themselves.
-/

namespace FragmentFlow.Graph

open FragmentFlow.Tree (Node Path)

variable {unit : Source.CompilationUnit} {serial : Nat} {fragment : Fragment}

/-- The arena of a unit shows whatever stands in its tree. -/
theorem View.shows_ofArena {path : Path} (member : path ∈ (Tree.ofUnit unit serial).paths) :
    (View.ofArena (Tree.ofUnit unit serial).arena).Shows Node.id path.leaf := by
  intro inner below
  have inTree : inner ∈ (Tree.ofUnit unit serial).preorder :=
    (Node.preorder_sublist (Tree.leaf_mem_preorder member)).subset below
  rw [Tree.preorder, ← Node.map_leaf_paths (Tree.ofUnit unit serial) []] at inTree
  obtain ⟨⟨tree, leaf, above⟩, isPath, rfl⟩ := List.mem_map.1 inTree
  obtain rfl : tree = Tree.ofUnit unit serial := Node.tree_of_mem_paths isPath
  refine ⟨?_, rfl⟩
  change Option.map Tree.Entry.kind (_ : Option Tree.Entry) = _
  rw [Tree.entry_of_mem_paths isPath]
  rfl

/-- A subtree has no more nodes than the arena. -/
theorem size_le_arena {path : Path} (member : path ∈ (Tree.ofUnit unit serial).paths) :
    path.leaf.size ≤ (Tree.ofUnit unit serial).arena.entries.size := by
  have below := (Node.preorder_sublist (Tree.leaf_mem_preorder member)).map Node.id
  have count := (Tree.preorder_perm unit serial).length_eq
  rw [List.length_range] at count
  rw [← path.leaf.length_ids, ← count]
  exact below.length_le

/-- The arena of a unit shows the code of its fragments. -/
theorem View.shows_code (member : fragment ∈ (Tree.ofUnit unit serial).fragments) :
    fragment.code.node = fragment.path.leaf ∧
      (View.ofArena (Tree.ofUnit unit serial).arena).Shows Node.id fragment.code.node ∧
      fragment.code.node.size ≤ (View.ofArena (Tree.ofUnit unit serial).arena).size := by
  obtain ⟨inPaths, isCode⟩ := Fragment.mem_fragments.1 member
  have isLeaf := Fragment.node_of_classify isCode
  rw [isLeaf]
  exact ⟨rfl, View.shows_ofArena inPaths, size_le_arena inPaths⟩

/-- Following the numbers in the arena from the root of a fragment draws its graph. -/
theorem ofView_ofArena (member : fragment ∈ (Tree.ofUnit unit serial).fragments)
    (env : Environment) :
    ofView (.ofArena (Tree.ofUnit unit serial).arena) env fragment.code.kind fragment.name
      fragment.root = some (ofFragment fragment env) := by
  obtain ⟨isLeaf, shown, fits⟩ := View.shows_code member
  rw [ofFragment_eq, Fragment.root, ← isLeaf]
  exact ofView_eq fragment.code fragment.name shown fits

/-- Behind all code that is drawn from stored nodes no frame is left, and nothing is being
copied. -/
theorem closed_of_stored (member : fragment ∈ (Tree.ofUnit unit serial).fragments)
    (isCode : fragment.hasBody = true) {env : Environment} {draft : Draft Nat}
    (ran : Draft.code (.ofArena (Tree.ofUnit unit serial).arena) env fragment.code.kind
      fragment.name fragment.root .start = some (.ok ((), draft))) :
    draft.frames = [] ∧ draft.duplicating = 0 := by
  obtain ⟨isLeaf, shown, fits⟩ := View.shows_code member
  rw [Fragment.root, ← isLeaf] at ran
  exact Draft.closed_of_code shown fits isCode ran

end FragmentFlow.Graph
