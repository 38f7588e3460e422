import FragmentFlow.Proofs.Drawing.Actions
import FragmentFlow.Proofs.Drawing.Numbering

/-!
# Code without loops

Only loops are drawn with a loop head.  The graph of code without loops therefore has
none, also where `finally` blocks are copied; the loops of a lambda belong to the
lambda.
-/

namespace FragmentFlow

/-- Whether a node is a loop. -/
def Tree.Node.isLoop : Tree.Node → Bool
  | .stmt (.whileLoop ..) | .stmt (.forLoop ..) => true
  | _ => false

/-- Only loops have loop heads. -/
theorem Tree.Node.isLoop_of_action {node : Tree.Node} (acts : node.action? = some .loopHead) :
    node.isLoop = true := by
  cases node with
  | stmt inner => cases inner <;> first | rfl | cases acts
  | expr inner => cases inner <;> cases acts
  | _ => cases acts

/-- Whether a fragment contains no loop outside nested lambdas. -/
def Fragment.loopFree (fragment : Fragment) : Bool :=
  fragment.nodes.all fun node => !node.isLoop

namespace Graph

/-- No node is the head of a loop. -/
def LoopFree (graph : Graph) : Prop :=
  ∀ id, ¬ graph.toBuilder.Loops id

/-- The graph of a fragment without loops has no loops. -/
theorem loopFree_of_ofFragment {fragment : Fragment} {env : Environment} {graph : Graph}
    (built : ofFragment fragment env = .ok graph) (loopFree : fragment.loopFree = true) :
    graph.LoopFree := by
  rintro id ⟨bare, found, isHead⟩
  obtain ⟨node, present, rfl⟩ := Option.map_eq_some_iff.1 found
  have isLoopHead : node.action = .loopHead := isHead
  rcases enacts_of_ofFragment built present with ⟨-, implicit⟩ | ⟨inner, isPart, -, acts⟩
  · rw [isLoopHead] at implicit
    cases implicit
  · rw [isLoopHead] at acts
    rcases Fragment.mem_parts.1 isPart with isNode | ⟨decl, init, -, rfl⟩
    · have plain := List.all_eq_true.1 loopFree inner isNode
      rw [Tree.Node.isLoop_of_action acts] at plain
      cases plain
    · cases acts

end Graph

end FragmentFlow
