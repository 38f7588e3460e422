import FragmentFlow.Proofs.Drawing.Builder
import FragmentFlow.Proofs.Tree.Positions
import Mathlib.Data.Finset.Disjoint

/-!
# Places of the recursion

A statement or an expression is drawn inside some frames, and a jump draws the `finally` blocks
of these frames on its way.  So the subtrees at hand are what is drawn and those blocks.  A block
is drawn outside the frame that holds it.  Whatever is entered, the subtrees at hand are therefore
parts of those that were at hand before, with at least one node less.
-/

namespace FragmentFlow

namespace Tree

/-- Whether a statement leaves frames. -/
def Stmt.isJump : Stmt → Bool
  | returnValue .. | breakLoop _ | continueLoop _ => true
  | _ => false

/-- The numbers of the nodes of a subtree. -/
def Node.ids (node : Node) : List Nat :=
  node.preorder.map Node.id

theorem Node.ids_eq (node : Node) : node.ids = node.id :: node.children.flatMap Node.ids := by
  rw [Node.ids, Node.preorder_eq, List.map_cons, List.map_flatMap]
  rfl

theorem length_flatMap_ids {nodes : List Node}
    (each : ∀ node ∈ nodes, node.ids.length = node.size) :
    (nodes.flatMap Node.ids).length = total Node.size nodes := by
  induction nodes with
  | nil => rfl
  | cons node nodes ih =>
      rw [List.flatMap_cons, List.length_append, total_cons, each node List.mem_cons_self,
        ih fun other member => each other (List.mem_cons_of_mem _ member)]

theorem Node.length_ids (node : Node) : node.ids.length = node.size := by
  rw [node.ids_eq, List.length_cons, node.size_eq,
    length_flatMap_ids fun child isChild => child.length_ids]
termination_by node.size
decreasing_by exact Node.size_lt_of_mem_children isChild

end Tree

namespace Graph

/-- The `finally` blocks of the frames around a place, innermost first. -/
def Scope.blocks (scope : Scope) : List Tree.Node :=
  (scope.filterMap Frame.cleanup?).map Tree.Block.toNode

/-- The blocks of a region are its cleanup and those around it. -/
theorem Scope.blocks_region (handlers : List Handler) (cleanup : Option Tree.Block)
    (outer : Scope) :
    Scope.blocks (.region handlers cleanup :: outer) =
      cleanup.toList.map Tree.Block.toNode ++ outer.blocks := by
  cases cleanup <;> rfl

/-- A place of the recursion: the statement or expression that is drawn and the frames around
it. -/
structure Place where
  scope : Scope
  node : Tree.Node

namespace Place

/-- The subtrees at hand: what is drawn and the `finally` blocks around it. -/
def subtrees (place : Place) : List Tree.Node :=
  place.node :: place.scope.blocks

/-- The number of nodes at hand. -/
def weight (place : Place) : Nat :=
  Tree.total Tree.Node.size place.subtrees

/-- What is drawn is at hand. -/
theorem weight_pos (place : Place) : 0 < place.weight := by
  rw [weight, subtrees, Tree.total_cons, place.node.size_eq]
  omega

/-- Outside of all frames, only what is drawn is at hand. -/
theorem weight_root (node : Tree.Node) : (Place.mk [] node).weight = node.size := by
  rw [weight, subtrees, Tree.total_cons]
  rfl

/-- No two subtrees at hand have a node in common. -/
def Apart (place : Place) : Prop :=
  place.subtrees.Pairwise fun one other => Disjoint one.ids.toFinset other.ids.toFinset

instance (place : Place) : Decidable place.Apart :=
  inferInstanceAs (Decidable (List.Pairwise _ _))

/-- The places that drawing may enter from a place. -/
inductive Enters : Place → Place → Prop
  /-- A part of what is drawn; the body of a lambda is a fragment of its own. -/
  | part {scope : Scope} {node child : Tree.Node} (outside : node.isLambda = false)
      (isPart : child ∈ node.children) : Enters ⟨scope, node⟩ ⟨scope, child⟩
  | whileBody {scope : Scope} {id : Nat} {cond : Tree.Expr} {body : Tree.Block} :
      Enters ⟨scope, .stmt (.whileLoop id cond body)⟩ ⟨.loop :: scope, body.toNode⟩
  | forBody {scope : Scope} {id : Nat} {init : List Tree.Stmt} {cond : Option Tree.Expr}
      {update : List Tree.Expr} {body : Tree.Block} :
      Enters ⟨scope, .stmt (.forLoop id init cond update body)⟩ ⟨.loop :: scope, body.toNode⟩
  | tryBody {scope : Scope} {id : Nat} {body : Tree.Block} {catches : List Tree.Catch}
      {cleanup : Option Tree.Block} (handlers : List Handler) :
      Enters ⟨scope, .stmt (.tryCatch id body catches cleanup)⟩
        ⟨.region handlers cleanup :: scope, body.toNode⟩
  /-- In a catch clause the frame has no handlers left. -/
  | clause {scope : Scope} {id : Nat} {body : Tree.Block} {catches : List Tree.Catch}
      {cleanup : Option Tree.Block} {clause : Tree.Catch} (isClause : clause ∈ catches) :
      Enters ⟨scope, .stmt (.tryCatch id body catches cleanup)⟩
        ⟨.region [] cleanup :: scope, clause.body.toNode⟩
  /-- A jump passes a frame with a `finally` block, which is drawn in the frames outside. -/
  | passes {inner outer : Scope} {frame : Frame} {block : Tree.Block} {statement : Tree.Stmt}
      (jumps : statement.isJump = true) (present : frame.cleanup? = some block) :
      Enters ⟨inner ++ frame :: outer, .stmt statement⟩ ⟨outer, block.toNode⟩

/-- The numbers of all nodes at hand. -/
def numbers (place : Place) : List Nat :=
  place.subtrees.flatMap Tree.Node.ids

theorem numbers_root (node : Tree.Node) : (Place.mk [] node).numbers = node.ids :=
  List.flatMap_singleton Tree.Node.ids node

theorem length_numbers (place : Place) : place.numbers.length = place.weight :=
  Tree.length_flatMap_ids fun node _ => node.length_ids

/-- With distinct numbers the subtrees of a place are apart. -/
theorem apart_of_nodup {place : Place} (distinct : place.numbers.Nodup) : place.Apart :=
  (List.nodup_flatMap.1 distinct).2.imp List.disjoint_toFinset_iff_disjoint.2

/-- Parts of what is drawn take the place of the whole. -/
theorem sublist_of_parts {scope : Scope} {node : Tree.Node} {parts : List Tree.Node}
    (inside : parts.Sublist node.children) :
    (node.id :: (parts ++ scope.blocks).flatMap Tree.Node.ids).Sublist
      (Place.mk scope node).numbers := by
  rw [numbers, subtrees, List.flatMap_cons, node.ids_eq, List.flatMap_append, List.cons_append]
  exact ((inside.flatMap Tree.Node.ids).append (List.Sublist.refl _)).cons_cons _

/-- Whatever is entered, the node that is drawn is no longer at hand, and nothing is at hand that
was not before. -/
theorem Enters.sublist {here next : Place} (enters : here.Enters next) :
    (here.node.id :: next.numbers).Sublist here.numbers := by
  cases enters with
  | part outside isPart => exact sublist_of_parts (List.singleton_sublist.2 isPart)
  | @whileBody scope id cond body =>
      have inside : [body.toNode].Sublist (Tree.Node.stmt (.whileLoop id cond body)).children := by
        simp [Tree.Node.children, Tree.Stmt.children]
      exact sublist_of_parts inside
  | @forBody scope id init cond update body =>
      have inside : [body.toNode].Sublist
          (Tree.Node.stmt (.forLoop id init cond update body)).children := by
        simp [Tree.Node.children, Tree.Stmt.children]
      exact sublist_of_parts inside
  | @tryBody scope id body catches cleanup handlers =>
      have inside : (body.toNode :: cleanup.toList.map Tree.Block.toNode).Sublist
          (Tree.Node.stmt (.tryCatch id body catches cleanup)).children :=
        (List.sublist_append_right _ _).cons_cons _
      rw [numbers, subtrees, Scope.blocks_region, ← List.cons_append]
      exact sublist_of_parts inside
  | @clause scope id body catches cleanup clause isClause =>
      -- the clause itself is not entered, only its body
      have inside : (.catchClause clause :: cleanup.toList.map Tree.Block.toNode).Sublist
          (Tree.Node.stmt (.tryCatch id body catches cleanup)).children :=
        ((List.singleton_sublist.2 (List.mem_map_of_mem isClause)).append
          (List.Sublist.refl _)).cons _
      have below : clause.body.toNode.ids.Sublist (Tree.Node.catchClause clause).ids :=
        (Tree.Node.preorder_sublist_of_child List.mem_cons_self).map Tree.Node.id
      refine List.Sublist.trans ?_ (sublist_of_parts inside)
      rw [numbers, subtrees, Scope.blocks_region, List.flatMap_cons, List.cons_append,
        List.flatMap_cons]
      exact (below.append (List.Sublist.refl _)).cons_cons _
  | @passes inner outer frame block statement jumps present =>
      have further : (block.toNode :: outer.blocks).Sublist (inner ++ frame :: outer).blocks := by
        rw [Scope.blocks, Scope.blocks, List.filterMap_append, List.filterMap_cons, present,
          List.map_append, List.map_cons]
        exact List.sublist_append_right _ _
      refine List.Sublist.trans ?_ (sublist_of_parts (List.nil_sublist _))
      exact (further.flatMap Tree.Node.ids).cons_cons _

/-- What is entered from a place weighs less. -/
theorem Enters.weight_lt {here next : Place} (enters : here.Enters next) :
    next.weight < here.weight := by
  rw [← length_numbers, ← length_numbers]
  exact enters.sublist.length_le

/-- What is entered from a place with distinct numbers has distinct numbers. -/
theorem Enters.nodup {here next : Place} (enters : here.Enters next)
    (distinct : here.numbers.Nodup) : next.numbers.Nodup :=
  (distinct.sublist enters.sublist).of_cons

/-- Entering goes on only finitely often. -/
theorem wellFounded_enters : WellFounded fun next here : Place => here.Enters next :=
  Subrelation.wf Enters.weight_lt (measure weight).wf

end Place

end Graph

end FragmentFlow
