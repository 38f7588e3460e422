import FragmentFlow.Proofs.Cleanup.Protected
import FragmentFlow.Proofs.Tree.Ownership
import Mathlib.Data.Bool.Basic

/-!
# The `try` statements around a place

An exception meets the `try` statements around the place where it is raised, from the
inside to the outside.  A `try` does not count for its own `finally` block, and its catch
clauses do not count for each other.  The exception is stopped for good by a clause that
catches everything and by a `finally` block; otherwise it may get past the clauses.
-/

namespace FragmentFlow

namespace Tree

/-- A `try` statement. -/
structure Try where
  body : Block
  catches : List Catch
  cleanup : Option Block

/-- The `try` statement at a node. -/
def Node.try? : Node → Option Try
  | .stmt (.tryCatch _ body catches cleanup) => some ⟨body, catches, cleanup⟩
  | _ => none

/-- Whether a number occurs at a node or below it. -/
def Node.contains (node : Node) (id : Nat) : Bool :=
  node.preorder.any fun inner => inner.id == id

/-- Whether a node can raise an exception itself. -/
def Node.raises : Node → Bool
  | .expr (.call ..) | .expr (.new ..) | .expr (.binary _ .div _ _) | .expr (.binary _ .rem _ _)
  | .stmt (.throwValue ..) => true
  | _ => false

namespace Try

variable (attempt : Try) (id : Nat)

/-- Whether a node lies in the `finally` block. -/
def inCleanup : Bool :=
  attempt.cleanup.any fun block => block.toNode.contains id

/-- Whether a node lies in a catch clause. -/
def inCatches : Bool :=
  attempt.catches.any fun clause => (Node.catchClause clause).contains id

/-- The catch clauses that an exception from a node inside may enter. -/
def clausesFor : List Catch :=
  if attempt.inCatches id then [] else attempt.catches

/-- Whether no exception from a node inside gets past the `try`. -/
def stops : Bool :=
  stopsAll (attempt.clausesFor id) || attempt.cleanup.isSome

end Try

/-- The `try` statements that an exception from a node comes to: those around it up to
the first one that stops it. -/
def walk (id : Nat) : List Try → List Try
  | [] => []
  | attempt :: outer => if attempt.stops id then [attempt] else attempt :: walk id outer

/-- What a `try` means for an exception: the clauses that it may enter, and whether there
is a `finally` block. -/
structure Shield where
  clauses : List Catch
  cleans : Bool

/-- A `try` as an exception from a node inside meets it. -/
def Try.shield (attempt : Try) (id : Nat) : Shield :=
  ⟨attempt.clausesFor id, attempt.cleanup.isSome⟩

/-- The `try` statements among some nodes, innermost first, as an exception meets them. -/
def shields (above : List Node) (id : Nat) : List Shield :=
  ((above.filterMap Node.try?).filter fun attempt => !attempt.inCleanup id).map fun attempt =>
    attempt.shield id

/-- A node lies at another one or below it, outside nested lambdas, within some shields. -/
inductive Shielded : Node → Node → List Shield → Prop
  | here (node : Node) : Shielded node node []
  | inner {node child leaf : Node} {shields : List Shield} : node.isLambda = false →
      node.try? = none → child ∈ node.children → Shielded child leaf shields →
      Shielded node leaf shields
  | body {id : Nat} {body : Block} {catches : List Catch} {cleanup : Option Block} {leaf : Node}
      {shields : List Shield} : Shielded body.toNode leaf shields →
      Shielded (.stmt (.tryCatch id body catches cleanup)) leaf
        (shields ++ [⟨catches, cleanup.isSome⟩])
  | clause {id : Nat} {body : Block} {catches : List Catch} {cleanup : Option Block}
      {clause : Catch} {leaf : Node} {shields : List Shield} : clause ∈ catches →
      Shielded (.catchClause clause) leaf shields →
      Shielded (.stmt (.tryCatch id body catches cleanup)) leaf
        (shields ++ [⟨[], cleanup.isSome⟩])
  | cleanup {id : Nat} {body : Block} {catches : List Catch} {block : Block} {leaf : Node}
      {shields : List Shield} : Shielded block.toNode leaf shields →
      Shielded (.stmt (.tryCatch id body catches (some block))) leaf shields

/-! ### From the outside to the inside -/

theorem Node.contains_iff {node : Node} {id : Nat} :
    node.contains id = true ↔ ∃ inner ∈ node.preorder, inner.id = id := by
  simp [Node.contains]

/-- Earlier and later children of a node with distinct numbers have no number in common. -/
theorem Node.not_contains_of_later {node : Node} (distinct : (node.preorder.map Node.id).Nodup)
    {firsts seconds : List Node} (split : node.children = firsts ++ seconds) {one other : Node}
    (isFirst : one ∈ firsts) (isSecond : other ∈ seconds) {id : Nat}
    (inOne : one.contains id = true) : other.contains id = false := by
  obtain ⟨first, inFirst, rfl⟩ := Node.contains_iff.1 inOne
  apply Bool.eq_false_of_not_eq_true
  intro inOther
  obtain ⟨second, inSecond, same⟩ := Node.contains_iff.1 inOther
  rw [Node.preorder_eq, split, List.flatMap_append, List.map_cons, List.map_append,
    List.nodup_cons, List.nodup_append] at distinct
  exact distinct.2.2.2 first.id
    (List.mem_map_of_mem (List.mem_flatMap.2 ⟨one, isFirst, inFirst⟩)) second.id
    (List.mem_map_of_mem (List.mem_flatMap.2 ⟨other, isSecond, inSecond⟩)) same.symm

/-- The shields above a place are those of the nodes one by one. -/
theorem shields_append (above upper : List Node) (id : Nat) :
    shields (above ++ upper) id = shields above id ++ shields upper id := by
  rw [shields, List.filterMap_append, List.filter_append, List.map_append, shields, shields]

/-- Only a `try` is a shield. -/
theorem shields_other {node : Node} (other : node.try? = none) (id : Nat) :
    shields [node] id = [] := by
  rw [shields, List.filterMap_cons_none other]
  rfl

/-- A `try` shields all parts but its cleanup. -/
theorem shields_tryCatch (id : Nat) (body : Block) (catches : List Catch) (cleanup : Option Block)
    (number : Nat) :
    shields [.stmt (.tryCatch id body catches cleanup)] number =
      if Try.inCleanup ⟨body, catches, cleanup⟩ number then []
      else [Try.shield ⟨body, catches, cleanup⟩ number] := by
  simp only [shields, Node.try?, List.filterMap_cons, List.filterMap_nil, List.filter_cons,
    List.filter_nil]
  cases Try.inCleanup ⟨body, catches, cleanup⟩ number with
  | true => rfl
  | false => rfl

/-- A `try` shields its body with all of its clauses, its clauses only with the `finally`
block, and the `finally` block not at all. -/
theorem Shielded.tryCatch {id : Nat} {body : Block} {catches : List Catch}
    {cleanup : Option Block} {child leaf : Node} {around : List Shield}
    (distinct : ((Node.stmt (.tryCatch id body catches cleanup)).preorder.map Node.id).Nodup)
    (isChild : child ∈ (Node.stmt (.tryCatch id body catches cleanup)).children)
    (inside : leaf ∈ child.preorder) (shielded : Shielded child leaf around) :
    Shielded (.stmt (.tryCatch id body catches cleanup)) leaf
      (around ++ shields [.stmt (.tryCatch id body catches cleanup)] leaf.id) := by
  have contained : child.contains leaf.id = true := Node.contains_iff.2 ⟨leaf, inside, rfl⟩
  have last : (Node.stmt (.tryCatch id body catches cleanup)).children =
      (body.toNode :: catches.map Node.catchClause) ++ cleanup.toList.map Block.toNode := rfl
  have first : (Node.stmt (.tryCatch id body catches cleanup)).children =
      [body.toNode] ++ (catches.map Node.catchClause ++ cleanup.toList.map Block.toNode) := rfl
  -- outside the last child nothing lies in the `finally` block
  have uncleaned : child ∈ body.toNode :: catches.map Node.catchClause →
      Try.inCleanup ⟨body, catches, cleanup⟩ leaf.id = false := by
    intro isEarlier
    rw [Try.inCleanup]
    cases cleanup with
    | none => rfl
    | some block =>
        exact Node.not_contains_of_later distinct last isEarlier List.mem_cons_self contained
  rw [shields_tryCatch]
  rcases List.mem_cons.1 isChild with rfl | isLater
  · have uncaught : Try.inCatches ⟨body, catches, cleanup⟩ leaf.id = false := by
      rw [Try.inCatches, List.any_eq_false]
      intro clause isClause
      have apart := Node.not_contains_of_later distinct first List.mem_cons_self
        (List.mem_append_left _ (List.mem_map_of_mem isClause)) contained
      rw [apart]
      exact Bool.false_ne_true
    rw [uncleaned List.mem_cons_self, Try.shield, Try.clausesFor, uncaught]
    exact .body shielded
  · rcases List.mem_append.1 isLater with isHandler | isBlock
    · obtain ⟨clause, isClause, rfl⟩ := List.mem_map.1 isHandler
      have caught : Try.inCatches ⟨body, catches, cleanup⟩ leaf.id = true :=
        List.any_eq_true.2 ⟨clause, isClause, contained⟩
      rw [uncleaned (List.mem_cons_of_mem _ isHandler), Try.shield, Try.clausesFor, caught]
      exact .clause isClause shielded
    · obtain ⟨block, isCleanup, rfl⟩ := List.mem_map.1 isBlock
      cases Option.mem_toList.1 isCleanup
      have cleaned : Try.inCleanup ⟨body, catches, some block⟩ leaf.id = true := contained
      rw [cleaned, if_pos rfl, List.append_nil]
      exact .cleanup shielded

/-- The path down to a node passes the shields that it lies within. -/
theorem exists_path_shielded {tree : Tree} {node leaf : Node} {upper : List Node}
    (member : ⟨tree, node, upper⟩ ∈ tree.paths) (distinct : (node.preorder.map Node.id).Nodup)
    (isOwn : leaf ∈ node.ownNodes) :
    ∃ above, ⟨tree, leaf, above ++ upper⟩ ∈ tree.paths ∧
      (∀ outer ∈ above, outer ∈ node.ownNodes) ∧ Shielded node leaf (shields above leaf.id) := by
  induction node using Node.induction generalizing upper with
  | step node ih =>
      rcases Node.mem_ownNodes.1 isOwn with rfl | ⟨outside, child, isChild, below⟩
      · refine ⟨[], member, fun outer never => ?_, .here leaf⟩
        cases never
      · have inChild := (Node.preorder_sublist_of_child isChild).map Node.id
        obtain ⟨above, reached, own, shielded⟩ := ih child isChild
          (mem_paths_cons.2 ⟨member, isChild⟩) (distinct.sublist inChild) below
        refine ⟨above ++ [node], ?_, fun outer isOuter => ?_, ?_⟩
        · rw [List.append_assoc]
          exact reached
        · rcases List.mem_append.1 isOuter with further | isNode
          · exact Node.mem_ownNodes.2 (Or.inr ⟨outside, child, isChild, own outer further⟩)
          · cases List.mem_singleton.1 isNode
            exact Node.mem_ownNodes.2 (Or.inl rfl)
        · rw [shields_append]
          by_cases isTry : node.try? = none
          · rw [shields_other isTry, List.append_nil]
            exact .inner outside isTry isChild shielded
          · have inside := child.ownNodes_sublist.subset below
            unfold Node.try? at isTry
            split at isTry
            · exact .tryCatch distinct isChild inside shielded
            · exact absurd rfl isTry

/-- The numbers at a node and below it are not those of the nodes above it. -/
theorem id_ne_of_above {unit : Source.CompilationUnit} {serial : Nat} {node outer inner : Node}
    {above : List Node} (member : ⟨ofUnit unit serial, node, above⟩ ∈ (ofUnit unit serial).paths)
    (isOuter : outer ∈ above) (isInner : inner ∈ node.preorder) : inner.id ≠ outer.id := by
  induction above generalizing node with
  | nil => cases isOuter
  | cons parent above ih =>
      obtain ⟨isPath, isChild⟩ := mem_paths_cons.1 member
      have inParent := (Node.preorder_sublist_of_child isChild).subset isInner
      rcases List.mem_cons.1 isOuter with rfl | further
      · have distinct := (nodup_ids_ofUnit unit serial).sublist
          ((Node.preorder_sublist (leaf_mem_preorder isPath)).map Node.id)
        rw [Node.preorder_eq, List.map_cons, List.nodup_cons] at distinct
        intro same
        exact distinct.1 (List.mem_map.2 ⟨inner, List.mem_flatMap.2 ⟨node, isChild, isInner⟩, same⟩)
      · exact ih isPath further inParent

end Tree

namespace Fragment

open FragmentFlow.Tree (Node Path Try)

/-- The `try` statements of a fragment that an exception from a position meets, innermost
first. -/
def tries (fragment : Fragment) (position : Path) : List Try :=
  ((position.above.filter fun node => fragment.nodes.any fun own => own.id == node.id).filterMap
    Node.try?).filter fun attempt => !attempt.inCleanup position.leaf.id

/-- The nodes of a fragment lie within the shields that its `try` statements are. -/
theorem shielded_tries {unit : Source.CompilationUnit} {serial : Nat} {fragment : Fragment}
    (member : fragment ∈ (Tree.ofUnit unit serial).fragments) {body : Node}
    (isBody : fragment.body? = some body) {position : Path}
    (isPosition : position ∈ (Tree.ofUnit unit serial).paths)
    (isNode : position.leaf ∈ fragment.nodes) :
    Tree.Shielded body position.leaf
      ((fragment.tries position).map fun attempt => attempt.shield position.leaf.id) := by
  have isOwn : position.leaf ∈ body.ownNodes := by
    rw [Fragment.nodes, isBody] at isNode
    exact isNode
  obtain ⟨upper, inPaths, -, -⟩ := exists_path_body member isBody
  obtain ⟨above, reached, own, shielded⟩ :=
    Tree.exists_path_shielded inPaths (nodup_ids_body member isBody) isOwn
  have same : position = ⟨_, position.leaf, above ++ upper⟩ :=
    Tree.eq_of_leaf_id isPosition reached rfl
  have isAbove : position.above = above ++ upper := congrArg Path.above same
  have inside : above.filter (fun node => fragment.nodes.any fun own => own.id == node.id) =
      above := by
    refine List.filter_eq_self.2 fun outer isOuter => ?_
    rw [Fragment.nodes, isBody]
    exact List.any_eq_true.2 ⟨outer, own outer isOuter, beq_self_eq_true _⟩
  -- what is above the body of a fragment does not belong to the fragment
  have outside : upper.filter (fun node => fragment.nodes.any fun own => own.id == node.id) =
      [] := by
    refine List.filter_eq_nil_iff.2 fun outer isOuter found => ?_
    obtain ⟨inner, isInner, equal⟩ := List.any_eq_true.1 found
    rw [Fragment.nodes, isBody] at isInner
    exact Tree.id_ne_of_above inPaths isOuter (body.ownNodes_sublist.subset isInner)
      (beq_iff_eq.1 equal)
  rw [tries, isAbove, List.filter_append, inside, outside, List.append_nil]
  exact shielded

end Fragment

end FragmentFlow
