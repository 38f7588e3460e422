import FragmentFlow.Proofs.Tree.Ownership
import FragmentFlow.Proofs.Tree.Shape

/-!
# Conditions

An `if`, a loop, a conditional expression and a short-circuit operator branch on the truth
of one of their parts.  Numbers are distinct, so the number of such a condition is not the
number of any other part of the code.
-/

namespace FragmentFlow

namespace Tree

/-- The condition that decides how a node goes on: that of an `if`, a loop or a conditional
expression, or the left operand of a short-circuit operator. -/
def Node.decider? : Node → Option Expr
  | stmt (.ifElse _ cond _ _) => some cond
  | stmt (.whileLoop _ cond _) => some cond
  | stmt (.forLoop _ _ cond _ _) => cond
  | expr (.binary _ op lhs _) => if op.isShortCircuit then some lhs else none
  | expr (.conditional _ cond _ _) => some cond
  | _ => none

/-- The parts of a node other than its condition. -/
def Node.others : Node → List Node
  | stmt (.ifElse _ _ whenTrue whenFalse) => whenTrue.toNode :: whenFalse.toList.map Block.toNode
  | stmt (.whileLoop _ _ body) => [body.toNode]
  | stmt (.forLoop _ init _ update body) => init.map .stmt ++ update.map .expr ++ [body.toNode]
  | expr (.binary _ op lhs rhs) => if op.isShortCircuit then [.expr rhs] else [.expr lhs, .expr rhs]
  | expr (.conditional _ _ whenTrue whenFalse) => [.expr whenTrue, .expr whenFalse]
  | node => node.children

/-- The condition of a node and its other parts are its children. -/
theorem Node.children_perm_others (node : Node) :
    node.children.Perm (node.decider?.toList.map .expr ++ node.others) := by
  cases node with
  | stmt inner =>
      cases inner with
      | forLoop id init cond update body =>
          simp only [children, Stmt.children, decider?, others, List.append_assoc]
          rw [← List.append_assoc, ← List.append_assoc (cond.toList.map expr)]
          exact List.perm_append_comm.append_right _
      | _ => exact List.Perm.refl _
  | expr inner =>
      cases inner with
      | binary id op lhs rhs =>
          simp only [decider?, others]
          split
          · exact List.Perm.refl _
          · exact List.Perm.refl _
      | _ => exact List.Perm.refl _
  | _ => exact List.Perm.refl _

theorem Node.mem_children_of_others {node part : Node} (isOther : part ∈ node.others) :
    part ∈ node.children :=
  node.children_perm_others.mem_iff.2 (List.mem_append_right _ isOther)

theorem Node.mem_children_of_decider {node : Node} {cond : Expr}
    (isDecider : node.decider? = some cond) : .expr cond ∈ node.children := by
  refine node.children_perm_others.mem_iff.2 (List.mem_append_left _ ?_)
  rw [isDecider]
  exact List.mem_cons_self

/-- A node with a condition is no lambda. -/
theorem Node.isLambda_of_decider {node : Node} {cond : Expr}
    (isDecider : node.decider? = some cond) : node.isLambda = false := by
  cases node with
  | expr inner =>
      cases inner with
      | lambda => cases isDecider
      | _ => rfl
  | _ => rfl

section Numbered

variable {unit : Source.CompilationUnit} {serial : Nat}

/-- No number belongs both to a condition and to another part of a node. -/
theorem id_ne_decider {node other part : Node} {cond : Expr}
    (member : node ∈ (ofUnit unit serial).nodes) (isDecider : node.decider? = some cond)
    (otherMember : other ∈ (ofUnit unit serial).nodes) (isPart : part ∈ other.others) :
    part.id ≠ cond.id := by
  intro same
  cases parent_unique member (Node.mem_children_of_decider isDecider) otherMember
    (Node.mem_children_of_others isPart) same.symm
  -- both are children of one node, whose children have different numbers
  have distinct := (children_once unit serial).nodup_iff.2 List.nodup_range
  have stored : node.id < (ofUnit unit serial).arena.entries.size := by
    rw [size_arena]
    exact Nat.lt_succ_of_le (id_le_root member)
  have children := distinct.sublist (sublist_flatMap (List.mem_range.2 stored))
  rw [children_id member, (node.children_perm_others.map Node.id).nodup_iff, isDecider]
    at children
  exact (List.nodup_cons.1 children).1 (List.mem_map.2 ⟨part, isPart, same⟩)

/-- No own node has a larger number. -/
theorem id_le_of_mem_ownNodes {node inner : Node} (member : node ∈ (ofUnit unit serial).nodes)
    (isOwn : inner ∈ node.ownNodes) : inner.id ≤ node.id := by
  induction node using Node.induction with
  | step node ih =>
      rcases Node.mem_ownNodes.1 isOwn with rfl | ⟨-, child, isChild, below⟩
      · exact Nat.le_refl _
      · have childMember := child_mem_nodes member isChild
        exact Nat.le_trans (ih child isChild childMember below)
          (Nat.le_of_lt (id_lt_of_child member isChild))

end Numbered

/-! ### A mark that only conditions have -/

/-- Below a node, outside nested lambdas, only conditions have a certain mark. -/
def Node.OnlyConditions (marked : Nat → Prop) (node : Node) : Prop :=
  ∀ inner ∈ node.ownNodes, ∀ part ∈ inner.others, ¬ marked part.id

/-- A node lacks a mark that only conditions have below it. -/
structure Node.Unmarked (marked : Nat → Prop) (node : Node) : Prop where
  self : ¬ marked node.id
  below : node.OnlyConditions marked

/-- A node with nothing marked is not marked itself. -/
theorem Node.Unmarked.not_marked {marked : Nat → Prop} {node : Node}
    (unmarked : node.Unmarked marked) : ∀ id, some node.id = some id → ¬ marked id := by
  rintro _ ⟨⟩
  exact unmarked.self

namespace Node.OnlyConditions

variable {marked : Nat → Prop} {node : Node}

/-- In a child only conditions are marked. -/
theorem child (only : node.OnlyConditions marked) (outside : node.isLambda = false) {part : Node}
    (isChild : part ∈ node.children) : part.OnlyConditions marked :=
  fun inner below => only inner (Node.mem_ownNodes.2 (Or.inr ⟨outside, part, isChild, below⟩))

/-- In the other parts nothing is marked. -/
theorem other (only : node.OnlyConditions marked) (outside : node.isLambda = false) {part : Node}
    (isOther : part ∈ node.others) : part.Unmarked marked :=
  ⟨only node (Node.mem_ownNodes.2 (Or.inl rfl)) part isOther,
    only.child outside (Node.mem_children_of_others isOther)⟩

/-- In the condition only conditions are marked. -/
theorem condition (only : node.OnlyConditions marked) {cond : Expr}
    (isDecider : node.decider? = some cond) : (Node.expr cond).OnlyConditions marked :=
  only.child (Node.isLambda_of_decider isDecider) (Node.mem_children_of_decider isDecider)

end Node.OnlyConditions

end Tree

/-! ### The conditions of a fragment -/

namespace Fragment

/-- A number belongs to a condition of a fragment. -/
def Branches (fragment : Fragment) (id : Nat) : Prop :=
  ∃ node ∈ fragment.nodes, ∃ cond, node.decider? = some cond ∧ cond.id = id

variable {unit : Source.CompilationUnit} {serial : Nat} {fragment : Fragment}

theorem mem_nodes_of_mem_nodes (member : fragment ∈ (Tree.ofUnit unit serial).fragments)
    {node : Tree.Node} (isNode : node ∈ fragment.nodes) :
    node ∈ (Tree.ofUnit unit serial).nodes := by
  obtain ⟨above, inPaths, -⟩ := exists_path_of_mem_nodes member isNode
  exact Tree.mem_nodes_iff.2 (Tree.leaf_mem_preorder inPaths)

/-- A condition has a smaller number than the body of its fragment. -/
theorem Branches.id_lt (member : fragment ∈ (Tree.ofUnit unit serial).fragments)
    {body : Tree.Node} (isBody : fragment.body? = some body) {id : Nat}
    (branches : fragment.Branches id) : id < body.id := by
  obtain ⟨node, isNode, cond, isDecider, rfl⟩ := branches
  have isOwn : node ∈ body.ownNodes := by
    rw [nodes, isBody] at isNode
    exact isNode
  exact Nat.lt_of_lt_of_le
    (Tree.id_lt_of_child (mem_nodes_of_mem_nodes member isNode)
      (Tree.Node.mem_children_of_decider isDecider))
    (Tree.id_le_of_mem_ownNodes (mem_nodes_of_mem_nodes member (mem_nodes_body isBody)) isOwn)

/-- The body of a fragment is not a condition of it, and in it only conditions are. -/
theorem unmarked_body (member : fragment ∈ (Tree.ofUnit unit serial).fragments)
    {body : Tree.Node} (isBody : fragment.body? = some body) :
    body.Unmarked fragment.Branches where
  self branches := Nat.lt_irrefl _ (branches.id_lt member isBody)
  below inner isOwn part isOther := by
    rintro ⟨node, isNode, cond, isDecider, same⟩
    have isInner : inner ∈ fragment.nodes := by
      rw [nodes, isBody]
      exact isOwn
    exact Tree.id_ne_decider (mem_nodes_of_mem_nodes member isNode) isDecider
      (mem_nodes_of_mem_nodes member isInner) isOther same.symm

/-- A field is not a condition of its initial value. -/
theorem not_branches_field (member : fragment ∈ (Tree.ofUnit unit serial).fragments)
    {decl : Tree.Field} {init : Tree.Expr} (isCode : fragment.code = .fieldInitializer decl init) :
    ¬ fragment.Branches decl.id := by
  intro branches
  obtain ⟨inPaths, found⟩ := mem_fragments.1 member
  rw [isCode] at found
  obtain ⟨isField, present⟩ := eq_of_classify_field found
  have isBody : fragment.body? = some (.expr init) := by
    rw [body?, isCode]
    rfl
  have inTree : Tree.Node.field decl ∈ (Tree.ofUnit unit serial).nodes := by
    rw [← isField]
    exact Tree.mem_nodes_iff.2 (Tree.leaf_mem_preorder inPaths)
  have isChild : Tree.Node.expr init ∈ (Tree.Node.field decl).children := by
    rw [Tree.Node.children, present]
    exact List.mem_cons_self
  exact Nat.lt_asymm (branches.id_lt member isBody) (Tree.id_lt_of_child inTree isChild)

end Fragment

end FragmentFlow
