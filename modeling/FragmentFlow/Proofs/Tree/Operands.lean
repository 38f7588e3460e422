import FragmentFlow.Proofs.Raising.Additions
import FragmentFlow.Proofs.Tree.Shape

/-!
# Evaluated nodes and their operands

An expression, a declaration, a `return` and a `throw` are evaluated after the parts whose
values they use.  In a collection of nodes with numbers of their own, a number that belongs
to such a part belongs to it alone, so a subtree has the number of a node exactly as often
as it has the numbers of the parts.
-/

namespace FragmentFlow.Tree

namespace Node

/-- The parts of a node whose values the node uses, in source order. -/
def operands : Node → List Expr
  | expr (.assign _ _ value) => [value]
  | expr (.unary _ _ value) => [value]
  | expr (.binary _ _ lhs rhs) => [lhs, rhs]
  | expr (.conditional _ cond whenTrue whenFalse) => [cond, whenTrue, whenFalse]
  | expr (.call _ _ args) => args
  | expr (.new _ _ args) => args
  | stmt (.localDecl _ _ _ init) => init.toList
  | stmt (.returnValue _ value) => value.toList
  | stmt (.throwValue _ value) => [value]
  | field decl => decl.init.toList
  | _ => []

/-- Whether a node is evaluated, apart from the parts of it. -/
def isEvaluated : Node → Bool
  | expr _ => true
  | stmt (.localDecl ..) => true
  | stmt (.returnValue ..) => true
  | stmt (.throwValue ..) => true
  | stmt (.whileLoop ..) => true
  | stmt (.forLoop ..) => true
  | catchClause _ => true
  | field _ => true
  | _ => false

theorem mem_children_of_operand {node : Node} {part : Expr} (isPart : part ∈ node.operands) :
    .expr part ∈ node.children := by
  cases node with
  | stmt inner =>
      cases inner with
      | localDecl | returnValue => exact List.mem_map_of_mem isPart
      | throwValue =>
          cases List.mem_singleton.1 isPart
          exact List.mem_cons_self
      | _ => cases isPart
  | expr inner =>
      cases inner with
      | call | new => exact List.mem_map_of_mem isPart
      | assign | unary =>
          cases List.mem_singleton.1 isPart
          exact List.mem_cons_self
      | binary | conditional => exact List.mem_map_of_mem isPart
      | _ => cases isPart
  | field decl => exact List.mem_map_of_mem isPart
  | _ => cases isPart

/-- A node with operands is no lambda. -/
theorem isLambda_of_operand {node : Node} {part : Expr} (isPart : part ∈ node.operands) :
    node.isLambda = false := by
  cases node with
  | expr inner =>
      cases inner with
      | lambda => cases isPart
      | _ => rfl
  | _ => rfl

/-- Below a node, every other node of its own is a child of one of them. -/
theorem exists_parent {node inner : Node} (isOwn : inner ∈ node.ownNodes)
    (different : inner ≠ node) :
    ∃ parent ∈ node.ownNodes, parent.isLambda = false ∧ inner ∈ parent.children := by
  induction node using Node.induction with
  | step node ih =>
      rcases mem_ownNodes.1 isOwn with rfl | ⟨outside, child, isChild, below⟩
      · exact absurd rfl different
      · by_cases same : inner = child
        · subst same
          exact ⟨node, mem_ownNodes.2 (Or.inl rfl), outside, isChild⟩
        · obtain ⟨parent, isParent, notLambda, isInner⟩ := ih child isChild below same
          exact ⟨parent, mem_ownNodes.2 (Or.inr ⟨outside, child, isChild, isParent⟩), notLambda,
            isInner⟩

theorem marks_pos_iff {node : Node} {id : Nat} :
    0 < node.marks id ↔ ∃ inner ∈ node.ownNodes, inner.id = id := by
  rw [marks, List.count_pos_iff, List.mem_map]

end Node

/-- Nodes of a tree, with the children of each of them that is not a lambda.  Each of them
has a number of its own. -/
structure Collection (nodes : List Node) : Prop where
  eq_of_id : ∀ node ∈ nodes, ∀ other ∈ nodes, node.id = other.id → node = other
  closed : ∀ node ∈ nodes, node.isLambda = false → ∀ child ∈ node.children, child ∈ nodes
  parent : ∀ node ∈ nodes, ∀ other ∈ nodes, ∀ child ∈ node.children, child ∈ other.children →
    node = other
  marks : ∀ node ∈ nodes, ∀ id, node.marks id ≤ 1

/-- A number of nodes for each number of the tree is the same for a node and its operands,
and at most one. -/
def Balanced (nodes : List Node) (own : Nat → Nat) : Prop :=
  ∀ node ∈ nodes, own node.id ≤ 1 ∧ ∀ part ∈ node.operands, own part.id = own node.id

namespace Collection

variable {nodes : List Node} {node child : Node}

/-- Own nodes of collected nodes are collected. -/
theorem own (collection : Collection nodes) (isNode : node ∈ nodes) {inner : Node}
    (isOwn : inner ∈ node.ownNodes) : inner ∈ nodes := by
  induction node using Node.induction with
  | step node ih =>
      rcases Node.mem_ownNodes.1 isOwn with rfl | ⟨outside, child, isChild, below⟩
      · exact isNode
      · exact ih child isChild (collection.closed node isNode outside child isChild) below

/-- Operands of collected nodes are collected. -/
theorem operand (collection : Collection nodes) (isNode : node ∈ nodes) {part : Expr}
    (isPart : part ∈ node.operands) : .expr part ∈ nodes :=
  collection.closed node isNode (Node.isLambda_of_operand isPart) _
    (Node.mem_children_of_operand isPart)

/-- A child of a node without operands is no operand. -/
theorem not_operand (collection : Collection nodes) (isNode : node ∈ nodes)
    (isChild : child ∈ node.children) (none : node.operands = []) :
    ∀ other ∈ nodes, ∀ part ∈ other.operands, .expr part ≠ child := by
  rintro other isOther part isPart rfl
  cases collection.parent other isOther node isNode _ (Node.mem_children_of_operand isPart) isChild
  rw [none] at isPart
  cases isPart

/-- A subtree that is not itself an operand has a node exactly if it has its operands. -/
theorem balanced_marks (collection : Collection nodes) (isNode : node ∈ nodes)
    (free : ∀ other ∈ nodes, ∀ part ∈ other.operands, .expr part ≠ node) :
    Balanced nodes node.marks := by
  intro other isOther
  refine ⟨collection.marks node isNode other.id, fun part isPart => ?_⟩
  have both : 0 < node.marks part.id ↔ 0 < node.marks other.id := by
    rw [Node.marks_pos_iff, Node.marks_pos_iff]
    constructor
    · rintro ⟨inner, isOwn, same⟩
      cases collection.eq_of_id inner (collection.own isNode isOwn) _
        (collection.operand isOther isPart) same
      obtain ⟨parent, isParent, -, isInner⟩ :=
        Node.exists_parent isOwn (free other isOther part isPart)
      cases collection.parent parent (collection.own isNode isParent) other isOther _ isInner
        (Node.mem_children_of_operand isPart)
      exact ⟨other, isParent, rfl⟩
    · rintro ⟨inner, isOwn, same⟩
      cases collection.eq_of_id inner (collection.own isNode isOwn) other isOther same
      exact ⟨_, Node.mem_ownNodes_of_child isOwn (Node.isLambda_of_operand isPart)
        (Node.mem_children_of_operand isPart), rfl⟩
  have one := collection.marks node isNode part.id
  have two := collection.marks node isNode other.id
  omega

/-- So has a single node without operands. -/
theorem balanced_single (collection : Collection nodes) (isNode : node ∈ nodes)
    (free : ∀ other ∈ nodes, ∀ part ∈ other.operands, .expr part ≠ node)
    (none : node.operands = []) : Balanced nodes (isPlace false node.id) := by
  intro other isOther
  refine ⟨?_, fun part isPart => ?_⟩
  · exact Bool.toNat_le _
  · have notPart : node.id ≠ part.id := fun same =>
      free other isOther part isPart
        (collection.eq_of_id _ (collection.operand isOther isPart) node isNode same.symm)
    have notOther : node.id ≠ other.id := by
      intro same
      cases collection.eq_of_id node isNode other isOther same
      rw [none] at isPart
      cases isPart
    rw [isPlace, isPlace, beq_eq_false_iff_ne.2 notPart, beq_eq_false_iff_ne.2 notOther]

end Collection

end FragmentFlow.Tree
