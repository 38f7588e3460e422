import FragmentFlow.Proofs.Tree.Operands
import Mathlib.Data.List.Forall2

/-!
# Expressions are drawn at one go

Drawing an expression adds one node for each part of it, in its place or as a copy, and the
operands of a new node are the new nodes of its parts.  So the nodes for a part of the tree
and the nodes for its operands keep step.
-/

namespace FragmentFlow

/-- The nodes of a subtree, outside nested lambdas, are among some nodes. -/
def Tree.Node.Within (nodes : List Tree.Node) (node : Tree.Node) : Prop :=
  ∀ inner ∈ node.ownNodes, inner ∈ nodes

namespace Tree.Node.Within

variable {nodes : List Tree.Node} {node : Tree.Node}

theorem self (within : node.Within nodes) : node ∈ nodes :=
  within node (mem_ownNodes.2 (Or.inl rfl))

/-- An operand of a node within some nodes is within them. -/
theorem operand (within : node.Within nodes) {part : Tree.Expr} (isPart : part ∈ node.operands) :
    (Tree.Node.expr part).Within nodes := fun inner below =>
  within inner (mem_ownNodes.2
    (Or.inr ⟨isLambda_of_operand isPart, _, mem_children_of_operand isPart, below⟩))

end Tree.Node.Within

namespace Graph

namespace Builder

/-- A new node stands for an expression. -/
def Stands (b later : Builder) (copying : Bool) (id : Nat) (part : Tree.Expr) : Prop :=
  b.nodes.size ≤ id ∧ ∃ node, later.bare? id = some node ∧ node.isDrawing copying part.id = true

/-- Parts of the tree have been drawn at one go, each as often as given.  New nodes use the
values of new nodes for their operands. -/
structure Evaluation (nodes : List Tree.Node) (copying : Bool) (own : Nat → Nat)
    (b later : Builder) : Prop where
  grows : Grows b later
  count : ∀ tree,
    (later.drawings copying tree).length = (b.drawings copying tree).length + own tree
  others : ∀ tree, (later.drawings (!copying) tree).length = (b.drawings (!copying) tree).length
  operands : ∀ id node tree, b.nodes.size ≤ id → later.bare? id = some node →
    node.tree = some tree → node.isCopy = copying ∧ ∃ inner ∈ nodes, inner.id = tree ∧
      inner.isEvaluated = true ∧ List.Forall₂ (Stands b later copying) node.operands inner.operands

section Stands

variable {b middle later : Builder} {copying : Bool} {id : Nat} {part : Tree.Expr}

/-- A node that stands for a part keeps standing for it. -/
theorem Stands.grow (stands : Stands b middle copying id part) (grows : Grows middle later) :
    Stands b later copying id part := by
  obtain ⟨new, node, found, isDrawing⟩ := stands
  exact ⟨new, node, grows.nodes id node found, isDrawing⟩

/-- What stands for a part in a later drawing does so in the whole. -/
theorem Stands.since (stands : Stands middle later copying id part) (grows : Grows b middle) :
    Stands b later copying id part :=
  ⟨Nat.le_trans grows.size_le stands.1, stands.2⟩

end Stands

namespace Evaluation

variable {nodes : List Tree.Node} {copying : Bool} {own other : Nat → Nat}
  {b middle later : Builder}

theorem refl (b : Builder) : Evaluation nodes copying (fun _ => 0) b b where
  grows := .refl b
  count _ := rfl
  others _ := rfl
  operands _ _ _ new found := absurd (lt_size_of_bare? found) (Nat.not_lt.2 new)

theorem trans (first : Evaluation nodes copying own b middle)
    (second : Evaluation nodes copying other middle later) :
    Evaluation nodes copying (fun tree => own tree + other tree) b later where
  grows := first.grows.trans second.grows
  count tree := by rw [second.count, first.count, Nat.add_assoc]
  others tree := by rw [second.others, first.others]
  operands id node tree new found isTree := by
    by_cases old : id < middle.nodes.size
    · obtain ⟨isCopy, inner, isNode, same, evaluated, uses⟩ :=
        first.operands id node tree new (second.grows.bare?_of_lt old found) isTree
      exact ⟨isCopy, inner, isNode, same, evaluated,
        uses.imp fun _ _ stands => stands.grow second.grows⟩
    · obtain ⟨isCopy, inner, isNode, same, evaluated, uses⟩ :=
        second.operands id node tree (Nat.le_of_not_lt old) found isTree
      exact ⟨isCopy, inner, isNode, same, evaluated,
        uses.imp fun _ _ stands => stands.since first.grows⟩

theorem congr (evaluation : Evaluation nodes copying own b later)
    (same : ∀ tree, other tree = own tree) : Evaluation nodes copying other b later := by
  obtain rfl : other = own := funext same
  exact evaluation

theorem of_tips {tips : List Tip}
    (evaluation : Evaluation nodes copying own { b with tips } later) :
    Evaluation nodes copying own b later :=
  ⟨⟨evaluation.grows.edges, evaluation.grows.nodes⟩, evaluation.count, evaluation.others,
    evaluation.operands⟩

theorem to_tips (tips : List Tip) (evaluation : Evaluation nodes copying own b later) :
    Evaluation nodes copying own b { later with tips } :=
  ⟨⟨evaluation.grows.edges, evaluation.grows.nodes⟩, evaluation.count, evaluation.others,
    evaluation.operands⟩

theorem of_mention {ty : String}
    (evaluation : Evaluation nodes copying own (b.mention ty) later) :
    Evaluation nodes copying own b later :=
  ⟨⟨evaluation.grows.edges, evaluation.grows.nodes⟩, evaluation.count, evaluation.others,
    evaluation.operands⟩

/-- A node is added behind the nodes for its operands. -/
theorem grown {inner : Tree.Node} (isNode : inner ∈ nodes) (evaluated : inner.isEvaluated = true)
    (evaluation : Evaluation nodes copying own b middle) {action : Action} {values : List Nat}
    (uses : List.Forall₂ (Stands b middle copying) values inner.operands)
    (grows : Grows middle later)
    (count : ∀ test, (later.nodesWhere test).length = (middle.nodesWhere test).length +
      (test (.at inner.id copying action values)).toNat)
    (found : ∀ id, later.bare? id =
      if id = middle.nodes.size then some (.at inner.id copying action values)
      else middle.bare? id) :
    Evaluation nodes copying (fun tree => own tree + Tree.isPlace false inner.id tree) b later where
  grows := evaluation.grows.trans grows
  count tree := by
    have isPlace : ((Node.at inner.id copying action values).isDrawing copying tree).toNat =
        Tree.isPlace false inner.id tree := by
      simp [Node.isDrawing, Node.at, Tree.isPlace]
    rw [drawings, count, isPlace, ← drawings, evaluation.count, Nat.add_assoc]
  others tree := by
    have notDrawing : (Node.at inner.id copying action values).isDrawing (!copying) tree =
        false := by
      simp [Node.isDrawing, Node.at]
    rw [drawings, count, notDrawing, ← drawings, evaluation.others]
    rfl
  operands id node tree new present isTree := by
    rw [found] at present
    split at present
    · cases present
      cases isTree
      exact ⟨rfl, inner, isNode, rfl, evaluated, uses.imp fun _ _ stands => stands.grow grows⟩
    · obtain ⟨isCopy, other, isOther, same, isEvaluated, usesOther⟩ :=
        evaluation.operands id node tree new present isTree
      exact ⟨isCopy, other, isOther, same, isEvaluated,
        usesOther.imp fun _ _ stands => stands.grow grows⟩

theorem push {inner : Tree.Node} (isNode : inner ∈ nodes) (evaluated : inner.isEvaluated = true)
    (evaluation : Evaluation nodes copying own b later) (action : Action) {values : List Nat}
    (uses : List.Forall₂ (Stands b later copying) values inner.operands) :
    Evaluation nodes copying (fun tree => own tree + Tree.isPlace false inner.id tree) b
      (later.push (.at inner.id copying action values)).2 :=
  evaluation.grown isNode evaluated uses (.push later _) (length_nodesWhere_push later _)
    (bare?_push later _)

theorem raise (evaluation : Evaluation nodes copying own b later) (scope : Scope) (source : Nat) :
    Evaluation nodes copying own b (later.raise scope source) where
  grows := evaluation.grows.trans (.raise later scope source)
  count tree := by
    rw [drawings, nodesWhere_congr (size_raise ..) (bare?_raise later scope source)]
    exact evaluation.count tree
  others tree := by
    rw [drawings, nodesWhere_congr (size_raise ..) (bare?_raise later scope source)]
    exact evaluation.others tree
  operands id node tree new found isTree := by
    rw [bare?_raise] at found
    obtain ⟨isCopy, inner, isNode, same, evaluated, uses⟩ :=
      evaluation.operands id node tree new found isTree
    exact ⟨isCopy, inner, isNode, same, evaluated,
      uses.imp fun _ _ stands => stands.grow (.raise later scope source)⟩

end Evaluation

/-- An expression has been drawn, and its value is at a node. -/
structure Evaluated (nodes : List Tree.Node) (copying : Bool) (value : Tree.Expr) (b : Builder)
    (drawn : Nat × Builder) : Prop
    extends Evaluation nodes copying ((Tree.Node.expr value).places false) b drawn.2 where
  stands : Stands b drawn.2 copying drawn.1 value

namespace Evaluated

variable {nodes : List Tree.Node} {copying : Bool} {own : Nat → Nat} {b later : Builder}

theorem push {value : Tree.Expr} (isNode : .expr value ∈ nodes)
    (evaluation : Evaluation nodes copying own b later) (action : Action) {values : List Nat}
    (uses : List.Forall₂ (Stands b later copying) values (Tree.Node.expr value).operands)
    (places : ∀ tree, (Tree.Node.expr value).places false tree =
      own tree + Tree.isPlace false value.id tree) :
    Evaluated nodes copying value b (later.push (.at value.id copying action values)) where
  toEvaluation := (evaluation.push isNode rfl action uses).congr places
  stands := by
    refine ⟨evaluation.grows.size_le, _, bare?_push_self later _, ?_⟩
    exact Node.isDrawing_iff.2 ⟨rfl, rfl⟩

/-- Where control came from does not count. -/
theorem pushFrom {value : Tree.Expr} (isNode : .expr value ∈ nodes)
    (evaluation : Evaluation nodes copying own b later) (tips : List Tip) (action : Action)
    {values : List Nat}
    (uses : List.Forall₂ (Stands b later copying) values (Tree.Node.expr value).operands)
    (places : ∀ tree, (Tree.Node.expr value).places false tree =
      own tree + Tree.isPlace false value.id tree) :
    Evaluated nodes copying value b
      ({ later with tips }.push (.at value.id copying action values)) :=
  push isNode (evaluation.to_tips tips) action uses places

theorem of_tips {value : Tree.Expr} {drawn : Nat × Builder} {tips : List Tip}
    (evaluated : Evaluated nodes copying value { b with tips } drawn) :
    Evaluated nodes copying value b drawn :=
  ⟨.of_tips evaluated.toEvaluation, evaluated.stands⟩

theorem raise {value : Tree.Expr} {id : Nat}
    (evaluated : Evaluated nodes copying value b (id, later)) (scope : Scope) :
    Evaluated nodes copying value b (id, later.raise scope id) where
  toEvaluation := evaluated.toEvaluation.raise scope id
  stands := evaluated.stands.grow (.raise later scope id)

mutual

/-- An expression is evaluated with all its operands. -/
theorem expr (scope : Scope) (copying : Bool) (b : Builder) (value : Tree.Expr)
    (within : (Tree.Node.expr value).Within nodes) :
    Evaluated nodes copying value b (b.expr scope copying value) := by
  match value with
  | .literal id literal =>
      exact push within.self (.refl b) (.literal literal) .nil (Tree.places_expr false _)
  | .ident id name => exact push within.self (.refl b) (.ident name) .nil (Tree.places_expr false _)
  | .assign id target operand =>
      have drawn := expr scope copying b operand (within.operand List.mem_cons_self)
      exact push within.self drawn.toEvaluation (.assign target) (.cons drawn.stands .nil)
        (Tree.places_expr false _)
  | .binary id op lhs rhs =>
      have first := expr scope copying b lhs (within.operand List.mem_cons_self)
      have isSecond := within.operand (List.mem_cons_of_mem _ List.mem_cons_self)
      rw [Builder.expr]
      dsimp only
      split
      · have second := of_tips (expr scope copying
          { (b.expr scope copying lhs).2 with
            tips := (b.expr scope copying lhs).2.tipsAs (if op = .and then .onTrue else .onFalse) }
          rhs isSecond)
        have both := first.toEvaluation.trans second.toEvaluation
        exact pushFrom within.self both _ (.binary op)
          (.cons (first.stands.grow second.grows) (.cons (second.stands.since first.grows) .nil))
          (Tree.places_expr false _)
      · have second := expr scope copying (b.expr scope copying lhs).2 rhs isSecond
        have both := first.toEvaluation.trans second.toEvaluation
        have uses : List.Forall₂ _ _ (Tree.Node.expr (.binary id op lhs rhs)).operands :=
          .cons (first.stands.grow second.grows) (.cons (second.stands.since first.grows) .nil)
        have drawn := push within.self both (.binary op) uses (Tree.places_expr false _)
        split
        · exact drawn.raise scope
        · exact drawn
  | .unary id op operand =>
      have drawn := expr scope copying b operand (within.operand List.mem_cons_self)
      exact push within.self drawn.toEvaluation (.unary op) (.cons drawn.stands .nil)
        (Tree.places_expr false _)
  | .conditional id cond whenTrue whenFalse =>
      have test := expr scope copying b cond (within.operand List.mem_cons_self)
      have first := of_tips (expr scope copying
        { (b.expr scope copying cond).2 with
          tips := (b.expr scope copying cond).2.tipsAs .onTrue }
        whenTrue (within.operand (List.mem_cons_of_mem _ List.mem_cons_self)))
      have second := of_tips (expr scope copying
        { ({ (b.expr scope copying cond).2 with
            tips := (b.expr scope copying cond).2.tipsAs .onTrue }.expr scope copying
              whenTrue).2 with
          tips := (b.expr scope copying cond).2.tipsAs .onFalse }
        whenFalse (within.operand
          (List.mem_cons_of_mem _ (List.mem_cons_of_mem _ List.mem_cons_self))))
      have all := (test.toEvaluation.trans first.toEvaluation).trans second.toEvaluation
      exact pushFrom within.self all _ .conditional
        (.cons ((test.stands.grow first.grows).grow second.grows)
          (.cons ((first.stands.since test.grows).grow second.grows)
            (.cons (second.stands.since (test.grows.trans first.grows)) .nil)))
        (Tree.places_expr false _)
  | .call id callee args =>
      obtain ⟨drawn, uses⟩ := exprs scope copying b args fun value member => within.operand member
      exact (push within.self drawn (.call callee) uses (Tree.places_expr false _)).raise scope
  | .new id ty args =>
      obtain ⟨drawn, uses⟩ := exprs scope copying (b.mention ty) args fun value member =>
        within.operand member
      exact (push within.self (.of_mention drawn) (.new ty) uses
        (Tree.places_expr false _)).raise scope
  | .lambda id params body =>
      exact push within.self (.refl b) .lambda .nil (Tree.places_expr false _)

theorem exprs (scope : Scope) (copying : Bool) (b : Builder) (values : List Tree.Expr)
    (within : ∀ value ∈ values, (Tree.Node.expr value).Within nodes) :
    Evaluation nodes copying
        (fun tree => Tree.total (fun value => (Tree.Node.expr value).places false tree) values) b
        (b.exprs scope copying values).2 ∧
      List.Forall₂ (Stands b (b.exprs scope copying values).2 copying)
        (b.exprs scope copying values).1 values := by
  match values with
  | [] => exact ⟨.refl b, .nil⟩
  | value :: values =>
      have first := expr scope copying b value (within value List.mem_cons_self)
      obtain ⟨rest, uses⟩ := exprs scope copying (b.expr scope copying value).2 values
        fun other member => within other (List.mem_cons_of_mem _ member)
      exact ⟨first.toEvaluation.trans rest, .cons (first.stands.grow rest.grows)
        (uses.imp fun _ _ stands => stands.since first.grows)⟩

end

theorem expr? (scope : Scope) (copying : Bool) (b : Builder) (value : Option Tree.Expr)
    (within : ∀ inner ∈ value.toList, (Tree.Node.expr inner).Within nodes) :
    Evaluation nodes copying
        (fun tree =>
          Tree.total (fun inner => (Tree.Node.expr inner).places false tree) value.toList)
        b (b.expr? scope copying value).2 ∧
      List.Forall₂ (Stands b (b.expr? scope copying value).2 copying)
        (b.expr? scope copying value).1 value.toList := by
  cases value with
  | none => exact ⟨.refl b, .nil⟩
  | some value =>
      have drawn := expr scope copying b value (within value List.mem_cons_self)
      exact ⟨drawn.toEvaluation, .cons drawn.stands .nil⟩

end Evaluated

end Builder

end Graph

end FragmentFlow
