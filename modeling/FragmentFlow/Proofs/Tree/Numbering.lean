import FragmentFlow.Tree.Walk

/-!
# The numbers of a tree and its arena

Numbering and lowering go through a unit together.  The nodes of a tree, each after the
nodes below it, have the numbers from zero upwards, and the arena has each of them at its
number, with the numbers of its children as its parts and the number of the node above it
as its parent.  A node is stored without a parent at first; the node above it is stored
later, and only then the parent is set.
-/

namespace FragmentFlow.Tree

/-- Some nodes and those below them have the numbers from one to another, in
postorder. -/
structure Numbers (first : Nat) (nodes : List Node) (next : Nat) : Prop where
  le : first ≤ next
  ids : (nodes.flatMap Node.postorder).map Node.id = List.range' first (next - first)

namespace Numbers

variable {first middle next : Nat} {nodes others : List Node} {node : Node}

/-- No nodes need no numbers. -/
theorem nil (first : Nat) : Numbers first [] first := by
  refine ⟨Nat.le_refl first, ?_⟩
  simp

/-- Further nodes get the numbers behind. -/
theorem append (one : Numbers first nodes middle) (other : Numbers middle others next) :
    Numbers first (nodes ++ others) next := by
  refine ⟨Nat.le_trans one.le other.le, ?_⟩
  have sum : next - first = (middle - first) + (next - middle) := by
    have := one.le
    have := other.le
    omega
  have start : first + (middle - first) = middle := Nat.add_sub_cancel' one.le
  rw [List.flatMap_append, List.map_append, one.ids, other.ids, sum, ← List.range'_append_1, start]

/-- A node gets the first number behind its children. -/
theorem parent (below : Numbers first node.children next) (isNext : node.id = next) :
    Numbers first [node] (next + 1) := by
  refine ⟨Nat.le_succ_of_le below.le, ?_⟩
  have count : next + 1 - first = (next - first) + 1 := Nat.succ_sub below.le
  have last : first + (next - first) = next := Nat.add_sub_cancel' below.le
  rw [List.flatMap_singleton, Node.postorder_eq, List.map_append, below.ids, count,
    List.range'_1_concat, last, List.map_singleton, isNext]

/-- There are as many nodes as numbers. -/
theorem length (numbers : Numbers first nodes next) :
    first + (nodes.flatMap Node.postorder).length = next := by
  have counted := congrArg List.length numbers.ids
  rw [List.length_map, List.length_range'] at counted
  have := numbers.le
  omega

/-- The first of some nodes has the number behind all below it, and the others follow. -/
theorem split (numbers : Numbers first (node :: others) next) :
    node.id = first + (node.children.flatMap Node.postorder).length ∧
      Numbers (node.id + 1) others next := by
  have ids := numbers.ids.symm
  rw [List.flatMap_cons, Node.postorder_eq, List.append_assoc, List.singleton_append,
    List.map_append, List.map_cons, List.range'_eq_append_iff] at ids
  obtain ⟨count, few, below, behind⟩ := ids
  obtain ⟨isId, some, rest⟩ := List.range'_eq_cons_iff.1 behind.symm
  have counted := congrArg List.length below
  rw [List.length_map, List.length_range'] at counted
  refine ⟨by omega, by omega, rest.trans ?_⟩
  congr 1
  omega

end Numbers

/-! ### Stored nodes -/

/-- A node as it is stored. -/
def Node.kind (node : Node) : Kind Nat :=
  node.shape.map Node.id

/-- The parts of a stored node are the numbers of its children. -/
theorem Node.parts_kind (node : Node) : node.kind.parts = node.children.map Node.id := by
  rw [kind, Kind.parts_map, parts_shape]

/-- The nodes of a subtree below a parent as they are stored. -/
def Node.stored (parent : Option Nat) (node : Node) : List Entry :=
  (node.children.attach.flatMap fun child => child.1.stored (some node.id)) ++
    [{ kind := node.kind, parent }]
termination_by node.size
decreasing_by exact Node.size_lt_of_mem_children child.2

theorem Node.stored_eq (parent : Option Nat) (node : Node) :
    node.stored parent =
      node.children.flatMap (Node.stored (some node.id)) ++ [{ kind := node.kind, parent }] := by
  rw [Node.stored]
  simp [List.flatMap_subtype]

theorem length_flatMap_congr {α β γ : Type} {f : α → List β} {g : α → List γ} {items : List α}
    (same : ∀ item ∈ items, (f item).length = (g item).length) :
    (items.flatMap f).length = (items.flatMap g).length := by
  induction items with
  | nil => rfl
  | cons item items ih =>
      rw [List.flatMap_cons, List.flatMap_cons, List.length_append, List.length_append,
        same item List.mem_cons_self,
        ih fun other member => same other (List.mem_cons_of_mem _ member)]

/-- Each node of a subtree is stored once. -/
theorem Node.length_stored (parent : Option Nat) (node : Node) :
    (node.stored parent).length = node.postorder.length := by
  rw [stored_eq, postorder_eq, List.length_append, List.length_append, length_flatMap_congr
    fun child member => child.length_stored (some node.id)]
  rfl
termination_by node.size
decreasing_by exact Node.size_lt_of_mem_children member

/-- The element behind the first ones is changed. -/
theorem modify_length {α : Type} (front back : List α) (item : α) (f : α → α) :
    (front ++ item :: back).modify front.length f = front ++ f item :: back := by
  rw [List.modify_eq_take_cons_drop (by simp)]
  simp

/-- Setting the parent of some nodes that have just been stored. -/
theorem adopt_stored (id : Nat) {next : Nat} {entries : List Entry} {nodes : List Node}
    (numbers : Numbers entries.length nodes next) :
    Lowering.adopt id (nodes.map Node.id)
        (entries ++ nodes.flatMap (Node.stored none)).toArray =
      (entries ++ nodes.flatMap (Node.stored (some id))).toArray := by
  induction nodes generalizing entries with
  | nil => rfl
  | cons node nodes ih =>
      obtain ⟨isId, rest⟩ := numbers.split
      have place : (entries ++ node.children.flatMap (Node.stored (some node.id))).length =
          node.id := by
        rw [List.length_append, isId, length_flatMap_congr fun child _ => child.length_stored _]
      have count : (entries ++ node.stored (some id)).length = node.id + 1 := by
        rw [Node.stored_eq, ← List.append_assoc, List.length_append, place]
        rfl
      have first : (entries ++ (node :: nodes).flatMap (Node.stored none)).toArray.modify node.id
          (fun entry => { entry with parent := some id }) =
          ((entries ++ node.stored (some id)) ++ nodes.flatMap (Node.stored none)).toArray := by
        have changed := modify_length
          (entries ++ node.children.flatMap (Node.stored (some node.id)))
          (nodes.flatMap (Node.stored none)) ⟨node.kind, none⟩
          fun entry => { entry with parent := some id }
        rw [place] at changed
        rw [List.modify_toArray, List.flatMap_cons, Node.stored_eq none, Node.stored_eq (some id)]
        simpa using changed
      rw [List.map_cons, Lowering.adopt, List.foldl_cons, first, List.flatMap_cons,
        ← List.append_assoc]
      exact ih (count ▸ rest)

/-! ### Lowering gives consecutive numbers -/

/-- Behind some nodes that were stored from a number on, a part of lowering ends with a
value, and with other nodes stored from there on. -/
structure Lowers {α : Type} (first : Nat) (done : List Node) (middle : Nat)
    (program : Lowering α) (value : α) (nodes : List Node) (next : Nat) : Prop where
  numbers : Numbers first done middle → Numbers first nodes next
  run : Numbers first done middle → ∀ entries : List Entry, entries.length = first →
    program (entries ++ done.flatMap (Node.stored none)).toArray =
      (value, (entries ++ nodes.flatMap (Node.stored none)).toArray)

namespace Lowers

variable {α β : Type} {first middle next last : Nat} {done nodes others : List Node} {node : Node}
  {lower : Lowering α} {rest : α → Lowering β} {value : α} {result : β}

/-- A result is returned with the nodes stored so far. -/
theorem pure (value : α) : Lowers first done middle (Pure.pure value) value done middle where
  numbers := id
  run _ _ _ := rfl

/-- The nodes that come first are stored before those that follow. -/
theorem bind (one : Lowers middle [] middle lower value others next)
    (other : Lowers first (done ++ others) next (rest value) result nodes last) :
    Lowers first done middle (lower >>= rest) result nodes last where
  numbers before := other.numbers (before.append (one.numbers (.nil middle)))
  run before entries size := by
    have reached : (entries ++ done.flatMap (Node.stored none)).length = middle := by
      rw [List.length_append, size, length_flatMap_congr fun node _ => node.length_stored none]
      exact before.length
    have stored := one.run (.nil middle) _ reached
    rw [List.flatMap_nil, List.append_nil] at stored
    have followed := other.run (before.append (one.numbers (.nil middle))) entries size
    rw [List.flatMap_append, ← List.append_assoc] at followed
    change (let (found, between) := lower _; rest found between) = _
    rw [stored]
    exact followed

theorem push {kind : Kind Nat} (below : node.children = done) (isKind : node.kind = kind)
    (isNext : node.id = next) :
    Lowers first done next (Lowering.push kind) next [node] (next + 1) := by
  subst below isKind
  refine ⟨fun below => below.parent isNext, fun below entries size => ?_⟩
  have reached : (entries ++ node.children.flatMap (Node.stored none)).length = node.id := by
    rw [List.length_append, size, length_flatMap_congr fun node _ => node.length_stored none,
      isNext]
    exact below.length
  have adopted := adopt_stored node.id (size ▸ below)
  unfold Lowering.push
  dsimp only
  rw [List.size_toArray, reached, Node.parts_kind, adopted, List.push_toArray,
    List.flatMap_singleton, Node.stored_eq, List.append_assoc, isNext]

/-- A block is stored behind its statements. -/
theorem block {stmts : List Stmt} {lower : Lowering (List Nat)}
    (inner : Lowers first [] first lower ((stmts.map Node.stmt).map Node.id) (stmts.map .stmt) next)
    (isStatic : Bool) :
    Lowers first [] first (Lowering.block isStatic lower) next
      [Block.toNode (.mk next isStatic stmts)] (next + 1) :=
  inner.bind (push rfl rfl rfl)

end Lowers

mutual

theorem lowers_expr (next : Nat) (expr : Source.Expr) :
    Lowers next [] next (Lowering.expr expr) (numberExpr next expr).1.id
      [.expr (numberExpr next expr).1] (numberExpr next expr).2 := by
  match expr with
  | .literal value => exact .push rfl rfl rfl
  | .ident name => exact .push rfl rfl rfl
  | .assign target value => exact (lowers_expr next value).bind (.push rfl rfl rfl)
  | .binary op lhs rhs =>
      exact (lowers_expr next lhs).bind ((lowers_expr _ rhs).bind (.push rfl rfl rfl))
  | .unary op operand => exact (lowers_expr next operand).bind (.push rfl rfl rfl)
  | .conditional cond whenTrue whenFalse =>
      exact (lowers_expr next cond).bind
        ((lowers_expr _ whenTrue).bind ((lowers_expr _ whenFalse).bind (.push rfl rfl rfl)))
  | .call callee args => exact (lowers_exprs next args).bind (.push rfl rfl rfl)
  | .new ty args => exact (lowers_exprs next args).bind (.push rfl rfl rfl)
  | .lambda params body => exact (lowers_lambdaBody next body).bind (.push rfl rfl rfl)

theorem lowers_lambdaBody (next : Nat) (body : Source.LambdaBody) :
    Lowers next [] next (Lowering.lambdaBody body) (numberLambdaBody next body).1.toNode.id
      [(numberLambdaBody next body).1.toNode] (numberLambdaBody next body).2 := by
  match body with
  | .value result => exact lowers_expr next result
  | .block body => exact (lowers_stmts next body).block false

theorem lowers_stmt (next : Nat) (stmt : Source.Stmt) :
    Lowers next [] next (Lowering.stmt stmt) (numberStmt next stmt).1.id
      [.stmt (numberStmt next stmt).1] (numberStmt next stmt).2 := by
  match stmt with
  | .localDecl name ty init => exact (lowers_expr? next init).bind (.push rfl rfl rfl)
  | .exprStmt expr => exact (lowers_expr next expr).bind (.push rfl rfl rfl)
  | .ifElse cond whenTrue whenFalse =>
      exact (lowers_expr next cond).bind
        (((lowers_stmts _ whenTrue).block false).bind
          ((lowers_block? _ whenFalse).bind (.push rfl rfl rfl)))
  | .whileLoop cond body =>
      exact (lowers_expr next cond).bind
        (((lowers_stmts _ body).block false).bind (.push rfl rfl rfl))
  | .forLoop init cond update body =>
      exact (lowers_stmts next init).bind ((lowers_expr? _ cond).bind
        ((lowers_exprs _ update).bind
          (((lowers_stmts _ body).block false).bind (.push rfl rfl rfl))))
  | .returnValue value => exact (lowers_expr? next value).bind (.push rfl rfl rfl)
  | .breakLoop => exact .push rfl rfl rfl
  | .continueLoop => exact .push rfl rfl rfl
  | .throwValue value => exact (lowers_expr next value).bind (.push rfl rfl rfl)
  | .tryCatch body catches cleanup =>
      exact ((lowers_stmts next body).block false).bind
        ((lowers_clauses _ catches).bind ((lowers_block? _ cleanup).bind (.push rfl rfl rfl)))
  | .block body => exact (lowers_stmts next body).block false

theorem lowers_clause (next : Nat) (clause : Source.Catch) :
    Lowers next [] next (Lowering.clause clause) (numberCatch next clause).1.id
      [.catchClause (numberCatch next clause).1] (numberCatch next clause).2 := by
  match clause with
  | .mk name ty body => exact ((lowers_stmts next body).block false).bind (.push rfl rfl rfl)

theorem lowers_exprs (next : Nat) (exprs : List Source.Expr) :
    Lowers next [] next (Lowering.exprs exprs)
      (((numberExprs next exprs).1.map Node.expr).map Node.id)
      ((numberExprs next exprs).1.map .expr) (numberExprs next exprs).2 := by
  match exprs with
  | [] => exact .pure _
  | expr :: exprs => exact (lowers_expr next expr).bind ((lowers_exprs _ exprs).bind (.pure _))

theorem lowers_expr? (next : Nat) (expr : Option Source.Expr) :
    Lowers next [] next (Lowering.expr? expr)
      (((numberExpr? next expr).1.map Node.expr).map Node.id)
      ((numberExpr? next expr).1.toList.map .expr) (numberExpr? next expr).2 := by
  match expr with
  | none => exact .pure _
  | some expr => exact (lowers_expr next expr).bind (.pure _)

theorem lowers_stmts (next : Nat) (stmts : List Source.Stmt) :
    Lowers next [] next (Lowering.stmts stmts)
      (((numberStmts next stmts).1.map Node.stmt).map Node.id)
      ((numberStmts next stmts).1.map .stmt) (numberStmts next stmts).2 := by
  match stmts with
  | [] => exact .pure _
  | stmt :: stmts => exact (lowers_stmt next stmt).bind ((lowers_stmts _ stmts).bind (.pure _))

theorem lowers_block? (next : Nat) (block : Option (List Source.Stmt)) :
    Lowers next [] next (Lowering.block? block)
      (((numberBlock? next block).1.map Block.toNode).map Node.id)
      ((numberBlock? next block).1.toList.map Block.toNode) (numberBlock? next block).2 := by
  match block with
  | none => exact .pure _
  | some stmts => exact ((lowers_stmts next stmts).block false).bind (.pure _)

theorem lowers_clauses (next : Nat) (clauses : List Source.Catch) :
    Lowers next [] next (Lowering.clauses clauses)
      (((numberCatches next clauses).1.map Node.catchClause).map Node.id)
      ((numberCatches next clauses).1.map .catchClause) (numberCatches next clauses).2 := by
  match clauses with
  | [] => exact .pure _
  | clause :: clauses =>
      exact (lowers_clause next clause).bind ((lowers_clauses _ clauses).bind (.pure _))

end

/-- Items that are lowered one by one are lowered as a list. -/
theorem lowers_list {α β : Type} {lower : α → Lowering Nat} {number : Nat → α → β × Nat}
    {toNode : β → Node}
    (each : ∀ next item, Lowers next [] next (lower item) (toNode (number next item).1).id
      [toNode (number next item).1] (number next item).2) (next : Nat) (items : List α) :
    Lowers next [] next (Lowering.list lower items)
      (((numberList number next items).1.map toNode).map Node.id)
      ((numberList number next items).1.map toNode) (numberList number next items).2 := by
  induction items generalizing next with
  | nil => exact .pure _
  | cons item items ih => exact (each next item).bind ((ih _).bind (.pure _))

theorem lowers_annot (next : Nat) (annot : Source.Annot) :
    Lowers next [] next (Lowering.annot annot) (Node.annot (numberAnnot next annot).1).id
      [.annot (numberAnnot next annot).1] (numberAnnot next annot).2 :=
  (lowers_exprs next annot.args).bind (.push rfl rfl rfl)

theorem lowers_member (next : Nat) (member : Source.Member) :
    Lowers next [] next (Lowering.member member) (numberMember next member).1.toNode.id
      [(numberMember next member).1.toNode] (numberMember next member).2 := by
  cases member with
  | method name params annotations body =>
      exact (lowers_list lowers_annot next annotations).bind
        ((lowers_block? _ body).bind (.push rfl rfl rfl))
  | field name ty isStatic init => exact (lowers_expr? next init).bind (.push rfl rfl rfl)
  | initializer isStatic body => exact (lowers_stmts next body).block isStatic

theorem lowers_classDecl (next : Nat) (decl : Source.Class) :
    Lowers next [] next (Lowering.classDecl decl) (Node.classDecl (numberClass next decl).1).id
      [.classDecl (numberClass next decl).1] (numberClass next decl).2 := by
  refine (lowers_list lowers_annot next decl.annotations).bind
    ((lowers_list lowers_member _ decl.members).bind ?_)
  rw [← List.map_append]
  exact .push rfl rfl rfl

theorem lowers_importDecl (next : Nat) (path : String) :
    Lowers next [] next (Lowering.push (.importDecl path))
      (Node.importDecl (numberImport next path).1).id
      [.importDecl (numberImport next path).1] (numberImport next path).2 :=
  .push rfl rfl rfl

theorem lowers_unit (unit : Source.CompilationUnit) :
    Lowers 0 [] 0 (Lowering.unit unit) (numberUnit unit).id [.root (numberUnit unit)]
      ((numberUnit unit).id + 1) := by
  refine (lowers_list lowers_importDecl 0 unit.imports).bind
    ((lowers_list lowers_classDecl _ unit.classes).bind ?_)
  rw [← List.map_append]
  exact .push rfl rfl rfl

/-- The nodes of a tree, in postorder, have the numbers from zero upwards. -/
theorem ids_ofUnit (unit : Source.CompilationUnit) (serial : Nat) :
    (ofUnit unit serial).nodes.map Node.id = List.range ((numberUnit unit).id + 1) := by
  have numbered := ((lowers_unit unit).numbers (.nil 0)).ids
  rw [List.flatMap_singleton, Nat.sub_zero, ← List.range_eq_range'] at numbered
  exact numbered

/-- The arena of a tree has its nodes in postorder. -/
theorem arena_ofUnit (unit : Source.CompilationUnit) (serial : Nat) :
    (ofUnit unit serial).arena =
      { entries := ((ofUnit unit serial).rootNode.stored none).toArray
        root := (ofUnit unit serial).root.id } := by
  have lowered := (lowers_unit unit).run (.nil 0) [] rfl
  rw [List.flatMap_singleton] at lowered
  change Arena.ofUnit unit = _
  unfold Arena.ofUnit
  rw [show Lowering.unit unit #[] = _ from lowered]
  rfl

end FragmentFlow.Tree
