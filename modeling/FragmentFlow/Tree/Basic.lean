import FragmentFlow.Tree.Kind

/-!
# Numbered trees

A tree is a unit in which every construct has a number of its own.  Statement
lists that belong together are blocks, with a number too.  A node is a construct
of any sort; nodes have children in source order, and `size` counts the nodes of
a subtree.
-/

namespace FragmentFlow.Tree

mutual

/-- Expressions. -/
inductive Expr where
  | literal (id : Nat) (value : Literal)
  | ident (id : Nat) (name : String)
  | assign (id : Nat) (target : String) (value : Expr)
  | binary (id : Nat) (op : BinaryOp) (lhs rhs : Expr)
  | unary (id : Nat) (op : UnaryOp) (operand : Expr)
  | conditional (id : Nat) (cond whenTrue whenFalse : Expr)
  | call (id : Nat) (callee : String) (args : List Expr)
  | new (id : Nat) (ty : String) (args : List Expr)
  | lambda (id : Nat) (params : List String) (body : LambdaBody)

/-- The body of a lambda. -/
inductive LambdaBody where
  | value (result : Expr)
  | block (body : Block)

/-- A list of statements; only the initializer of a class can be static. -/
inductive Block where
  | mk (id : Nat) (isStatic : Bool) (stmts : List Stmt)

/-- Statements. -/
inductive Stmt where
  | localDecl (id : Nat) (name ty : String) (init : Option Expr)
  | exprStmt (id : Nat) (expr : Expr)
  | ifElse (id : Nat) (cond : Expr) (whenTrue : Block) (whenFalse : Option Block)
  | whileLoop (id : Nat) (cond : Expr) (body : Block)
  | forLoop (id : Nat) (init : List Stmt) (cond : Option Expr) (update : List Expr) (body : Block)
  | returnValue (id : Nat) (value : Option Expr)
  | breakLoop (id : Nat)
  | continueLoop (id : Nat)
  | throwValue (id : Nat) (value : Expr)
  | tryCatch (id : Nat) (body : Block) (catches : List Catch) (cleanup : Option Block)
  | block (inner : Block)

/-- Catch clauses. -/
inductive Catch where
  | mk (id : Nat) (name ty : String) (body : Block)

end

/-- An import. -/
structure Import where
  id : Nat
  path : String

/-- An annotation. -/
structure Annot where
  id : Nat
  name : String
  args : List Expr

/-- A method; one without a body is abstract. -/
structure Method where
  id : Nat
  name : String
  params : List Source.Param
  annotations : List Annot
  body : Option Block

/-- A field. -/
structure Field where
  id : Nat
  name : String
  ty : String
  isStatic : Bool
  init : Option Expr

/-- Class members. -/
inductive Member where
  | method (decl : Method)
  | field (decl : Field)
  | initializer (body : Block)

/-- A class. -/
structure Class where
  id : Nat
  name : String
  annotations : List Annot
  members : List Member

/-- The root of a tree. -/
structure Root where
  id : Nat
  name : String
  imports : List Import
  classes : List Class

/-! ### Numbers and parts -/

/-- The number of an expression. -/
def Expr.id : Expr → Nat
  | literal id .. | ident id .. | assign id .. | binary id .. | unary id .. | conditional id ..
  | call id .. | new id .. | lambda id .. => id

/-- The number of a block. -/
def Block.id : Block → Nat
  | mk id _ _ => id

/-- Whether a block is a static initializer. -/
def Block.isStatic : Block → Bool
  | mk _ isStatic _ => isStatic

/-- The statements of a block. -/
def Block.stmts : Block → List Stmt
  | mk _ _ stmts => stmts

/-- The number of a statement. -/
def Stmt.id : Stmt → Nat
  | localDecl id .. | exprStmt id .. | ifElse id .. | whileLoop id .. | forLoop id ..
  | returnValue id .. | breakLoop id | continueLoop id | throwValue id .. | tryCatch id .. => id
  | block inner => inner.id

/-- The number of a catch clause. -/
def Catch.id : Catch → Nat
  | mk id .. => id

/-- The variable a catch clause binds. -/
def Catch.name : Catch → String
  | mk _ name .. => name

/-- The type of the exceptions a catch clause handles. -/
def Catch.ty : Catch → String
  | mk _ _ ty _ => ty

/-- What a catch clause does. -/
def Catch.body : Catch → Block
  | mk _ _ _ body => body

/-! ### Nodes -/

/-- A construct of a tree. -/
inductive Node where
  | root (unit : Root)
  | importDecl (decl : Import)
  | classDecl (decl : Class)
  | annot (decl : Annot)
  | method (decl : Method)
  | field (decl : Field)
  | stmt (inner : Stmt)
  | catchClause (clause : Catch)
  | expr (inner : Expr)

/-- A block as a node. -/
def Block.toNode (block : Block) : Node :=
  .stmt (.block block)

/-- The body of a lambda as a node. -/
def LambdaBody.toNode : LambdaBody → Node
  | value result => .expr result
  | block body => body.toNode

/-- A member as a node. -/
def Member.toNode : Member → Node
  | method decl => .method decl
  | field decl => .field decl
  | initializer body => body.toNode

/-- The number of a node. -/
def Node.id : Node → Nat
  | root unit => unit.id
  | importDecl decl => decl.id
  | classDecl decl => decl.id
  | annot decl => decl.id
  | method decl => decl.id
  | field decl => decl.id
  | stmt inner => inner.id
  | catchClause clause => clause.id
  | expr inner => inner.id

/-- The parts of an expression. -/
def Expr.children : Expr → List Node
  | literal .. | ident .. => []
  | assign _ _ value => [.expr value]
  | binary _ _ lhs rhs => [.expr lhs, .expr rhs]
  | unary _ _ operand => [.expr operand]
  | conditional _ cond whenTrue whenFalse => [.expr cond, .expr whenTrue, .expr whenFalse]
  | call _ _ args => args.map .expr
  | new _ _ args => args.map .expr
  | lambda _ _ body => [body.toNode]

/-- The parts of a statement. -/
def Stmt.children : Stmt → List Node
  | localDecl _ _ _ init => init.toList.map .expr
  | exprStmt _ expr => [.expr expr]
  | ifElse _ cond whenTrue whenFalse =>
    .expr cond :: whenTrue.toNode :: whenFalse.toList.map Block.toNode
  | whileLoop _ cond body => [.expr cond, body.toNode]
  | forLoop _ init cond update body =>
    init.map .stmt ++ cond.toList.map .expr ++ update.map .expr ++ [body.toNode]
  | returnValue _ value => value.toList.map .expr
  | breakLoop _ | continueLoop _ => []
  | throwValue _ value => [.expr value]
  | tryCatch _ body catches cleanup =>
    body.toNode :: (catches.map .catchClause ++ cleanup.toList.map Block.toNode)
  | block inner => inner.stmts.map .stmt

/-- The children of a node, in source order. -/
def Node.children : Node → List Node
  | root unit => unit.imports.map .importDecl ++ unit.classes.map .classDecl
  | importDecl _ => []
  | classDecl decl => decl.annotations.map .annot ++ decl.members.map Member.toNode
  | annot decl => decl.args.map .expr
  | method decl => decl.annotations.map .annot ++ decl.body.toList.map Block.toNode
  | field decl => decl.init.toList.map .expr
  | stmt inner => inner.children
  | catchClause clause => [clause.body.toNode]
  | expr inner => inner.children

/-- An expression without the sorts of its parts. -/
def Expr.shape : Expr → Kind Node
  | literal _ value => .literal value
  | ident _ name => .ident name
  | assign _ target value => .assign target (.expr value)
  | binary _ op lhs rhs => .binary op (.expr lhs) (.expr rhs)
  | unary _ op operand => .unary op (.expr operand)
  | conditional _ cond whenTrue whenFalse =>
    .conditional (.expr cond) (.expr whenTrue) (.expr whenFalse)
  | call _ callee args => .call callee (args.map .expr)
  | new _ ty args => .new ty (args.map .expr)
  | lambda _ params body => .lambda params body.toNode

/-- A statement without the sorts of its parts. -/
def Stmt.shape : Stmt → Kind Node
  | localDecl _ name ty init => .localDecl name ty (init.map .expr)
  | exprStmt _ expr => .exprStmt (.expr expr)
  | ifElse _ cond whenTrue whenFalse =>
    .ifElse (.expr cond) whenTrue.toNode (whenFalse.map Block.toNode)
  | whileLoop _ cond body => .whileLoop (.expr cond) body.toNode
  | forLoop _ init cond update body =>
    .forLoop (init.map .stmt) (cond.map .expr) (update.map .expr) body.toNode
  | returnValue _ value => .returnValue (value.map .expr)
  | breakLoop _ => .breakLoop
  | continueLoop _ => .continueLoop
  | throwValue _ value => .throwValue (.expr value)
  | tryCatch _ body catches cleanup =>
    .tryCatch body.toNode (catches.map .catchClause) (cleanup.map Block.toNode)
  | block inner => .block inner.isStatic (inner.stmts.map .stmt)

/-- A node without the sorts of its parts. -/
def Node.shape : Node → Kind Node
  | root unit => .root unit.name (unit.imports.map .importDecl ++ unit.classes.map .classDecl)
  | importDecl decl => .importDecl decl.path
  | classDecl decl =>
    .classDecl decl.name (decl.annotations.map .annot ++ decl.members.map Member.toNode)
  | annot decl => .annot decl.name (decl.args.map .expr)
  | method decl =>
    .method decl.name decl.params (decl.annotations.map .annot) (decl.body.map Block.toNode)
  | field decl => .field decl.name decl.ty decl.isStatic (decl.init.map .expr)
  | stmt inner => inner.shape
  | catchClause clause => .catchClause clause.name clause.ty clause.body.toNode
  | expr inner => inner.shape

/-- The parts of a node are its children. -/
theorem Node.parts_shape (node : Node) : node.shape.parts = node.children := by
  cases node with
  | stmt inner =>
    cases inner <;>
      simp [Node.shape, Stmt.shape, Kind.parts, Node.children, Stmt.children, Option.toList_map]
  | expr inner =>
    cases inner <;> simp [Node.shape, Expr.shape, Kind.parts, Node.children, Expr.children]
  | _ => simp [Node.shape, Kind.parts, Node.children, Option.toList_map]

/-- Whether a node is an expression. -/
def Node.isExpression : Node → Bool
  | expr _ => true
  | _ => false

/-! ### Sizes -/

mutual

/-- The number of nodes of an expression. -/
def Expr.size : Expr → Nat
  | .literal .. | .ident .. => 1
  | .assign _ _ value => value.size + 1
  | .binary _ _ lhs rhs => lhs.size + rhs.size + 1
  | .unary _ _ operand => operand.size + 1
  | .conditional _ cond whenTrue whenFalse => cond.size + whenTrue.size + whenFalse.size + 1
  | .call _ _ args => sizeExprs args + 1
  | .new _ _ args => sizeExprs args + 1
  | .lambda _ _ body => body.size + 1

/-- The number of nodes of a lambda body. -/
def LambdaBody.size : LambdaBody → Nat
  | .value result => result.size
  | .block body => body.size

/-- The number of nodes of a block. -/
def Block.size : Block → Nat
  | .mk _ _ stmts => sizeStmts stmts + 1

/-- The number of nodes of a statement. -/
def Stmt.size : Stmt → Nat
  | .localDecl _ _ _ init => sizeExpr? init + 1
  | .exprStmt _ expr => expr.size + 1
  | .ifElse _ cond whenTrue whenFalse => cond.size + whenTrue.size + sizeBlock? whenFalse + 1
  | .whileLoop _ cond body => cond.size + body.size + 1
  | .forLoop _ init cond update body =>
    sizeStmts init + sizeExpr? cond + sizeExprs update + body.size + 1
  | .returnValue _ value => sizeExpr? value + 1
  | .breakLoop _ | .continueLoop _ => 1
  | .throwValue _ value => value.size + 1
  | .tryCatch _ body catches cleanup =>
    body.size + sizeCatches catches + sizeBlock? cleanup + 1
  | .block inner => inner.size

/-- The number of nodes of a catch clause. -/
def Catch.size : Catch → Nat
  | .mk _ _ _ body => body.size + 1

/-- The number of nodes of some expressions. -/
def sizeExprs : List Expr → Nat
  | [] => 0
  | expr :: exprs => expr.size + sizeExprs exprs

/-- The number of nodes of an optional expression. -/
def sizeExpr? : Option Expr → Nat
  | none => 0
  | some expr => expr.size

/-- The number of nodes of some statements. -/
def sizeStmts : List Stmt → Nat
  | [] => 0
  | stmt :: stmts => stmt.size + sizeStmts stmts

/-- The number of nodes of an optional block. -/
def sizeBlock? : Option Block → Nat
  | none => 0
  | some block => block.size

/-- The number of nodes of some catch clauses. -/
def sizeCatches : List Catch → Nat
  | [] => 0
  | clause :: clauses => clause.size + sizeCatches clauses

end

/-- The total of a measure over a list. -/
def total {α : Type} (measure : α → Nat) : List α → Nat
  | [] => 0
  | item :: items => measure item + total measure items

/-- The number of nodes of an annotation. -/
def Annot.size (annot : Annot) : Nat :=
  sizeExprs annot.args + 1

/-- The number of nodes of a member. -/
def Member.size : Member → Nat
  | method decl => total Annot.size decl.annotations + sizeBlock? decl.body + 1
  | field decl => sizeExpr? decl.init + 1
  | initializer body => body.size

/-- The number of nodes of a class. -/
def Class.size (decl : Class) : Nat :=
  total Annot.size decl.annotations + total Member.size decl.members + 1

/-- The number of nodes of a subtree. -/
def Node.size : Node → Nat
  | root unit => unit.imports.length + total Class.size unit.classes + 1
  | importDecl _ => 1
  | classDecl decl => decl.size
  | annot decl => decl.size
  | method decl => (Member.method decl).size
  | field decl => (Member.field decl).size
  | stmt inner => inner.size
  | catchClause clause => clause.size
  | expr inner => inner.size

section Totals

variable {α β : Type} (measure : α → Nat)

@[simp] theorem total_nil : total measure [] = 0 := rfl

@[simp] theorem total_cons (item : α) (items : List α) :
    total measure (item :: items) = measure item + total measure items := rfl

@[simp] theorem total_append (items others : List α) :
    total measure (items ++ others) = total measure items + total measure others := by
  induction items with
  | nil => simp
  | cons item items ih => simp [ih, Nat.add_assoc]

@[simp] theorem total_map (f : β → α) (items : List β) :
    total measure (items.map f) = total (fun item => measure (f item)) items := by
  induction items with
  | nil => rfl
  | cons item items ih => simp [ih]

theorem total_one (items : List α) : total (fun _ => 1) items = items.length := by
  induction items with
  | nil => rfl
  | cons item items ih => simp [ih, Nat.add_comm]

/-- One item measures no more than all. -/
theorem le_total_of_mem {item : α} {items : List α} (member : item ∈ items) :
    measure item ≤ total measure items := by
  induction items with
  | nil => simp at member
  | cons head tail ih =>
    rw [total_cons]
    rcases List.mem_cons.1 member with rfl | later
    · omega
    · have := ih later
      omega

end Totals

theorem sizeExprs_eq (exprs : List Expr) : sizeExprs exprs = total Expr.size exprs := by
  induction exprs with
  | nil => rfl
  | cons expr exprs ih => simp [sizeExprs, ih]

theorem sizeStmts_eq (stmts : List Stmt) : sizeStmts stmts = total Stmt.size stmts := by
  induction stmts with
  | nil => rfl
  | cons stmt stmts ih => simp [sizeStmts, ih]

theorem sizeCatches_eq (clauses : List Catch) :
    sizeCatches clauses = total Catch.size clauses := by
  induction clauses with
  | nil => rfl
  | cons clause clauses ih => simp [sizeCatches, ih]

theorem sizeExpr?_eq (expr : Option Expr) : sizeExpr? expr = total Expr.size expr.toList := by
  cases expr <;> simp [sizeExpr?]

theorem sizeBlock?_eq (block : Option Block) :
    sizeBlock? block = total Block.size block.toList := by
  cases block <;> simp [sizeBlock?]

theorem Block.size_toNode (block : Block) : block.toNode.size = block.size := by
  simp [Block.toNode, Node.size, Stmt.size]

theorem LambdaBody.size_toNode (body : LambdaBody) : body.toNode.size = body.size := by
  cases body with
  | value result => simp [LambdaBody.toNode, LambdaBody.size, Node.size]
  | block body => exact body.size_toNode

theorem Member.size_toNode (member : Member) : member.toNode.size = member.size := by
  cases member with
  | initializer body => exact body.size_toNode
  | _ => simp [Member.toNode, Member.size, Node.size]

/-- A subtree has its own node and those of its children. -/
theorem Node.size_eq (node : Node) : node.size = total Node.size node.children + 1 := by
  have blocks : (fun block : Block => block.toNode.size) = Block.size := funext Block.size_toNode
  have members : (fun member : Member => member.toNode.size) = Member.size :=
    funext Member.size_toNode
  cases node with
  | root unit =>
    simp [Node.size, Node.children, total_one]
  | importDecl decl => simp [Node.size, Node.children]
  | classDecl decl =>
    simp only [Node.children, total_append, total_map, members]
    simp [Node.size, Class.size]
  | annot decl =>
    simp [Node.size, Node.children, Annot.size, sizeExprs_eq]
  | method decl =>
    simp only [Node.children, total_append, total_map, blocks]
    simp [Node.size, Member.size, sizeBlock?_eq]
  | field decl =>
    simp [Node.size, Node.children, Member.size, sizeExpr?_eq]
  | stmt inner =>
    cases inner with
    | block body =>
      obtain ⟨id, isStatic, stmts⟩ := body
      simp [Node.size, Node.children, Stmt.children, Stmt.size, Block.size, Block.stmts,
        sizeStmts_eq]
    | _ =>
      simp [Node.size, Node.children, Stmt.children, Stmt.size, sizeExprs_eq, sizeExpr?_eq,
        sizeStmts_eq, sizeBlock?_eq, sizeCatches_eq, Block.toNode, Nat.add_assoc]
  | catchClause clause =>
    obtain ⟨id, name, ty, body⟩ := clause
    simp [Node.size, Node.children, Catch.size, Catch.body, Block.toNode, Stmt.size]
  | expr inner =>
    cases inner with
    | lambda id params body =>
      show body.size + 1 = total Node.size [body.toNode] + 1
      simp [LambdaBody.size_toNode]
    | _ =>
      simp [Node.size, Node.children, Expr.children, Expr.size, sizeExprs_eq, Nat.add_assoc]

/-- Children are smaller than their parent. -/
theorem Node.size_lt_of_mem_children {child node : Node} (member : child ∈ node.children) :
    child.size < node.size := by
  have := le_total_of_mem Node.size member
  have := node.size_eq
  omega

end FragmentFlow.Tree
