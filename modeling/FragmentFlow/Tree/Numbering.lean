import FragmentFlow.Tree.Basic

/-!
# Numbering units

Numbers are given in postorder: the parts of a construct, in source order, before
the construct itself.  Each function takes the next free number and returns it
after the part is numbered.
-/

namespace FragmentFlow.Tree

/-- Numbers the items of a list in order. -/
def numberList {α β : Type} (number : Nat → α → β × Nat) (next : Nat) : List α → List β × Nat
  | [] => ([], next)
  | item :: items =>
    let (item, next) := number next item
    let (items, next) := numberList number next items
    (item :: items, next)

mutual

/-- Numbers an expression. -/
def numberExpr (next : Nat) : Source.Expr → Expr × Nat
  | .literal value => (.literal next value, next + 1)
  | .ident name => (.ident next name, next + 1)
  | .assign target value =>
    let (value, next) := numberExpr next value
    (.assign next target value, next + 1)
  | .binary op lhs rhs =>
    let (lhs, next) := numberExpr next lhs
    let (rhs, next) := numberExpr next rhs
    (.binary next op lhs rhs, next + 1)
  | .unary op operand =>
    let (operand, next) := numberExpr next operand
    (.unary next op operand, next + 1)
  | .conditional cond whenTrue whenFalse =>
    let (cond, next) := numberExpr next cond
    let (whenTrue, next) := numberExpr next whenTrue
    let (whenFalse, next) := numberExpr next whenFalse
    (.conditional next cond whenTrue whenFalse, next + 1)
  | .call callee args =>
    let (args, next) := numberExprs next args
    (.call next callee args, next + 1)
  | .new ty args =>
    let (args, next) := numberExprs next args
    (.new next ty args, next + 1)
  | .lambda params body =>
    let (body, next) := numberLambdaBody next body
    (.lambda next params body, next + 1)

/-- Numbers the body of a lambda. -/
def numberLambdaBody (next : Nat) : Source.LambdaBody → LambdaBody × Nat
  | .value result =>
    let (result, next) := numberExpr next result
    (.value result, next)
  | .block body =>
    let (stmts, next) := numberStmts next body
    (.block (.mk next false stmts), next + 1)

/-- Numbers a statement. -/
def numberStmt (next : Nat) : Source.Stmt → Stmt × Nat
  | .localDecl name ty init =>
    let (init, next) := numberExpr? next init
    (.localDecl next name ty init, next + 1)
  | .exprStmt expr =>
    let (expr, next) := numberExpr next expr
    (.exprStmt next expr, next + 1)
  | .ifElse cond whenTrue whenFalse =>
    let (cond, next) := numberExpr next cond
    let (stmts, next) := numberStmts next whenTrue
    let whenTrue := .mk next false stmts
    let (whenFalse, next) := numberBlock? (next + 1) whenFalse
    (.ifElse next cond whenTrue whenFalse, next + 1)
  | .whileLoop cond body =>
    let (cond, next) := numberExpr next cond
    let (stmts, next) := numberStmts next body
    (.whileLoop (next + 1) cond (.mk next false stmts), next + 2)
  | .forLoop init cond update body =>
    let (init, next) := numberStmts next init
    let (cond, next) := numberExpr? next cond
    let (update, next) := numberExprs next update
    let (stmts, next) := numberStmts next body
    (.forLoop (next + 1) init cond update (.mk next false stmts), next + 2)
  | .returnValue value =>
    let (value, next) := numberExpr? next value
    (.returnValue next value, next + 1)
  | .breakLoop => (.breakLoop next, next + 1)
  | .continueLoop => (.continueLoop next, next + 1)
  | .throwValue value =>
    let (value, next) := numberExpr next value
    (.throwValue next value, next + 1)
  | .tryCatch body catches cleanup =>
    let (stmts, next) := numberStmts next body
    let body := .mk next false stmts
    let (catches, next) := numberCatches (next + 1) catches
    let (cleanup, next) := numberBlock? next cleanup
    (.tryCatch next body catches cleanup, next + 1)
  | .block body =>
    let (stmts, next) := numberStmts next body
    (.block (.mk next false stmts), next + 1)

/-- Numbers a catch clause. -/
def numberCatch (next : Nat) : Source.Catch → Catch × Nat
  | .mk name ty body =>
    let (stmts, next) := numberStmts next body
    (.mk (next + 1) name ty (.mk next false stmts), next + 2)

/-- Numbers expressions in order. -/
def numberExprs (next : Nat) : List Source.Expr → List Expr × Nat
  | [] => ([], next)
  | expr :: exprs =>
    let (expr, next) := numberExpr next expr
    let (exprs, next) := numberExprs next exprs
    (expr :: exprs, next)

/-- Numbers an expression that may be absent. -/
def numberExpr? (next : Nat) : Option Source.Expr → Option Expr × Nat
  | none => (none, next)
  | some expr =>
    let (expr, next) := numberExpr next expr
    (some expr, next)

/-- Numbers statements in order. -/
def numberStmts (next : Nat) : List Source.Stmt → List Stmt × Nat
  | [] => ([], next)
  | stmt :: stmts =>
    let (stmt, next) := numberStmt next stmt
    let (stmts, next) := numberStmts next stmts
    (stmt :: stmts, next)

/-- Numbers a block that may be absent. -/
def numberBlock? (next : Nat) : Option (List Source.Stmt) → Option Block × Nat
  | none => (none, next)
  | some stmts =>
    let (stmts, next) := numberStmts next stmts
    (some (.mk next false stmts), next + 1)

/-- Numbers catch clauses in order. -/
def numberCatches (next : Nat) : List Source.Catch → List Catch × Nat
  | [] => ([], next)
  | clause :: clauses =>
    let (clause, next) := numberCatch next clause
    let (clauses, next) := numberCatches next clauses
    (clause :: clauses, next)

end

/-- Numbers an annotation. -/
def numberAnnot (next : Nat) (annot : Source.Annot) : Annot × Nat :=
  let (args, next) := numberExprs next annot.args
  ({ id := next, name := annot.name, args }, next + 1)

/-- Numbers a member. -/
def numberMember (next : Nat) : Source.Member → Member × Nat
  | .method name params annotations body =>
    let (annotations, next) := numberList numberAnnot next annotations
    let (body, next) := numberBlock? next body
    (.method { id := next, name, params, annotations, body }, next + 1)
  | .field name ty isStatic init =>
    let (init, next) := numberExpr? next init
    (.field { id := next, name, ty, isStatic, init }, next + 1)
  | .initializer isStatic body =>
    let (stmts, next) := numberStmts next body
    (.initializer (.mk next isStatic stmts), next + 1)

/-- Numbers a class: its annotations first, then its members. -/
def numberClass (next : Nat) (decl : Source.Class) : Class × Nat :=
  let (annotations, next) := numberList numberAnnot next decl.annotations
  let (members, next) := numberList numberMember next decl.members
  ({ id := next, name := decl.name, annotations, members }, next + 1)

/-- Numbers an import. -/
def numberImport (next : Nat) (path : String) : Import × Nat :=
  ({ id := next, path }, next + 1)

/-- Numbers a unit from zero. -/
def numberUnit (unit : Source.CompilationUnit) : Root :=
  let (imports, next) := numberList numberImport 0 unit.imports
  let (classes, next) := numberList numberClass next unit.classes
  { id := next, name := unit.name, imports, classes }

end FragmentFlow.Tree
