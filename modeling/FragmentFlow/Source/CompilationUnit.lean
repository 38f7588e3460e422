import FragmentFlow.Source.Operator

/-!
# Compilation units

A unit as it is written down: imports and classes, members, statements and
expressions, nested as in the source text and without positions.
-/

namespace FragmentFlow.Source

mutual

/-- Expressions. -/
inductive Expr where
  | literal (value : Literal)
  | ident (name : String)
  | assign (target : String) (value : Expr)
  | binary (op : BinaryOp) (lhs rhs : Expr)
  | unary (op : UnaryOp) (operand : Expr)
  | conditional (cond whenTrue whenFalse : Expr)
  | call (callee : String) (args : List Expr)
  | new (ty : String) (args : List Expr)
  | lambda (params : List String) (body : LambdaBody)

/-- The body of a lambda: a value or a list of statements. -/
inductive LambdaBody where
  | value (result : Expr)
  | block (body : List Stmt)

/-- Statements. -/
inductive Stmt where
  | localDecl (name ty : String) (init : Option Expr)
  | exprStmt (expr : Expr)
  | ifElse (cond : Expr) (whenTrue : List Stmt) (whenFalse : Option (List Stmt))
  | whileLoop (cond : Expr) (body : List Stmt)
  | forLoop (init : List Stmt) (cond : Option Expr) (update : List Expr) (body : List Stmt)
  | returnValue (value : Option Expr)
  | breakLoop
  | continueLoop
  | throwValue (value : Expr)
  | tryCatch (body : List Stmt) (catches : List Catch) (cleanup : Option (List Stmt))
  | block (body : List Stmt)

/-- One handler of a `try`: the exception it binds and what it does. -/
inductive Catch where
  | mk (name ty : String) (body : List Stmt)

end

/-- A method parameter. -/
structure Param where
  name : String
  ty : String
  deriving DecidableEq, Repr

/-- An annotation with its arguments. -/
structure Annot where
  name : String
  args : List Expr := []

/-- Class members; a method without a body is abstract. -/
inductive Member where
  | method (name : String) (params : List Param) (annotations : List Annot)
      (body : Option (List Stmt))
  | field (name ty : String) (isStatic : Bool) (init : Option Expr)
  | initializer (isStatic : Bool) (body : List Stmt)

/-- A class declaration. -/
structure Class where
  name : String
  annotations : List Annot := []
  members : List Member := []

/-- A compilation unit. -/
structure CompilationUnit where
  name : String
  imports : List String := []
  classes : List Class := []

end FragmentFlow.Source
