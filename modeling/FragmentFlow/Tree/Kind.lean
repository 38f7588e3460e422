import FragmentFlow.Source.CompilationUnit

/-!
# Kinds of nodes

A node of a tree without its surroundings: its own data and a reference to each of its
parts.  Nothing says what sort of node a reference leads to.  Constructs that differ only
in their place look alike: a nested block, the body of a loop, a method or a lambda and the
initializer of a class are all blocks, and a class lists its annotations and members
together.
-/

namespace FragmentFlow.Tree

/-- A node with its own data and references to its parts. -/
inductive Kind (Ref : Type) where
  | root (name : String) (members : List Ref)
  | importDecl (path : String)
  | classDecl (name : String) (members : List Ref)
  | annot (name : String) (args : List Ref)
  | method (name : String) (params : List Source.Param) (annotations : List Ref)
      (body : Option Ref)
  | field (name ty : String) (isStatic : Bool) (init : Option Ref)
  | block (isStatic : Bool) (stmts : List Ref)
  | localDecl (name ty : String) (init : Option Ref)
  | exprStmt (expr : Ref)
  | ifElse (cond whenTrue : Ref) (whenFalse : Option Ref)
  | whileLoop (cond body : Ref)
  | forLoop (init : List Ref) (cond : Option Ref) (update : List Ref) (body : Ref)
  | returnValue (value : Option Ref)
  | breakLoop
  | continueLoop
  | throwValue (value : Ref)
  | tryCatch (body : Ref) (catches : List Ref) (cleanup : Option Ref)
  | catchClause (name ty : String) (body : Ref)
  | literal (value : Literal)
  | ident (name : String)
  | assign (target : String) (value : Ref)
  | binary (op : BinaryOp) (lhs rhs : Ref)
  | unary (op : UnaryOp) (operand : Ref)
  | conditional (cond whenTrue whenFalse : Ref)
  | call (callee : String) (args : List Ref)
  | new (ty : String) (args : List Ref)
  | lambda (params : List String) (body : Ref)

namespace Kind

variable {Ref Other : Type}

/-- The parts of a node, in source order. -/
def parts : Kind Ref → List Ref
  | root _ members | classDecl _ members => members
  | annot _ args | call _ args | new _ args => args
  | method _ _ annotations body => annotations ++ body.toList
  | field _ _ _ init | localDecl _ _ init => init.toList
  | block _ stmts => stmts
  | exprStmt expr => [expr]
  | ifElse cond whenTrue whenFalse => cond :: whenTrue :: whenFalse.toList
  | whileLoop cond body => [cond, body]
  | forLoop init cond update body => init ++ cond.toList ++ update ++ [body]
  | returnValue value => value.toList
  | throwValue value => [value]
  | tryCatch body catches cleanup => body :: (catches ++ cleanup.toList)
  | catchClause _ _ body => [body]
  | assign _ value => [value]
  | binary _ lhs rhs => [lhs, rhs]
  | unary _ operand => [operand]
  | conditional cond whenTrue whenFalse => [cond, whenTrue, whenFalse]
  | lambda _ body => [body]
  | importDecl _ | breakLoop | continueLoop | literal _ | ident _ => []

/-- The node with other references to its parts. -/
def map (f : Ref → Other) : Kind Ref → Kind Other
  | root name members => .root name (members.map f)
  | importDecl path => .importDecl path
  | classDecl name members => .classDecl name (members.map f)
  | annot name args => .annot name (args.map f)
  | method name params annotations body => .method name params (annotations.map f) (body.map f)
  | field name ty isStatic init => .field name ty isStatic (init.map f)
  | block isStatic stmts => .block isStatic (stmts.map f)
  | localDecl name ty init => .localDecl name ty (init.map f)
  | exprStmt expr => .exprStmt (f expr)
  | ifElse cond whenTrue whenFalse => .ifElse (f cond) (f whenTrue) (whenFalse.map f)
  | whileLoop cond body => .whileLoop (f cond) (f body)
  | forLoop init cond update body =>
    .forLoop (init.map f) (cond.map f) (update.map f) (f body)
  | returnValue value => .returnValue (value.map f)
  | breakLoop => .breakLoop
  | continueLoop => .continueLoop
  | throwValue value => .throwValue (f value)
  | tryCatch body catches cleanup => .tryCatch (f body) (catches.map f) (cleanup.map f)
  | catchClause name ty body => .catchClause name ty (f body)
  | literal value => .literal value
  | ident name => .ident name
  | assign target value => .assign target (f value)
  | binary op lhs rhs => .binary op (f lhs) (f rhs)
  | unary op operand => .unary op (f operand)
  | conditional cond whenTrue whenFalse => .conditional (f cond) (f whenTrue) (f whenFalse)
  | call callee args => .call callee (args.map f)
  | new ty args => .new ty (args.map f)
  | lambda params body => .lambda params (f body)

/-- What a node is called. -/
def name : Kind Ref → String
  | root .. => "compilation unit"
  | importDecl .. => "import"
  | classDecl .. => "class"
  | annot .. => "annotation"
  | method .. => "method"
  | field .. => "field"
  | block .. => "block"
  | localDecl .. => "local variable"
  | exprStmt .. => "expression statement"
  | ifElse .. => "if"
  | whileLoop .. => "while"
  | forLoop .. => "for"
  | returnValue .. => "return"
  | breakLoop => "break"
  | continueLoop => "continue"
  | throwValue .. => "throw"
  | tryCatch .. => "try"
  | catchClause .. => "catch"
  | literal .. => "literal"
  | ident .. => "identifier"
  | assign .. => "assignment"
  | binary .. => "binary expression"
  | unary .. => "unary expression"
  | conditional .. => "conditional expression"
  | call .. => "call"
  | new .. => "instance creation"
  | lambda .. => "lambda"

/-- Whether a node is an expression. -/
def isExpression : Kind Ref → Bool
  | literal .. | ident .. | assign .. | binary .. | unary .. | conditional .. | call .. | new ..
  | lambda .. => true
  | _ => false

/-- Other references make for the same parts. -/
theorem parts_map (f : Ref → Other) (kind : Kind Ref) : (kind.map f).parts = kind.parts.map f := by
  cases kind <;> simp [map, parts, ← Option.toList_map]

/-- The same references make for the same node. -/
theorem map_id (kind : Kind Ref) : kind.map id = kind := by
  cases kind <;> simp [map]

end Kind

end FragmentFlow.Tree
