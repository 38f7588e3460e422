import FragmentFlow.Json.Writer
import FragmentFlow.Source.CompilationUnit

/-!
# Units as JSON

Every field is written, absent ones as `null`, and the tag of a form comes first.
-/

namespace FragmentFlow

/-- A literal. -/
def Literal.toJson : Literal → Json
  | int value => .obj [("int", .int value.toInt)]
  | bool value => .obj [("bool", .bool value)]
  | str value => .obj [("str", .str value)]
  | null => .str "null"

namespace Source

/-- A list of names. -/
def textsToJson (texts : List String) : Json :=
  .arr (texts.map .str)

mutual

/-- An expression. -/
def Expr.toJson : Expr → Json
  | .literal value => .obj [("expr", .str "literal"), ("value", value.toJson)]
  | .ident name => .obj [("expr", .str "ident"), ("name", .str name)]
  | .assign target value =>
    .obj [("expr", .str "assign"), ("target", .str target), ("value", value.toJson)]
  | .binary op lhs rhs =>
    .obj [("expr", .str "binary"), ("op", .str op.tag), ("lhs", lhs.toJson), ("rhs", rhs.toJson)]
  | .unary op operand =>
    .obj [("expr", .str "unary"), ("op", .str op.tag), ("operand", operand.toJson)]
  | .conditional cond whenTrue whenFalse =>
    .obj [("expr", .str "conditional"), ("cond", cond.toJson), ("then", whenTrue.toJson),
      ("otherwise", whenFalse.toJson)]
  | .call callee args =>
    .obj [("expr", .str "call"), ("callee", .str callee), ("args", .arr (exprsToJson args))]
  | .new ty args =>
    .obj [("expr", .str "new"), ("ty", .str ty), ("args", .arr (exprsToJson args))]
  | .lambda params body =>
    .obj [("expr", .str "lambda"), ("params", textsToJson params), ("body", body.toJson)]

/-- The body of a lambda. -/
def LambdaBody.toJson : LambdaBody → Json
  | .value result => .obj [("value", result.toJson)]
  | .block body => .obj [("block", .arr (stmtsToJson body))]

/-- A statement. -/
def Stmt.toJson : Stmt → Json
  | .localDecl name ty init =>
    .obj [("stmt", .str "local"), ("name", .str name), ("ty", .str ty), ("init", exprToJson? init)]
  | .exprStmt expr => .obj [("stmt", .str "expr"), ("expr", expr.toJson)]
  | .ifElse cond whenTrue whenFalse =>
    .obj [("stmt", .str "if"), ("cond", cond.toJson), ("then", .arr (stmtsToJson whenTrue)),
      ("otherwise", stmtsToJson? whenFalse)]
  | .whileLoop cond body =>
    .obj [("stmt", .str "while"), ("cond", cond.toJson), ("body", .arr (stmtsToJson body))]
  | .forLoop init cond update body =>
    .obj [("stmt", .str "for"), ("init", .arr (stmtsToJson init)), ("cond", exprToJson? cond),
      ("update", .arr (exprsToJson update)), ("body", .arr (stmtsToJson body))]
  | .returnValue value => .obj [("stmt", .str "return"), ("value", exprToJson? value)]
  | .breakLoop => .obj [("stmt", .str "break")]
  | .continueLoop => .obj [("stmt", .str "continue")]
  | .throwValue value => .obj [("stmt", .str "throw"), ("value", value.toJson)]
  | .tryCatch body catches cleanup =>
    .obj [("stmt", .str "try"), ("body", .arr (stmtsToJson body)),
      ("catches", .arr (catchesToJson catches)), ("finally", stmtsToJson? cleanup)]
  | .block body => .obj [("stmt", .str "block"), ("body", .arr (stmtsToJson body))]

/-- A catch clause. -/
def Catch.toJson : Catch → Json
  | .mk name ty body =>
    .obj [("name", .str name), ("ty", .str ty), ("body", .arr (stmtsToJson body))]

/-- A list of expressions. -/
def exprsToJson : List Expr → List Json
  | [] => []
  | expr :: exprs => expr.toJson :: exprsToJson exprs

/-- An expression that may be absent. -/
def exprToJson? : Option Expr → Json
  | none => .null
  | some expr => expr.toJson

/-- A list of statements. -/
def stmtsToJson : List Stmt → List Json
  | [] => []
  | stmt :: stmts => stmt.toJson :: stmtsToJson stmts

/-- A list of statements that may be absent. -/
def stmtsToJson? : Option (List Stmt) → Json
  | none => .null
  | some stmts => .arr (stmtsToJson stmts)

/-- A list of catch clauses. -/
def catchesToJson : List Catch → List Json
  | [] => []
  | clause :: clauses => clause.toJson :: catchesToJson clauses

end

/-- A method parameter. -/
def Param.toJson (param : Param) : Json :=
  .obj [("name", .str param.name), ("ty", .str param.ty)]

/-- An annotation. -/
def Annot.toJson (annot : Annot) : Json :=
  .obj [("name", .str annot.name), ("args", .arr (exprsToJson annot.args))]

/-- A member. -/
def Member.toJson : Member → Json
  | .method name params annotations body =>
    .obj [("member", .str "method"), ("name", .str name), ("params", .arr (params.map (·.toJson))),
      ("annotations", .arr (annotations.map (·.toJson))), ("body", stmtsToJson? body)]
  | .field name ty isStatic init =>
    .obj [("member", .str "field"), ("name", .str name), ("ty", .str ty),
      ("is_static", .bool isStatic), ("init", exprToJson? init)]
  | .initializer isStatic body =>
    .obj [("member", .str "initializer"), ("is_static", .bool isStatic),
      ("body", .arr (stmtsToJson body))]

/-- A class. -/
def Class.toJson (decl : Class) : Json :=
  .obj [("name", .str decl.name), ("annotations", .arr (decl.annotations.map (·.toJson))),
    ("members", .arr (decl.members.map (·.toJson)))]

/-- A unit. -/
def CompilationUnit.toJson (unit : CompilationUnit) : Json :=
  .obj [("name", .str unit.name), ("imports", textsToJson unit.imports),
    ("classes", .arr (unit.classes.map (·.toJson)))]

/-- The text of a unit. -/
def CompilationUnit.write (unit : CompilationUnit) : String :=
  unit.toJson.compact

end Source

end FragmentFlow
