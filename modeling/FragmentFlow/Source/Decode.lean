import FragmentFlow.Json.Record
import FragmentFlow.Source.CompilationUnit

/-!
# Units from JSON values

What members, statements and expressions look like as values.  A value of
another shape has no reading.
-/

namespace FragmentFlow.Source

open Json (Below Contents listOf?)

/-- The text of a string. -/
def text? {bound : Nat} (value : Below bound) : Option String :=
  value.1.str?

/-- A list of strings. -/
def texts? {bound : Nat} (value : Below bound) : Option (List String) := do
  (← value.items?).mapM text?

/-- A truth value. -/
def truth? {bound : Nat} (value : Below bound) : Option Bool :=
  value.1.bool?

/-- A signed 64-bit word. -/
def word? (value : Json) : Option Int64 :=
  match value with
  | .int n =>
    if Int64.minValue.toInt ≤ n ∧ n ≤ Int64.maxValue.toInt then some (Int64.ofInt n) else none
  | _ => none

/-- A literal: a choice between an integer, a truth value, a string and `null`. -/
def literal? (value : Json) : Option Literal := do
  match ← value.choice? with
  | ("int", some content) => (word? content.1).map .int
  | ("bool", some content) => (truth? content).map .bool
  | ("str", some content) => (text? content).map .str
  | ("null", content) => if Json.isBare content then some .null else none
  | _ => none

/-- A binary operator. -/
def binaryOp? (value : Json) : Option BinaryOp := do
  let (tag, content) ← value.choice?
  if Json.isBare content then BinaryOp.ofTag? tag else none

/-- A unary operator. -/
def unaryOp? (value : Json) : Option UnaryOp := do
  let (tag, content) ← value.choice?
  if Json.isBare content then UnaryOp.ofTag? tag else none

/-- A method parameter. -/
def param? (value : Json) : Option Param := do
  let ⟨contents, _⟩ ← value.contents?
  match ← contents.slots? ["name", "ty"] with
  | [name, ty] => some { name := ← text? (← name), ty := ← text? (← ty) }
  | _ => none

/-- The tags of the forms of expressions. -/
def exprForms : List String :=
  ["literal", "ident", "assign", "binary", "unary", "conditional", "call", "new", "lambda"]

/-- The tags of the forms of statements. -/
def stmtForms : List String :=
  ["local", "expr", "if", "while", "for", "return", "break", "continue", "throw", "try", "block"]

/-- The tags of the forms of members. -/
def memberForms : List String :=
  ["method", "field", "initializer"]

mutual

/-- An expression. -/
def expr? (value : Json) : Option Expr :=
  match value.tagged? "expr" exprForms with
  | some (form, ⟨contents, _⟩) => exprOf? form contents
  | none => none
termination_by 2 * value.size + 1
decreasing_by omega

/-- An expression with a known form. -/
def exprOf? (form : String) (contents : Contents) : Option Expr := do
  match form with
  | "literal" =>
    match ← contents.slots? ["value"] with
    | [value] => some (.literal (← literal? (← value).1))
    | _ => none
  | "ident" =>
    match ← contents.slots? ["name"] with
    | [name] => some (.ident (← text? (← name)))
    | _ => none
  | "assign" =>
    match ← contents.slots? ["target", "value"] with
    | [target, value] => some (.assign (← text? (← target)) (← value.bind fun v => expr? v.1))
    | _ => none
  | "binary" =>
    match ← contents.slots? ["op", "lhs", "rhs"] with
    | [op, lhs, rhs] =>
      some (.binary (← binaryOp? (← op).1) (← lhs.bind fun v => expr? v.1)
        (← rhs.bind fun v => expr? v.1))
    | _ => none
  | "unary" =>
    match ← contents.slots? ["op", "operand"] with
    | [op, operand] =>
      some (.unary (← unaryOp? (← op).1) (← operand.bind fun v => expr? v.1))
    | _ => none
  | "conditional" =>
    match ← contents.slots? ["cond", "then", "otherwise"] with
    | [cond, whenTrue, whenFalse] =>
      some (.conditional (← cond.bind fun v => expr? v.1) (← whenTrue.bind fun v => expr? v.1)
        (← whenFalse.bind fun v => expr? v.1))
    | _ => none
  | "call" =>
    match ← contents.slots? ["callee", "args"] with
    | [callee, args] =>
      some (.call (← text? (← callee))
        (← contents.withDefault [] (listOf? fun v => expr? v.1) args))
    | _ => none
  | "new" =>
    match ← contents.slots? ["ty", "args"] with
    | [ty, args] =>
      some (.new (← text? (← ty)) (← contents.withDefault [] (listOf? fun v => expr? v.1) args))
    | _ => none
  | "lambda" =>
    match ← contents.slots? ["params", "body"] with
    | [params, body] =>
      some (.lambda (← contents.withDefault [] texts? params)
        (← body.bind fun v => lambdaBody? v.1))
    | _ => none
  | _ => none
termination_by 2 * contents.bound
decreasing_by all_goals have := v.2; omega

/-- The body of a lambda: a choice between a value and a block. -/
def lambdaBody? (value : Json) : Option LambdaBody :=
  match value.choice? with
  | some ("value", some content) => (expr? content.1).map .value
  | some ("block", some content) => (listOf? (fun v => stmt? v.1) content).map .block
  | _ => none
termination_by 2 * value.size + 1
decreasing_by
  · have := content.2; omega
  · have := v.2; omega

/-- A statement. -/
def stmt? (value : Json) : Option Stmt :=
  match value.tagged? "stmt" stmtForms with
  | some (form, ⟨contents, _⟩) => stmtOf? form contents
  | none => none
termination_by 2 * value.size + 1
decreasing_by omega

/-- A statement with a known form. -/
def stmtOf? (form : String) (contents : Contents) : Option Stmt := do
  match form with
  | "local" =>
    match ← contents.slots? ["name", "ty", "init"] with
    | [name, ty, init] =>
      some (.localDecl (← text? (← name)) (← text? (← ty))
        (← contents.optional (fun v => expr? v.1) init))
    | _ => none
  | "expr" =>
    match ← contents.slots? ["expr"] with
    | [expr] => some (.exprStmt (← expr.bind fun v => expr? v.1))
    | _ => none
  | "if" =>
    match ← contents.slots? ["cond", "then", "otherwise"] with
    | [cond, whenTrue, whenFalse] =>
      some (.ifElse (← cond.bind fun v => expr? v.1)
        (← whenTrue.bind (listOf? fun v => stmt? v.1))
        (← contents.optional (listOf? fun v => stmt? v.1) whenFalse))
    | _ => none
  | "while" =>
    match ← contents.slots? ["cond", "body"] with
    | [cond, body] =>
      some (.whileLoop (← cond.bind fun v => expr? v.1) (← body.bind (listOf? fun v => stmt? v.1)))
    | _ => none
  | "for" =>
    match ← contents.slots? ["init", "cond", "update", "body"] with
    | [init, cond, update, body] =>
      some (.forLoop (← contents.withDefault [] (listOf? fun v => stmt? v.1) init)
        (← contents.optional (fun v => expr? v.1) cond)
        (← contents.withDefault [] (listOf? fun v => expr? v.1) update)
        (← body.bind (listOf? fun v => stmt? v.1)))
    | _ => none
  | "return" =>
    match ← contents.slots? ["value"] with
    | [value] => some (.returnValue (← contents.optional (fun v => expr? v.1) value))
    | _ => none
  | "break" => (contents.slots? []).map fun _ => .breakLoop
  | "continue" => (contents.slots? []).map fun _ => .continueLoop
  | "throw" =>
    match ← contents.slots? ["value"] with
    | [value] => some (.throwValue (← value.bind fun v => expr? v.1))
    | _ => none
  | "try" =>
    match ← contents.slots? ["body", "catches", "finally"] with
    | [body, catches, cleanup] =>
      some (.tryCatch (← body.bind (listOf? fun v => stmt? v.1))
        (← contents.withDefault [] (listOf? fun v => catch? v.1) catches)
        (← contents.optional (listOf? fun v => stmt? v.1) cleanup))
    | _ => none
  | "block" =>
    match ← contents.slots? ["body"] with
    | [body] => some (.block (← body.bind (listOf? fun v => stmt? v.1)))
    | _ => none
  | _ => none
termination_by 2 * contents.bound
decreasing_by all_goals have := v.2; omega

/-- A catch clause. -/
def catch? (value : Json) : Option Catch := do
  match value.contents? with
  | some ⟨contents, _⟩ =>
    match ← contents.slots? ["name", "ty", "body"] with
    | [name, ty, body] =>
      some (.mk (← text? (← name)) (← text? (← ty)) (← body.bind (listOf? fun v => stmt? v.1)))
    | _ => none
  | none => none
termination_by 2 * value.size + 1
decreasing_by have := v.2; omega

end

/-- An expression on its own, whose form is named by its word. -/
def Expr.ofJson? (value : Json) : Option Expr :=
  if value.hasTagWord "expr" then expr? value else none

/-- A statement on its own, whose form is named by its word. -/
def Stmt.ofJson? (value : Json) : Option Stmt :=
  if value.hasTagWord "stmt" then stmt? value else none

/-- An annotation inside a member. -/
def annot? (value : Json) : Option Annot := do
  let ⟨contents, _⟩ ← value.contents?
  match ← contents.slots? ["name", "args"] with
  | [name, args] =>
    some { name := ← text? (← name)
           args := ← contents.withDefault [] (listOf? fun v => expr? v.1) args }
  | _ => none

/-- A member with a known form. -/
def memberOf? (form : String) (contents : Contents) : Option Member := do
  match form with
  | "method" =>
    match ← contents.slots? ["name", "params", "annotations", "body"] with
    | [name, params, annotations, body] =>
      some (.method (← text? (← name))
        (← contents.withDefault [] (listOf? fun v => param? v.1) params)
        (← contents.withDefault [] (listOf? fun v => annot? v.1) annotations)
        (← contents.optional (listOf? fun v => stmt? v.1) body))
    | _ => none
  | "field" =>
    match ← contents.slots? ["name", "ty", "is_static", "init"] with
    | [name, ty, isStatic, init] =>
      some (.field (← text? (← name)) (← text? (← ty))
        (← contents.withDefault false truth? isStatic)
        (← contents.optional (fun v => expr? v.1) init))
    | _ => none
  | "initializer" =>
    match ← contents.slots? ["is_static", "body"] with
    | [isStatic, body] =>
      some (.initializer (← contents.withDefault false truth? isStatic)
        (← body.bind (listOf? fun v => stmt? v.1)))
    | _ => none
  | _ => none

end FragmentFlow.Source
