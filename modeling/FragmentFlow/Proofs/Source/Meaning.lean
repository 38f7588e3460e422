import FragmentFlow.Source.Decode
import FragmentFlow.Source.Encode
import FragmentFlow.Proofs.Json.Slots

/-!
# Written code keeps its meaning

Every expression, statement and member means itself once it is written as a value:
the decoders invert the encoders, form by form.  Forms are decoded by their tag, so
what is shown about a form is that its own fields give it back (`FormOf`).
-/

namespace FragmentFlow.Source

open Json (Decodes DecodesOption Exact FormOf list?)

section Leaves

variable {bound : Nat}

@[simp] theorem text?_str {text : String} (below : (Json.str text).size < bound) :
    text? ⟨.str text, below⟩ = some text :=
  rfl

@[simp] theorem truth?_bool {truth : Bool} (below : (Json.bool truth).size < bound) :
    truth? ⟨.bool truth, below⟩ = some truth :=
  rfl

@[simp] theorem texts?_eq (value : Json.Below bound) : texts? value = value.1.list? Json.str? :=
  congrFun Json.listOf?_eq value

end Leaves

theorem decodes_texts (texts : List String) :
    Decodes (list? Json.str?) (textsToJson texts) texts :=
  .list_map (fun text => ⟨.str text, rfl⟩) texts

theorem decodes_literal (value : Literal) : Decodes literal? value.toJson value := by
  cases value with
  | int word =>
      have within := And.intro word.minValue_le_toInt word.toInt_le
      have fits : Json.FitsWord word.toInt :=
        ⟨within.1, Int.lt_of_le_of_lt within.2 (by decide)⟩
      have meant : word? (.int word.toInt) = some word := by
        rw [word?, if_pos within, Int64.ofInt_toInt]
      refine ⟨.obj (by simp [Exact.int fits]), ?_⟩
      exact congrArg (Option.map Literal.int) meant
  | bool truth => exact ⟨.obj (by simp [Exact.bool]), rfl⟩
  | str text => exact ⟨.obj (by simp [Exact.str]), rfl⟩
  | null => exact ⟨.str "null", rfl⟩

theorem decodes_binaryOp (op : BinaryOp) : Decodes binaryOp? (.str op.tag) op :=
  ⟨.str op.tag, op.ofTag?_tag⟩

theorem decodes_unaryOp (op : UnaryOp) : Decodes unaryOp? (.str op.tag) op :=
  ⟨.str op.tag, op.ofTag?_tag⟩

theorem decodes_of_exprForm {json : Json} {expr : Expr}
    (written : FormOf "expr" exprForms exprOf? json expr) : Decodes expr? json expr where
  exact := written.exact_json
  decodes := by
    obtain ⟨form, contents, tagged, meant⟩ := written.tagged?
    rw [expr?, tagged]
    exact meant

theorem decodes_of_stmtForm {json : Json} {stmt : Stmt}
    (written : FormOf "stmt" stmtForms stmtOf? json stmt) : Decodes stmt? json stmt where
  exact := written.exact_json
  decodes := by
    obtain ⟨form, contents, tagged, meant⟩ := written.tagged?
    rw [stmt?, tagged]
    exact meant

-- The induction is on the syntax; lists and optional parts have cases of their own, since
-- they are encoded by functions of their own.
mutual

/-- An expression is written as a form that means it. -/
theorem form_expr (expr : Expr) : FormOf "expr" exprForms exprOf? expr.toJson expr := by
  match expr with
  | .literal value =>
      have part := decodes_literal value
      refine .intro (by decide) (by simp) (by simp [part.exact]) ?_
      simp [exprOf?, part.decodes]
  | .ident name =>
      refine .intro (by decide) (by simp) (by simp [Exact.str]) ?_
      simp [exprOf?]
  | .assign target value =>
      have part := decodes_of_exprForm (form_expr value)
      refine .intro (by decide) (by simp) (by simp [Exact.str, part.exact]) ?_
      simp [exprOf?, part.decodes]
  | .binary op lhs rhs =>
      have operator := decodes_binaryOp op
      have left := decodes_of_exprForm (form_expr lhs)
      have right := decodes_of_exprForm (form_expr rhs)
      refine .intro (by decide) (by simp) (by simp [operator.exact, left.exact, right.exact]) ?_
      simp [exprOf?, operator.decodes, left.decodes, right.decodes]
  | .unary op operand =>
      have operator := decodes_unaryOp op
      have part := decodes_of_exprForm (form_expr operand)
      refine .intro (by decide) (by simp) (by simp [operator.exact, part.exact]) ?_
      simp [exprOf?, operator.decodes, part.decodes]
  | .conditional cond whenTrue whenFalse =>
      have test := decodes_of_exprForm (form_expr cond)
      have first := decodes_of_exprForm (form_expr whenTrue)
      have second := decodes_of_exprForm (form_expr whenFalse)
      refine .intro (by decide) (by simp) (by simp [test.exact, first.exact, second.exact]) ?_
      simp [exprOf?, test.decodes, first.decodes, second.decodes]
  | .call callee args =>
      have parts := Decodes.list (decodes_exprs args)
      refine .intro (by decide) (by simp) (by simp [Exact.str, parts.exact]) ?_
      simp [exprOf?, parts.decodes]
  | .new ty args =>
      have parts := Decodes.list (decodes_exprs args)
      refine .intro (by decide) (by simp) (by simp [Exact.str, parts.exact]) ?_
      simp [exprOf?, parts.decodes]
  | .lambda params body =>
      have names := decodes_texts params
      have inner := decodes_lambdaBody body
      refine .intro (by decide) (by simp) (by simp [names.exact, inner.exact]) ?_
      simp [exprOf?, names.decodes, inner.decodes]

theorem decodes_lambdaBody (body : LambdaBody) : Decodes lambdaBody? body.toJson body := by
  match body with
  | .value result =>
      have part := decodes_of_exprForm (form_expr result)
      refine ⟨.obj (by simp [part.exact]), ?_⟩
      simp [LambdaBody.toJson, lambdaBody?, Json.choice?, part.decodes]
  | .block body =>
      have parts := Decodes.list (decodes_stmts body)
      refine ⟨.obj (by simp [parts.exact]), ?_⟩
      simp [LambdaBody.toJson, lambdaBody?, Json.choice?, parts.decodes]

/-- A statement is written as a form that means it. -/
theorem form_stmt (stmt : Stmt) : FormOf "stmt" stmtForms stmtOf? stmt.toJson stmt := by
  match stmt with
  | .localDecl name ty init =>
      have start := decodes_expr? init
      refine .intro (by decide) (by simp) (by simp [Exact.str, start.exact]) ?_
      simp [stmtOf?, start.optional]
  | .exprStmt expr =>
      have part := decodes_of_exprForm (form_expr expr)
      refine .intro (by decide) (by simp) (by simp [part.exact]) ?_
      simp [stmtOf?, part.decodes]
  | .ifElse cond whenTrue whenFalse =>
      have test := decodes_of_exprForm (form_expr cond)
      have first := Decodes.list (decodes_stmts whenTrue)
      have second := decodes_stmts? whenFalse
      refine .intro (by decide) (by simp) (by simp [test.exact, first.exact, second.exact]) ?_
      simp [stmtOf?, test.decodes, first.decodes, second.optional]
  | .whileLoop cond body =>
      have test := decodes_of_exprForm (form_expr cond)
      have inner := Decodes.list (decodes_stmts body)
      refine .intro (by decide) (by simp) (by simp [test.exact, inner.exact]) ?_
      simp [stmtOf?, test.decodes, inner.decodes]
  | .forLoop init cond update body =>
      have start := Decodes.list (decodes_stmts init)
      have test := decodes_expr? cond
      have step := Decodes.list (decodes_exprs update)
      have inner := Decodes.list (decodes_stmts body)
      refine .intro (by decide) (by simp)
        (by simp [start.exact, test.exact, step.exact, inner.exact]) ?_
      simp [stmtOf?, start.decodes, test.optional, step.decodes, inner.decodes]
  | .returnValue value =>
      have part := decodes_expr? value
      refine .intro (by decide) (by simp) (by simp [part.exact]) ?_
      simp [stmtOf?, part.optional]
  | .breakLoop =>
      refine .intro (by decide) (by simp) (by simp) ?_
      simp [stmtOf?]
  | .continueLoop =>
      refine .intro (by decide) (by simp) (by simp) ?_
      simp [stmtOf?]
  | .throwValue value =>
      have part := decodes_of_exprForm (form_expr value)
      refine .intro (by decide) (by simp) (by simp [part.exact]) ?_
      simp [stmtOf?, part.decodes]
  | .tryCatch body catches cleanup =>
      have inner := Decodes.list (decodes_stmts body)
      have clauses := Decodes.list (decodes_catches catches)
      have last := decodes_stmts? cleanup
      refine .intro (by decide) (by simp) (by simp [inner.exact, clauses.exact, last.exact]) ?_
      simp [stmtOf?, inner.decodes, clauses.decodes, last.optional]
  | .block body =>
      have inner := Decodes.list (decodes_stmts body)
      refine .intro (by decide) (by simp) (by simp [inner.exact]) ?_
      simp [stmtOf?, inner.decodes]

theorem decodes_catch (clause : Catch) : Decodes catch? clause.toJson clause := by
  match clause with
  | .mk name ty body =>
      have inner := Decodes.list (decodes_stmts body)
      refine ⟨.obj (by simp [Exact.str, inner.exact]), ?_⟩
      simp [Catch.toJson, catch?, Json.contents?, inner.decodes]

theorem decodes_exprs (exprs : List Expr) :
    List.Forall₂ (Decodes expr?) (exprsToJson exprs) exprs := by
  match exprs with
  | [] => exact .nil
  | expr :: exprs => exact .cons (decodes_of_exprForm (form_expr expr)) (decodes_exprs exprs)

theorem decodes_expr? (expr : Option Expr) : DecodesOption expr? (exprToJson? expr) expr := by
  match expr with
  | none => exact .absent
  | some expr => exact .present (form_expr expr).ne_null (decodes_of_exprForm (form_expr expr))

theorem decodes_stmts (stmts : List Stmt) :
    List.Forall₂ (Decodes stmt?) (stmtsToJson stmts) stmts := by
  match stmts with
  | [] => exact .nil
  | stmt :: stmts => exact .cons (decodes_of_stmtForm (form_stmt stmt)) (decodes_stmts stmts)

theorem decodes_stmts? (stmts : Option (List Stmt)) :
    DecodesOption (list? stmt?) (stmtsToJson? stmts) stmts := by
  match stmts with
  | none => exact .absent
  | some stmts => exact .present (by rintro ⟨⟩) (.list (decodes_stmts stmts))

theorem decodes_catches (clauses : List Catch) :
    List.Forall₂ (Decodes catch?) (catchesToJson clauses) clauses := by
  match clauses with
  | [] => exact .nil
  | clause :: clauses => exact .cons (decodes_catch clause) (decodes_catches clauses)

end

theorem decodes_param (param : Param) : Decodes param? param.toJson param := by
  refine ⟨.obj (by simp [Exact.str]), ?_⟩
  simp [Param.toJson, param?, Json.contents?]

theorem decodes_annot (annot : Annot) : Decodes annot? annot.toJson annot := by
  have parts := Decodes.list (decodes_exprs annot.args)
  refine ⟨.obj (by simp [Exact.str, parts.exact]), ?_⟩
  simp [Annot.toJson, annot?, Json.contents?, parts.decodes]

/-- A member is written as a form that means it. -/
theorem form_member (member : Member) :
    FormOf "member" memberForms memberOf? member.toJson member := by
  cases member with
  | method name params annotations body =>
      have first := Decodes.list_map decodes_param params
      have second := Decodes.list_map decodes_annot annotations
      have inner := decodes_stmts? body
      refine .intro (by decide) (by simp)
        (by simp [Exact.str, first.exact, second.exact, inner.exact]) ?_
      simp [memberOf?, first.decodes, second.decodes, inner.optional]
  | field name ty isStatic init =>
      have start := decodes_expr? init
      refine .intro (by decide) (by simp) (by simp [Exact.str, Exact.bool, start.exact]) ?_
      simp [memberOf?, start.optional]
  | initializer isStatic body =>
      have inner := Decodes.list (decodes_stmts body)
      refine .intro (by decide) (by simp) (by simp [Exact.bool, inner.exact]) ?_
      simp [memberOf?, inner.decodes]

end FragmentFlow.Source
