import FragmentFlow.Proofs.Drawing.Fragments
import FragmentFlow.Proofs.Drawing.Places
import FragmentFlow.Proofs.Drawing.Recursion
import FragmentFlow.Proofs.Drawing.Stored

/-!
# Drawing descends

Drawing ends although `finally` blocks are drawn for every jump that passes them and may jump
themselves, because the subtrees at hand have fewer nodes with every statement or expression that
is entered.  To see that no entry is left out, drawing is written once more with its calls as
parameters.  It calls only for what may be entered, and so it draws the same when every call
checks the subtrees at hand.
-/

namespace FragmentFlow.Graph

namespace Builder

/-! ### Drawing with its calls as parameters -/

section Calls

variable (drawExpr : Builder → Tree.Expr → Option (Nat × Builder))
  (drawStmt : Scope → Bool → Builder → Tree.Stmt → Option Builder)

/-- Draws expressions in their order. -/
def exprsVia (b : Builder) : List Tree.Expr → Option (List Nat × Builder)
  | [] => some ([], b)
  | value :: values => do
    let drawn ← drawExpr b value
    let rest ← exprsVia drawn.2 values
    return (drawn.1 :: rest.1, rest.2)

/-- Draws an optional expression. -/
def optionalVia (b : Builder) : Option Tree.Expr → Option (List Nat × Builder)
  | none => some ([], b)
  | some value => do
    let drawn ← drawExpr b value
    return ([drawn.1], drawn.2)

/-- Draws an expression. -/
def exprVia (scope : Scope) (copying : Bool) (b : Builder) : Tree.Expr → Option (Nat × Builder)
  | .literal id value => some (b.push (.at id copying (.literal value) []))
  | .ident id name => some (b.push (.at id copying (.ident name) []))
  | .assign id target value => do
    let drawn ← drawExpr b value
    return drawn.2.push (.at id copying (.assign target) [drawn.1])
  | .binary id op lhs rhs => do
    let left ← drawExpr b lhs
    if op.isShortCircuit then
      let evaluated := left.2.tipsAs (if op = .and then .onTrue else .onFalse)
      let skipped := left.2.tipsAs (if op = .and then .onFalse else .onTrue)
      let right ← drawExpr { left.2 with tips := evaluated } rhs
      return { right.2 with tips := right.2.tips ++ skipped }.push
        (.at id copying (.binary op) [left.1, right.1])
    else
      let right ← drawExpr left.2 rhs
      let drawn := right.2.push (.at id copying (.binary op) [left.1, right.1])
      return (drawn.1, if op.canThrow then drawn.2.raise scope drawn.1 else drawn.2)
  | .unary id op operand => do
    let drawn ← drawExpr b operand
    return drawn.2.push (.at id copying (.unary op) [drawn.1])
  | .conditional id cond whenTrue whenFalse => do
    let test ← drawExpr b cond
    let first ← drawExpr { test.2 with tips := test.2.tipsAs .onTrue } whenTrue
    let second ← drawExpr { first.2 with tips := test.2.tipsAs .onFalse } whenFalse
    return { second.2 with tips := first.2.tips ++ second.2.tips }.push
      (.at id copying .conditional [test.1, first.1, second.1])
  | .call id callee args => do
    let operands ← exprsVia drawExpr b args
    let drawn := operands.2.push (.at id copying (.call callee) operands.1)
    return (drawn.1, drawn.2.raise scope drawn.1)
  | .new id ty args => do
    let operands ← exprsVia drawExpr (b.mention ty) args
    let drawn := operands.2.push (.at id copying (.new ty) operands.1)
    return (drawn.1, drawn.2.raise scope drawn.1)
  | .lambda id _ _ => some (b.push (.at id copying .lambda []))

/-- Draws the body of a loop and closes it. -/
def loopVia (scope : Scope) (copying : Bool) (b : Builder) (tips exits : List Tip) (head : Nat)
    (update : List Tree.Expr) (body : Tree.Block) : Option Builder := do
  let drawn ← drawStmt (.loop :: scope) copying { b with tips, parked := [] } (.block body)
  let updated ← exprsVia drawExpr (drawn.atUpdates scope b.parked) update
  return { updated.2.connect updated.2.tips head with
    tips := exits ++ drawn.parkedUnder (.breaks scope.length) }

/-- Draws the bodies of catch clauses. -/
def clausesVia (scope : Scope) (copying : Bool) (b : Builder) :
    List Nat → List Tree.Catch → Option Builder
  | entry :: entries, clause :: rest => do
    let drawn ← drawStmt scope copying { b with tips := [{ source := entry, kind := .normal }] }
      (.block clause.body)
    clausesVia scope copying { drawn with tips := b.tips ++ drawn.tips } entries rest
  | _, _ => some b

/-- Draws the copy of a `finally` block that exceptions share, if there are any. -/
def cleaningVia (scope : Scope) (b : Builder) (raised : List Tip) (block : Tree.Block) :
    Option Builder :=
  if raised.isEmpty then some b
  else do
    let drawn ← drawStmt scope true { b with tips := raised } (.block block)
    let ended := drawn.push (.implicit .rethrow [])
    return ended.2.raise scope ended.1

/-- Draws a `try`. -/
def tryVia (scope : Scope) (copying : Bool) (b : Builder) (body : Tree.Block)
    (catches : List Tree.Catch) (cleanup : Option Tree.Block) : Option Builder := do
  let entered := enterCatches copying b catches
  let within ← drawStmt (.region entered.1 cleanup :: scope) copying
    { entered.2 with parked := [] } (.block body)
  let drawn ← clausesVia drawStmt (.region [] cleanup :: scope) copying within
    (entered.1.map Handler.entry) catches
  let left := drawn.leaveFrame entered.2.parked [.cleanup scope.length]
  match cleanup with
  | none => return left
  | some block =>
    let cleaned ← cleaningVia drawStmt scope left (drawn.parkedUnder (.cleanup scope.length)) block
    drawStmt scope copying { cleaned with tips := drawn.tips } (.block block)

/-- Draws copies of the `finally` blocks on the way out of frames. -/
def unwindVia (keep : Nat) : Scope → Builder → Option Builder
  | [], b => some b
  | frame :: outer, b =>
    if outer.length < keep then some b
    else
      match frame.cleanup? with
      | none => unwindVia keep outer b
      | some block => do
        let drawn ← drawStmt outer true b (.block block)
        unwindVia keep outer drawn

/-- Leaves an enclosing loop. -/
def jumpVia (scope : Scope) (b : Builder) (exit : Nat → Exit) (kind : EdgeKind) :
    Option Builder :=
  match scope.innermostLoop? with
  | none => some { b with tips := [] }
  | some frame => do
    let left ← unwindVia drawStmt (frame + 1) scope b
    return left.jump (exit frame) kind

/-- Draws a statement. -/
def stmtVia (scope : Scope) (copying : Bool) (b : Builder) : Tree.Stmt → Option Builder
  | .block inner => inner.stmts.foldlM (drawStmt scope copying) b
  | .localDecl id name ty init => do
    let drawn ← optionalVia drawExpr (b.mention ty) init
    return (drawn.2.push (.at id copying (.decl name) drawn.1)).2
  | .exprStmt _ value => do
    let drawn ← drawExpr b value
    return drawn.2
  | .ifElse _ cond whenTrue whenFalse => do
    let tested ← drawExpr b cond
    let first ← drawStmt scope copying { tested.2 with tips := tested.2.tipsAs .onTrue }
      (.block whenTrue)
    let second ← match whenFalse with
      | none => some { first with tips := tested.2.tipsAs .onFalse }
      | some block =>
        drawStmt scope copying { first with tips := tested.2.tipsAs .onFalse } (.block block)
    return { second with tips := first.tips ++ second.tips }
  | .whileLoop id cond body => do
    let headed := b.push (.at id copying .loopHead [])
    let tested ← drawExpr headed.2 cond
    loopVia drawExpr drawStmt scope copying tested.2 (tested.2.tipsAs .onTrue)
      (tested.2.tipsAs .onFalse) headed.1 [] body
  | .forLoop id init cond update body => do
    let started ← init.foldlM (drawStmt scope copying) b
    let headed := started.push (.at id copying .loopHead [])
    let tested ← optionalVia drawExpr headed.2 cond
    loopVia drawExpr drawStmt scope copying tested.2
      (if cond.isSome then tested.2.tipsAs .onTrue else tested.2.tips)
      (if cond.isSome then tested.2.tipsAs .onFalse else []) headed.1 update body
  | .returnValue id value => do
    let drawn ← optionalVia drawExpr b value
    let left ← unwindVia drawStmt 0 scope (drawn.2.push (.at id copying .returnValue drawn.1)).2
    return left.jump .returns .returnValue
  | .breakLoop _ => jumpVia drawStmt scope b .breaks .breakLoop
  | .continueLoop _ => jumpVia drawStmt scope b .continues .continueLoop
  | .throwValue id value => do
    let drawn ← drawExpr b value
    let thrown := drawn.2.push (.at id copying .throwValue [drawn.1])
    return { thrown.2 with tips := [] }.raise scope thrown.1
  | .tryCatch _ body catches cleanup => tryVia drawStmt scope copying b body catches cleanup

end Calls

/-! ### The calls stay within what is entered -/

/-- Calls draw the expressions that are entered from a place. -/
def ServesExprs (here : Place) (copying : Bool)
    (drawExpr : Builder → Tree.Expr → Option (Nat × Builder)) : Prop :=
  ∀ b inner, here.Enters ⟨here.scope, .expr inner⟩ →
    drawExpr b inner = some (expr here.scope copying b inner)

/-- Calls draw the statements that are entered from a place, in whatever frames. -/
def ServesStmts (here : Place)
    (drawStmt : Scope → Bool → Builder → Tree.Stmt → Option Builder) : Prop :=
  ∀ around copying b inner, here.Enters ⟨around, .stmt inner⟩ →
    drawStmt around copying b inner = some (stmt around copying b inner)

section Agreement

variable {drawExpr : Builder → Tree.Expr → Option (Nat × Builder)}
  {drawStmt : Scope → Bool → Builder → Tree.Stmt → Option Builder} {scope : Scope}
  {copying : Bool}

theorem exprsVia_eq {list : List Tree.Expr}
    (draws : ∀ b, ∀ value ∈ list, drawExpr b value = some (expr scope copying b value))
    (b : Builder) : exprsVia drawExpr b list = some (exprs scope copying b list) := by
  induction list generalizing b with
  | nil => rfl
  | cons value values ih =>
      have rest := ih fun b other member => draws b other (List.mem_cons_of_mem _ member)
      simp only [exprsVia, exprs, draws b value List.mem_cons_self, rest, Option.bind_eq_bind,
        Option.bind_some, Option.pure_def]

theorem optionalVia_eq {value : Option Tree.Expr}
    (draws : ∀ b, ∀ inner ∈ value, drawExpr b inner = some (expr scope copying b inner))
    (b : Builder) : optionalVia drawExpr b value = some (expr? scope copying b value) := by
  cases value with
  | none => rfl
  | some inner =>
      simp only [optionalVia, expr?, draws b inner rfl, Option.bind_eq_bind, Option.bind_some,
        Option.pure_def]

theorem foldlM_eq {list : List Tree.Stmt}
    (draws : ∀ b, ∀ inner ∈ list, drawStmt scope copying b inner =
      some (stmt scope copying b inner)) (b : Builder) :
    list.foldlM (drawStmt scope copying) b = some (stmts scope copying b list) := by
  induction list generalizing b with
  | nil => rw [stmts_nil, List.foldlM_nil, Option.pure_def]
  | cons first rest ih =>
      rw [List.foldlM_cons, draws b first List.mem_cons_self, stmts_cons, Option.bind_eq_bind,
        Option.bind_some]
      exact ih (fun b other member => draws b other (List.mem_cons_of_mem _ member)) _

/-- An expression calls only for its operands. -/
theorem exprVia_eq {value : Tree.Expr}
    (serves : ServesExprs ⟨scope, .expr value⟩ copying drawExpr) (b : Builder) :
    exprVia drawExpr scope copying b value = some (expr scope copying b value) := by
  cases value with
  | literal id value => rfl
  | ident id name => rfl
  | assign id target value =>
      have operand := fun b => serves b value (.part rfl List.mem_cons_self)
      simp only [exprVia, expr, operand, Option.bind_eq_bind, Option.bind_some, Option.pure_def]
  | binary id op lhs rhs =>
      have left := fun b => serves b lhs (.part rfl List.mem_cons_self)
      have right := fun b =>
        serves b rhs (.part rfl (List.mem_cons_of_mem _ List.mem_cons_self))
      simp only [exprVia, expr, left, right, Option.bind_eq_bind, Option.bind_some, Option.pure_def]
      split <;> rfl
  | unary id op operand =>
      have value := fun b => serves b operand (.part rfl List.mem_cons_self)
      simp only [exprVia, expr, value, Option.bind_eq_bind, Option.bind_some, Option.pure_def]
  | conditional id cond whenTrue whenFalse =>
      have test := fun b => serves b cond (.part rfl List.mem_cons_self)
      have first := fun b =>
        serves b whenTrue (.part rfl (List.mem_cons_of_mem _ List.mem_cons_self))
      have second := fun b => serves b whenFalse
        (.part rfl (List.mem_cons_of_mem _ (List.mem_cons_of_mem _ List.mem_cons_self)))
      simp only [exprVia, expr, test, first, second, Option.bind_eq_bind, Option.bind_some,
        Option.pure_def]
  | call id callee args =>
      have operands := exprsVia_eq fun b inner member =>
        serves b inner (.part rfl (List.mem_map_of_mem member))
      simp only [exprVia, expr, operands, Option.bind_eq_bind, Option.bind_some, Option.pure_def]
  | new id ty args =>
      have operands := exprsVia_eq fun b inner member =>
        serves b inner (.part rfl (List.mem_map_of_mem member))
      simp only [exprVia, expr, operands, Option.bind_eq_bind, Option.bind_some, Option.pure_def]
  | lambda id params body => rfl

theorem loopVia_eq {update : List Tree.Expr} {body : Tree.Block}
    (drawsUpdate : ∀ b, ∀ value ∈ update, drawExpr b value = some (expr scope copying b value))
    (drawsBody : ∀ b, drawStmt (.loop :: scope) copying b (.block body) =
      some (stmt (.loop :: scope) copying b (.block body)))
    (b : Builder) (tips exits : List Tip) (head : Nat) :
    loopVia drawExpr drawStmt scope copying b tips exits head update body =
      some (looping scope copying b tips exits head update body) := by
  simp only [loopVia, drawsBody, exprsVia_eq drawsUpdate, Option.bind_eq_bind, Option.bind_some,
    Option.pure_def, stmt_block]
  rfl

theorem clausesVia_eq {list : List Tree.Catch}
    (draws : ∀ b, ∀ clause ∈ list, drawStmt scope copying b (.block clause.body) =
      some (stmt scope copying b (.block clause.body))) (b : Builder) (entries : List Nat) :
    clausesVia drawStmt scope copying b entries list =
      some (clauses scope copying b entries list) := by
  induction list generalizing b entries with
  | nil =>
      rw [clauses_nil]
      cases entries <;> rfl
  | cons clause rest ih =>
      cases entries with
      | nil =>
          rw [clauses_noEntry]
          rfl
      | cons entry entries =>
          have others := ih fun b other member => draws b other (List.mem_cons_of_mem _ member)
          simp only [clausesVia, draws _ clause List.mem_cons_self, others, clauses_cons,
            stmt_block, Option.bind_eq_bind, Option.bind_some]

theorem unwindVia_eq (draws : ∀ inner frame outer block, scope = inner ++ frame :: outer →
      frame.cleanup? = some block → ∀ b,
        drawStmt outer true b (.block block) = some (stmt outer true b (.block block)))
    (keep : Nat) (b : Builder) : unwindVia drawStmt keep scope b = some (unwind scope keep b) := by
  induction scope generalizing b with
  | nil => rw [unwind_nil, unwindVia]
  | cons frame outer ih =>
      have further := ih fun inner other rest block split =>
        draws (frame :: inner) other rest block (congrArg (frame :: ·) split)
      rw [unwindVia]
      split
      · rename_i kept
        rw [unwind_kept _ _ _ kept]
      · rename_i left
        cases present : frame.cleanup? with
        | none =>
            rw [unwind_left _ _ _ (Nat.not_lt.1 left) present]
            exact further b
        | some block =>
            rw [unwind_cleanup _ _ _ (Nat.not_lt.1 left) present]
            simp only [draws [] frame outer block rfl present, further, stmt_block,
              Option.bind_eq_bind, Option.bind_some]

theorem cleaningVia_eq {block : Tree.Block}
    (draws : ∀ b, drawStmt scope true b (.block block) = some (stmt scope true b (.block block)))
    (b : Builder) (raised : List Tip) :
    cleaningVia drawStmt scope b raised block = some (cleaningUp scope b raised block) := by
  unfold cleaningVia cleaningUp
  split
  · rfl
  · simp only [draws, stmt_block, Option.bind_eq_bind, Option.bind_some, Option.pure_def]

/-- A jump unwinds alike by whatever serves its place. -/
theorem unwindVia_of_jump {statement : Tree.Stmt} (jumps : statement.isJump = true)
    (serves : ServesStmts ⟨scope, .stmt statement⟩ drawStmt)
    (keep : Nat) (b : Builder) : unwindVia drawStmt keep scope b = some (unwind scope keep b) := by
  apply unwindVia_eq
  rintro inner frame outer block rfl present b
  exact serves outer true b (.block block) (.passes jumps present)

theorem tryVia_eq {id : Nat} {body : Tree.Block} {catches : List Tree.Catch}
    {cleanup : Option Tree.Block}
    (serves : ServesStmts ⟨scope, .stmt (.tryCatch id body catches cleanup)⟩ drawStmt)
    (b : Builder) :
    tryVia drawStmt scope copying b body catches cleanup =
      some (stmt scope copying b (.tryCatch id body catches cleanup)) := by
  have within := fun handlers b => serves (.region handlers cleanup :: scope) copying b
    (.block body) (.tryBody handlers)
  have handled := clausesVia_eq fun b clause isClause =>
    serves (.region [] cleanup :: scope) copying b (.block clause.body) (.clause isClause)
  cases cleanup with
  | none =>
      simp only [tryVia, within, handled, Option.bind_eq_bind, Option.bind_some, Option.pure_def,
        stmt_block, stmt_tryCatch_none, guarded]
  | some block =>
      have isPart : Tree.Node.stmt (.block block) ∈
          (Tree.Node.stmt (.tryCatch id body catches (some block))).children := by
        simp [Tree.Node.children, Tree.Stmt.children, Tree.Block.toNode]
      have cleans := fun copying b => serves scope copying b (.block block) (.part rfl isPart)
      simp only [tryVia, within, handled, cleaningVia_eq (cleans true), cleans,
        Option.bind_eq_bind, Option.bind_some, stmt_block, stmt_tryCatch_some, guarded]

/-- A statement calls only for what it enters. -/
theorem stmtVia_eq {statement : Tree.Stmt}
    (servesExprs : ServesExprs ⟨scope, .stmt statement⟩ copying drawExpr)
    (serves : ServesStmts ⟨scope, .stmt statement⟩ drawStmt) (b : Builder) :
    stmtVia drawExpr drawStmt scope copying b statement =
      some (stmt scope copying b statement) := by
  cases statement with
  | block inner =>
      rw [stmtVia, stmt_block]
      exact foldlM_eq (fun b inner member =>
        serves scope copying b inner (.part rfl (List.mem_map_of_mem member))) b
  | localDecl id name ty init =>
      have drawn := optionalVia_eq fun b inner member =>
        servesExprs b inner (.part rfl (List.mem_map_of_mem (Option.mem_toList.2 member)))
      simp only [stmtVia, drawn, stmt_localDecl, Option.bind_eq_bind, Option.bind_some,
        Option.pure_def]
  | exprStmt id value =>
      have drawn := fun b => servesExprs b value (.part rfl List.mem_cons_self)
      simp only [stmtVia, drawn, stmt_exprStmt, Option.bind_eq_bind, Option.bind_some,
        Option.pure_def]
  | ifElse id cond whenTrue whenFalse =>
      have tested := fun b => servesExprs b cond (.part rfl List.mem_cons_self)
      have first := fun b => serves scope copying b (.block whenTrue)
        (.part rfl (List.mem_cons_of_mem _ List.mem_cons_self))
      cases whenFalse with
      | none =>
          simp only [stmtVia, tested, first, stmt_block, stmt_ifElse_none, Option.bind_eq_bind,
            Option.bind_some, Option.pure_def]
      | some block =>
          have second := fun b => serves scope copying b (.block block)
            (.part rfl (List.mem_cons_of_mem _ (List.mem_cons_of_mem _ List.mem_cons_self)))
          simp only [stmtVia, tested, first, second, stmt_block, stmt_ifElse_some,
            Option.bind_eq_bind, Option.bind_some, Option.pure_def]
  | whileLoop id cond body =>
      have tested := fun b => servesExprs b cond (.part rfl List.mem_cons_self)
      have looped : ∀ b tips exits head,
          loopVia drawExpr drawStmt scope copying b tips exits head [] body =
            some (looping scope copying b tips exits head [] body) :=
        loopVia_eq (fun _ _ absent => absurd absent List.not_mem_nil) fun b =>
          serves (.loop :: scope) copying b (.block body) .whileBody
      simp only [stmtVia, tested, looped, stmt_whileLoop, Option.bind_eq_bind, Option.bind_some]
  | forLoop id init cond update body =>
      have started := foldlM_eq fun b inner member => serves scope copying b inner (.part rfl
        (List.mem_append_left _ (List.mem_append_left _ (List.mem_append_left _
          (List.mem_map_of_mem member)))))
      have tested := optionalVia_eq fun b inner member => servesExprs b inner (.part rfl
        (List.mem_append_left _ (List.mem_append_left _ (List.mem_append_right _
          (List.mem_map_of_mem (Option.mem_toList.2 member))))))
      have looped := loopVia_eq
        (fun b value member => servesExprs b value (.part rfl
          (List.mem_append_left _ (List.mem_append_right _ (List.mem_map_of_mem member)))))
        fun b => serves (.loop :: scope) copying b (.block body) .forBody
      simp only [stmtVia, started, tested, looped, stmt_forLoop, Option.bind_eq_bind,
        Option.bind_some]
  | returnValue id value =>
      have drawn := optionalVia_eq fun b inner member =>
        servesExprs b inner (.part rfl (List.mem_map_of_mem (Option.mem_toList.2 member)))
      simp only [stmtVia, drawn, unwindVia_of_jump rfl serves, stmt_returnValue,
        Option.bind_eq_bind, Option.bind_some, Option.pure_def]
  | breakLoop id =>
      rw [stmtVia, jumpVia]
      cases found : scope.innermostLoop? with
      | none => rw [stmt_breakLoop_outside _ _ _ _ found]
      | some frame =>
          simp only [unwindVia_of_jump rfl serves, stmt_breakLoop _ _ _ _ found,
            Option.bind_eq_bind, Option.bind_some, Option.pure_def]
  | continueLoop id =>
      rw [stmtVia, jumpVia]
      cases found : scope.innermostLoop? with
      | none => rw [stmt_continueLoop_outside _ _ _ _ found]
      | some frame =>
          simp only [unwindVia_of_jump rfl serves, stmt_continueLoop _ _ _ _ found,
            Option.bind_eq_bind, Option.bind_some, Option.pure_def]
  | throwValue id value =>
      have drawn := fun b => servesExprs b value (.part rfl List.mem_cons_self)
      simp only [stmtVia, drawn, stmt_throwValue, Option.bind_eq_bind, Option.bind_some,
        Option.pure_def]
  | tryCatch id body catches cleanup => exact tryVia_eq serves b

end Agreement

/-! ### Calls that check -/

/-- Draws an expression if the subtrees at hand are apart and have fewer nodes than a limit, and
if the same holds wherever drawing enters from here, with what is at hand here as the limit. -/
def exprBelow (limit : Nat) (scope : Scope) (copying : Bool) (b : Builder) (value : Tree.Expr) :
    Option (Nat × Builder) :=
  let here : Place := ⟨scope, .expr value⟩
  if here.Apart ∧ here.weight < limit then
    exprVia (fun b inner => exprBelow here.weight scope copying b inner) scope copying b value
  else none
termination_by limit
decreasing_by
  rename_i falls
  exact falls.2

/-- Draws a statement under the same condition. -/
def stmtBelow (limit : Nat) (scope : Scope) (copying : Bool) (b : Builder)
    (statement : Tree.Stmt) : Option Builder :=
  let here : Place := ⟨scope, .stmt statement⟩
  if here.Apart ∧ here.weight < limit then
    stmtVia (fun b inner => exprBelow here.weight scope copying b inner)
      (fun around copying b inner => stmtBelow here.weight around copying b inner)
      scope copying b statement
  else none
termination_by limit
decreasing_by
  rename_i falls
  exact falls.2

theorem exprBelow_eq {limit : Nat} {scope : Scope} {value : Tree.Expr}
    (distinct : (Place.mk scope (.expr value)).numbers.Nodup)
    (less : (Place.mk scope (.expr value)).weight < limit) (copying : Bool) (b : Builder) :
    exprBelow limit scope copying b value = some (expr scope copying b value) := by
  induction limit using Nat.strong_induction_on generalizing value b with
  | h limit ih =>
      rw [exprBelow, if_pos ⟨Place.apart_of_nodup distinct, less⟩]
      refine exprVia_eq (fun b inner enters => ?_) b
      exact ih _ less (enters.nodup distinct) enters.weight_lt b

theorem stmtBelow_eq {limit : Nat} {scope : Scope} {statement : Tree.Stmt}
    (distinct : (Place.mk scope (.stmt statement)).numbers.Nodup)
    (less : (Place.mk scope (.stmt statement)).weight < limit) (copying : Bool) (b : Builder) :
    stmtBelow limit scope copying b statement = some (stmt scope copying b statement) := by
  induction limit using Nat.strong_induction_on generalizing scope statement copying b with
  | h limit ih =>
      rw [stmtBelow, if_pos ⟨Place.apart_of_nodup distinct, less⟩]
      apply stmtVia_eq
      · intro b inner enters
        exact exprBelow_eq (enters.nodup distinct) enters.weight_lt copying b
      · intro around copying b inner enters
        exact ih _ less (enters.nodup distinct) enters.weight_lt copying b

/-- Draws the code of a fragment with calls that check. -/
def codeBelow (b : Builder) : Fragment.Code → Option Builder
  | .method decl =>
    let b := decl.params.foldl (fun b param => (b.mention param.ty).params [param.name]) b
    match decl.body with
    | none => some b
    | some body => stmtBelow (body.toNode.size + 1) [] false b (.block body)
  | .lambda _ names (.block body) =>
    stmtBelow (body.toNode.size + 1) [] false (b.params names) (.block body)
  | .lambda _ names (.value result) => do
    let drawn ← exprBelow (result.size + 1) [] false (b.params names) result
    return (drawn.2.push (.implicit .returnValue [drawn.1])).2.jump .returns .returnValue
  | .initializer body => stmtBelow (body.toNode.size + 1) [] false b (.block body)
  | .fieldInitializer decl init => do
    let drawn ← exprBelow (init.size + 1) [] false (b.mention decl.ty) init
    return (drawn.2.push (.at decl.id false (.decl decl.name) [drawn.1])).2

theorem codeBelow_eq {code : Fragment.Code}
    (distinct : ∀ body, code.body? = some body → (Place.mk [] body).numbers.Nodup) (b : Builder) :
    b.codeBelow code = some (b.code code) := by
  have block : ∀ body : Tree.Block, code.body? = some body.toNode → ∀ b : Builder,
      stmtBelow (body.toNode.size + 1) [] false b (.block body) =
        some (stmts [] false b body.stmts) := by
    intro body isBody b
    rw [← stmt_block]
    exact stmtBelow_eq (distinct _ isBody) (Nat.lt_succ_self _) false b
  have value : ∀ result : Tree.Expr, code.body? = some (.expr result) → ∀ b : Builder,
      exprBelow (result.size + 1) [] false b result = some (expr [] false b result) := by
    intro result isBody b
    exact exprBelow_eq (distinct _ isBody) (Nat.lt_succ_self _) false b
  cases code with
  | method decl =>
      obtain ⟨id, name, params, annotations, body⟩ := decl
      cases body with
      | none => rfl
      | some body => exact block body rfl _
  | lambda id names body =>
      cases body with
      | block body => exact block body rfl _
      | value result =>
          simp only [codeBelow, code, value result rfl, Option.bind_eq_bind, Option.bind_some,
            Option.pure_def]
  | initializer body => exact block body rfl _
  | fieldInitializer decl init =>
      simp only [codeBelow, code, value init rfl, Option.bind_eq_bind, Option.bind_some,
        Option.pure_def]

end Builder

/-- Draws a fragment with calls that check. -/
def drawBelow (fragment : Fragment) : Option Builder :=
  Builder.start.codeBelow fragment.code

/-- Wherever drawing a fragment of a tree comes to, the subtrees at hand are apart, and what is
entered from there has fewer nodes at hand.  So entering goes on only finitely often.  Calls that
check this at every statement and expression draw the fragment as it is drawn.  Drawing it from
the stored nodes of its tree ends too, with the same graph unless a type is not known. -/
theorem drawing_descends (unit : Source.CompilationUnit) (serial : Nat) {fragment : Fragment}
    (member : fragment ∈ (Tree.ofUnit unit serial).fragments) :
    (∀ body, fragment.body? = some body → ∀ place,
      Relation.ReflTransGen Place.Enters ⟨[], body⟩ place →
        place.Apart ∧ ∀ next, place.Enters next → next.weight < place.weight) ∧
    WellFounded (fun next here : Place => here.Enters next) ∧
    drawBelow fragment = some (draw fragment) ∧
    ∀ env, ∃ outcome, ofView (.ofArena (Tree.ofUnit unit serial).arena) env fragment.code.kind
      fragment.name fragment.root = some outcome ∧
        ∀ graph, outcome = .ok graph → graph = (draw fragment).finish fragment.name := by
  have distinct : ∀ body, fragment.body? = some body → (Place.mk [] body).numbers.Nodup := by
    intro body isBody
    rw [Place.numbers_root]
    exact Fragment.nodup_ids_body member isBody
  refine ⟨fun body isBody place entered => ?_, Place.wellFounded_enters,
    Builder.codeBelow_eq distinct Builder.start,
    fun env => ⟨_, ofView_ofArena member env, fun graph built => (eq_finish_of_ofFragment built).2⟩⟩
  refine ⟨Place.apart_of_nodup ?_, fun next enters => enters.weight_lt⟩
  induction entered with
  | refl => exact distinct body isBody
  | tail _ enters ih => exact enters.nodup ih

/-- A unit whose method cannot leave its loop: `while (busy) { try { try { return; }
finally { break; } } finally { continue; } }`. -/
def stubborn : Source.CompilationUnit where
  name := "Main"
  classes := [{
    name := "Main"
    members := [.method "run" [] [] (some [
      .whileLoop (.ident "busy") [
        .tryCatch [.tryCatch [.returnValue none] [] (some [.breakLoop])] []
          (some [.continueLoop])]])] }]

/-- The body of its method. -/
def stubbornBody : Tree.Block :=
  .mk 12 false [.whileLoop 11 (.ident 0 "busy") (.mk 10 false [
    .tryCatch 9 (.mk 6 false [
      .tryCatch 5 (.mk 2 false [.returnValue 1 none]) [] (some (.mk 4 false [.breakLoop 3]))])
      [] (some (.mk 8 false [.continueLoop 7]))])]

/-- From the `return`, with five nodes at hand, drawing enters the `finally` block that breaks,
where the one that continues is still at hand. -/
theorem stubborn_descends :
    ∃ fragment ∈ (Tree.ofUnit stubborn 0).fragments, fragment.root = 13 ∧
      (draw fragment).nodes.size = 4 ∧ drawBelow fragment = some (draw fragment) ∧
      ∃ here next, Relation.ReflTransGen Place.Enters ⟨[], stubbornBody.toNode⟩ here ∧
        here.Enters next ∧ here.subtrees.map Tree.Node.id = [1, 4, 8] ∧
        next.subtrees.map Tree.Node.id = [4, 8] ∧ here.Apart ∧ here.weight = 5 ∧
        next.weight < here.weight := by
  have found : (Tree.ofUnit stubborn 0).fragments.head?.map (fun fragment =>
      (fragment.root, (draw fragment).nodes.size)) = some (13, 4) := by
    decide +kernel
  have body : (Tree.ofUnit stubborn 0).fragments.head?.map Fragment.body? =
      some (some stubbornBody.toNode) := by
    cbv
  obtain ⟨fragment, isHead, numbers⟩ := Option.map_eq_some_iff.1 found
  obtain ⟨isRoot, size⟩ := Prod.mk.injEq .. ▸ numbers
  rw [isHead] at body
  have isBody : fragment.body? = some stubbornBody.toNode := Option.some.inj body
  have member := List.mem_of_mem_head? isHead
  have first : Place.Enters ⟨[], stubbornBody.toNode⟩ _ := .part rfl List.mem_cons_self
  have outer := ((Relation.ReflTransGen.single first).tail .whileBody).tail
    (.part rfl List.mem_cons_self)
  have inner := (outer.tail (.tryBody [])).tail (.part rfl List.mem_cons_self)
  have returns := (inner.tail (.tryBody [])).tail (.part rfl List.mem_cons_self)
  have passes := @Place.Enters.passes [] [.region [] (some (.mk 8 false [.continueLoop 7])), .loop]
    (.region [] (some (.mk 4 false [.breakLoop 3]))) _ (.returnValue 1 none) rfl rfl
  obtain ⟨descends, -, same, -⟩ := drawing_descends stubborn 0 member
  obtain ⟨apart, less⟩ := descends _ isBody _ returns
  exact ⟨fragment, member, isRoot, size, same, _, _, returns, passes, by decide +kernel,
    by decide +kernel, apart, by decide +kernel, less _ passes⟩

end FragmentFlow.Graph
