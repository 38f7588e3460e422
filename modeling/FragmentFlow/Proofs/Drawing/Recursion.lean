import FragmentFlow.Proofs.Drawing.Builder

/-!
# Recursion over drawn code

Statements are drawn together with the `finally` blocks of the frames around them,
so a property of drawing is proved by induction on both at once.  The cases of that
induction are collected here once; what is drawn for each sort of statement is
stated beside them.
-/

namespace FragmentFlow.Graph

/-- The cases of an induction over statements and the frames around them.  The
properties are about a list of statements, a statement, a list of catch clauses,
and the way out of all frames. -/
structure DrawingCases (onStmts : Scope → List Tree.Stmt → Prop)
    (onStmt : Scope → Tree.Stmt → Prop) (onClauses : Scope → List Tree.Catch → Prop)
    (onUnwind : Scope → Prop) : Prop where
  nil (scope : Scope) : onStmts scope []
  cons (scope : Scope) (first : Tree.Stmt) (rest : List Tree.Stmt) :
    onStmt scope first → onStmts scope rest → onStmts scope (first :: rest)
  block (scope : Scope) (inner : Tree.Block) :
    onStmts scope inner.stmts → onStmt scope (.block inner)
  localDecl (scope : Scope) (id : Nat) (name ty : String) (init : Option Tree.Expr) :
    onStmt scope (.localDecl id name ty init)
  exprStmt (scope : Scope) (id : Nat) (value : Tree.Expr) : onStmt scope (.exprStmt id value)
  ifElse (scope : Scope) (id : Nat) (cond : Tree.Expr) (whenTrue : Tree.Block)
    (whenFalse : Option Tree.Block) :
    onStmts scope whenTrue.stmts → (∀ block, whenFalse = some block → onStmts scope block.stmts) →
      onStmt scope (.ifElse id cond whenTrue whenFalse)
  whileLoop (scope : Scope) (id : Nat) (cond : Tree.Expr) (body : Tree.Block) :
    onStmts (.loop :: scope) body.stmts → onStmt scope (.whileLoop id cond body)
  forLoop (scope : Scope) (id : Nat) (init : List Tree.Stmt) (cond : Option Tree.Expr)
    (update : List Tree.Expr) (body : Tree.Block) :
    onStmts scope init → onStmts (.loop :: scope) body.stmts →
      onStmt scope (.forLoop id init cond update body)
  returnValue (scope : Scope) (id : Nat) (value : Option Tree.Expr) :
    onUnwind scope → onStmt scope (.returnValue id value)
  breakLoop (scope : Scope) (id : Nat) : onUnwind scope → onStmt scope (.breakLoop id)
  continueLoop (scope : Scope) (id : Nat) : onUnwind scope → onStmt scope (.continueLoop id)
  throwValue (scope : Scope) (id : Nat) (value : Tree.Expr) :
    onStmt scope (.throwValue id value)
  tryCatch (scope : Scope) (id : Nat) (body : Tree.Block) (catches : List Tree.Catch)
    (cleanup : Option Tree.Block) :
    (∀ handlers, onStmts (.region handlers cleanup :: scope) body.stmts) →
      onClauses (.region [] cleanup :: scope) catches →
      (∀ block, cleanup = some block → onStmts scope block.stmts) →
      onStmt scope (.tryCatch id body catches cleanup)
  noClause (scope : Scope) : onClauses scope []
  clause (scope : Scope) (clause : Tree.Catch) (rest : List Tree.Catch) :
    onStmts scope clause.body.stmts → onClauses scope rest → onClauses scope (clause :: rest)
  unwound : onUnwind []
  unwind (frame : Frame) (outer : Scope) :
    (∀ block, frame.cleanup? = some block → onStmts outer block.stmts) → onUnwind outer →
      onUnwind (frame :: outer)

namespace DrawingCases

variable {onStmts : Scope → List Tree.Stmt → Prop} {onStmt : Scope → Tree.Stmt → Prop}
  {onClauses : Scope → List Tree.Catch → Prop} {onUnwind : Scope → Prop}

mutual

/-- The induction for lists of statements. -/
theorem stmts (cases : DrawingCases onStmts onStmt onClauses onUnwind) (scope : Scope)
    (list : List Tree.Stmt) : onStmts scope list := by
  match list with
  | [] => exact cases.nil scope
  | first :: rest =>
      exact cases.cons scope first rest (cases.stmt scope first) (cases.stmts scope rest)
termination_by 3 * (Tree.sizeStmts list + scope.weight) + 2
decreasing_by
  · simp only [Tree.sizeStmts]
    omega
  · have := first.size_pos
    simp only [Tree.sizeStmts]
    omega

/-- The induction for statements. -/
theorem stmt (cases : DrawingCases onStmts onStmt onClauses onUnwind) (scope : Scope)
    (statement : Tree.Stmt) : onStmt scope statement := by
  match statement with
  | .block inner => exact cases.block scope inner (cases.stmts scope inner.stmts)
  | .localDecl id name ty init => exact cases.localDecl scope id name ty init
  | .exprStmt id value => exact cases.exprStmt scope id value
  | .ifElse id cond whenTrue none =>
      exact cases.ifElse scope id cond whenTrue none (cases.stmts scope whenTrue.stmts)
        (fun _ absent => nomatch absent)
  | .ifElse id cond whenTrue (some block) =>
      have drawn := cases.stmts scope block.stmts
      exact cases.ifElse scope id cond whenTrue (some block) (cases.stmts scope whenTrue.stmts)
        (fun _ same => Option.some.inj same ▸ drawn)
  | .whileLoop id cond body =>
      exact cases.whileLoop scope id cond body (cases.stmts (.loop :: scope) body.stmts)
  | .forLoop id init cond update body =>
      exact cases.forLoop scope id init cond update body (cases.stmts scope init)
        (cases.stmts (.loop :: scope) body.stmts)
  | .returnValue id value => exact cases.returnValue scope id value (cases.unwinding scope)
  | .breakLoop id => exact cases.breakLoop scope id (cases.unwinding scope)
  | .continueLoop id => exact cases.continueLoop scope id (cases.unwinding scope)
  | .throwValue id value => exact cases.throwValue scope id value
  | .tryCatch id body catches none =>
      exact cases.tryCatch scope id body catches none
        (fun handlers => cases.stmts (.region handlers none :: scope) body.stmts)
        (cases.clauses (.region [] none :: scope) catches) (fun _ absent => nomatch absent)
  | .tryCatch id body catches (some block) =>
      have drawn := cases.stmts scope block.stmts
      exact cases.tryCatch scope id body catches (some block)
        (fun handlers => cases.stmts (.region handlers (some block) :: scope) body.stmts)
        (cases.clauses (.region [] (some block) :: scope) catches)
        (fun _ same => Option.some.inj same ▸ drawn)
termination_by 3 * (statement.size + scope.weight) + 1
decreasing_by
  all_goals
    simp only [Tree.Stmt.size, Tree.Block.size_eq, Tree.sizeBlock?, Scope.weight,
      Frame.cleanup?]
    omega

/-- The induction for catch clauses. -/
theorem clauses (cases : DrawingCases onStmts onStmt onClauses onUnwind) (scope : Scope)
    (list : List Tree.Catch) : onClauses scope list := by
  match list with
  | [] => exact cases.noClause scope
  | first :: rest =>
      exact cases.clause scope first rest (cases.stmts scope first.body.stmts)
        (cases.clauses scope rest)
termination_by 3 * (Tree.sizeCatches list + scope.weight)
decreasing_by
  all_goals
    simp only [Tree.sizeCatches, Tree.Catch.size_eq]
    omega

/-- The induction for the way out of all frames. -/
theorem unwinding (cases : DrawingCases onStmts onStmt onClauses onUnwind) (scope : Scope) :
    onUnwind scope := by
  match scope with
  | [] => exact cases.unwound
  | .loop :: outer =>
      exact cases.unwind .loop outer (fun _ absent => nomatch absent) (cases.unwinding outer)
  | .region handlers none :: outer =>
      exact cases.unwind (.region handlers none) outer (fun _ absent => nomatch absent)
        (cases.unwinding outer)
  | .region handlers (some block) :: outer =>
      have drawn := cases.stmts outer block.stmts
      exact cases.unwind (.region handlers (some block)) outer
        (fun _ same => Option.some.inj same ▸ drawn) (cases.unwinding outer)
termination_by 3 * scope.weight
decreasing_by
  all_goals
    simp only [Scope.weight, Frame.cleanup?, Tree.sizeBlock?, Tree.Block.size_eq]
    omega

end

end DrawingCases

/-! ### What is drawn for each sort of statement -/

namespace Builder

/-- Draws the body of a loop and closes it.  The tips enter the body, and the exits
are those behind the condition. -/
def looping (scope : Scope) (copying : Bool) (b : Builder) (tips exits : List Tip) (head : Nat)
    (update : List Tree.Expr) (body : Tree.Block) : Builder :=
  closeLoop scope copying
    (stmts (.loop :: scope) copying { b with tips, parked := [] } body.stmts) update head exits
    b.parked

/-- A loop whose body has been drawn, with all that goes on to the updates. -/
def atUpdates (scope : Scope) (b : Builder) (before : List (Exit × Tip)) : Builder :=
  { b.leaveFrame before [.breaks scope.length, .continues scope.length] with
    tips := b.tips ++ b.parkedUnder (.continues scope.length) }

/-- Draws the body of a `try` and its catch clauses, whose entries are there. -/
def guarded (scope : Scope) (copying : Bool) (b : Builder) (handlers : List Handler)
    (body : Tree.Block) (catches : List Tree.Catch) (cleanup : Option Tree.Block) : Builder :=
  clauses (.region [] cleanup :: scope) copying
    (stmts (.region handlers cleanup :: scope) copying { b with parked := [] } body.stmts)
    (handlers.map Handler.entry) catches

/-- Draws the copy of a `finally` block that exceptions share, if there are any. -/
def cleaningUp (scope : Scope) (b : Builder) (raised : List Tip) (block : Tree.Block) : Builder :=
  if raised.isEmpty then b
  else
    let ended := (stmts scope true { b with tips := raised } block.stmts).push
      (.implicit .rethrow [])
    ended.2.raise scope ended.1

variable (scope : Scope) (copying : Bool) (b : Builder)

theorem stmts_nil : stmts scope copying b [] = b := by
  rw [stmts]

/-- Statements are drawn one after the other. -/
theorem stmts_cons (first : Tree.Stmt) (rest : List Tree.Stmt) :
    stmts scope copying b (first :: rest) =
      stmts scope copying (stmt scope copying b first) rest := by
  rw [stmts]

/-- A block draws its statements. -/
theorem stmt_block (inner : Tree.Block) :
    stmt scope copying b (.block inner) = stmts scope copying b inner.stmts := by
  rw [stmt]

/-- A declaration is drawn behind its value. -/
theorem stmt_localDecl (id : Nat) (name ty : String) (init : Option Tree.Expr) :
    stmt scope copying b (.localDecl id name ty init) =
      let drawn := expr? scope copying (b.mention ty) init
      (drawn.2.push (.at id copying (.decl name) drawn.1)).2 := by
  rw [stmt]

/-- A statement draws its expression. -/
theorem stmt_exprStmt (id : Nat) (value : Tree.Expr) :
    stmt scope copying b (.exprStmt id value) = (expr scope copying b value).2 := by
  rw [stmt]

/-- Without an `else`, control also goes on from the condition. -/
theorem stmt_ifElse_none (id : Nat) (cond : Tree.Expr) (whenTrue : Tree.Block) :
    stmt scope copying b (.ifElse id cond whenTrue none) =
      let tested := (expr scope copying b cond).2
      let first := stmts scope copying { tested with tips := tested.tipsAs .onTrue } whenTrue.stmts
      { first with tips := first.tips ++ tested.tipsAs .onFalse } := by
  rw [stmt]

/-- Control goes on behind either branch. -/
theorem stmt_ifElse_some (id : Nat) (cond : Tree.Expr) (whenTrue whenFalse : Tree.Block) :
    stmt scope copying b (.ifElse id cond whenTrue (some whenFalse)) =
      let tested := (expr scope copying b cond).2
      let first := stmts scope copying { tested with tips := tested.tipsAs .onTrue } whenTrue.stmts
      let second :=
        stmts scope copying { first with tips := tested.tipsAs .onFalse } whenFalse.stmts
      { second with tips := first.tips ++ second.tips } := by
  rw [stmt]

theorem closeLoop_eq (update : List Tree.Expr) (head : Nat) (exits : List Tip)
    (before : List (Exit × Tip)) :
    closeLoop scope copying b update head exits before =
      let updated := (exprs scope copying (b.atUpdates scope before) update).2
      { updated.connect updated.tips head with
        tips := exits ++ b.parkedUnder (.breaks scope.length) } := rfl

/-- A `while` loop draws its head, its condition and its body. -/
theorem stmt_whileLoop (id : Nat) (cond : Tree.Expr) (body : Tree.Block) :
    stmt scope copying b (.whileLoop id cond body) =
      let headed := b.push (.at id copying .loopHead [])
      let tested := (expr scope copying headed.2 cond).2
      looping scope copying tested (tested.tipsAs .onTrue) (tested.tipsAs .onFalse) headed.1 []
        body := by
  rw [stmt]
  rfl

/-- A `for` loop draws its initialization, its head, its condition and its body. -/
theorem stmt_forLoop (id : Nat) (init : List Tree.Stmt) (cond : Option Tree.Expr)
    (update : List Tree.Expr) (body : Tree.Block) :
    stmt scope copying b (.forLoop id init cond update body) =
      let headed := (stmts scope copying b init).push (.at id copying .loopHead [])
      let tested := (expr? scope copying headed.2 cond).2
      looping scope copying tested (if cond.isSome then tested.tipsAs .onTrue else tested.tips)
        (if cond.isSome then tested.tipsAs .onFalse else []) headed.1 update body := by
  rw [stmt]
  rfl

/-- A `return` draws its value, unwinds everything and jumps to the exit. -/
theorem stmt_returnValue (id : Nat) (value : Option Tree.Expr) :
    stmt scope copying b (.returnValue id value) =
      let drawn := expr? scope copying b value
      (unwind scope 0 (drawn.2.push (.at id copying .returnValue drawn.1)).2).jump .returns
        .returnValue := by
  rw [stmt]

/-- A `break` unwinds up to its loop and jumps out of it. -/
theorem stmt_breakLoop (id : Nat) {frame : Nat} (found : scope.innermostLoop? = some frame) :
    stmt scope copying b (.breakLoop id) =
      (unwind scope (frame + 1) b).jump (.breaks frame) .breakLoop := by
  rw [stmt, found]

/-- A `break` outside of loops ends the way on. -/
theorem stmt_breakLoop_outside (id : Nat) (absent : scope.innermostLoop? = none) :
    stmt scope copying b (.breakLoop id) = { b with tips := [] } := by
  rw [stmt, absent]

/-- A `continue` unwinds up to its loop and jumps to its updates. -/
theorem stmt_continueLoop (id : Nat) {frame : Nat} (found : scope.innermostLoop? = some frame) :
    stmt scope copying b (.continueLoop id) =
      (unwind scope (frame + 1) b).jump (.continues frame) .continueLoop := by
  rw [stmt, found]

/-- A `continue` outside of loops ends the way on. -/
theorem stmt_continueLoop_outside (id : Nat) (absent : scope.innermostLoop? = none) :
    stmt scope copying b (.continueLoop id) = { b with tips := [] } := by
  rw [stmt, absent]

/-- A `throw` draws its value and raises. -/
theorem stmt_throwValue (id : Nat) (value : Tree.Expr) :
    stmt scope copying b (.throwValue id value) =
      let drawn := expr scope copying b value
      let thrown := drawn.2.push (.at id copying .throwValue [drawn.1])
      { thrown.2 with tips := [] }.raise scope thrown.1 := by
  rw [stmt]

/-- A `try` without a cleanup draws the entries of its clauses, its body and its clauses. -/
theorem stmt_tryCatch_none (id : Nat) (body : Tree.Block) (catches : List Tree.Catch) :
    stmt scope copying b (.tryCatch id body catches none) =
      let entered := enterCatches copying b catches
      (guarded scope copying entered.2 entered.1 body catches none).leaveFrame entered.2.parked
        [.cleanup scope.length] := by
  rw [stmt]
  rfl

/-- A cleanup is drawn once in its place and once for each way that leaves the `try`. -/
theorem stmt_tryCatch_some (id : Nat) (body : Tree.Block) (catches : List Tree.Catch)
    (block : Tree.Block) :
    stmt scope copying b (.tryCatch id body catches (some block)) =
      let entered := enterCatches copying b catches
      let drawn := guarded scope copying entered.2 entered.1 body catches (some block)
      let cleaned := cleaningUp scope (drawn.leaveFrame entered.2.parked [.cleanup scope.length])
        (drawn.parkedUnder (.cleanup scope.length)) block
      stmts scope copying { cleaned with tips := drawn.tips } block.stmts := by
  rw [stmt]
  rfl

theorem clauses_nil (entries : List Nat) : clauses scope copying b entries [] = b := by
  cases entries <;> rw [clauses] <;> simp

theorem clauses_noEntry (list : List Tree.Catch) : clauses scope copying b [] list = b := by
  rw [clauses]
  simp

/-- A catch clause is drawn behind its entry. -/
theorem clauses_cons (entry : Nat) (entries : List Nat) (clause : Tree.Catch)
    (rest : List Tree.Catch) :
    clauses scope copying b (entry :: entries) (clause :: rest) =
      let drawn := stmts scope copying { b with tips := [{ source := entry, kind := .normal }] }
        clause.body.stmts
      clauses scope copying { drawn with tips := b.tips ++ drawn.tips } entries rest := by
  rw [clauses]

theorem unwind_nil (keep : Nat) : unwind [] keep b = b := by
  rw [unwind]

/-- A frame that is kept stops the unwinding. -/
theorem unwind_kept (frame : Frame) (outer : Scope) {keep : Nat} (kept : outer.length < keep) :
    unwind (frame :: outer) keep b = b := by
  rw [unwind.eq_def]
  simp only [kept, ↓reduceIte]

/-- A frame without a cleanup is left. -/
theorem unwind_left (frame : Frame) (outer : Scope) {keep : Nat} (left : keep ≤ outer.length)
    (absent : frame.cleanup? = none) :
    unwind (frame :: outer) keep b = unwind outer keep b := by
  rw [unwind.eq_def]
  simp only [Nat.not_lt.2 left, ↓reduceIte]
  cases frame with
  | loop => rfl
  | region handlers cleanup =>
      cases cleanup with
      | none => rfl
      | some block => cases absent

/-- A frame with a cleanup is left behind a copy of it. -/
theorem unwind_cleanup (frame : Frame) (outer : Scope) {keep : Nat} (left : keep ≤ outer.length)
    {block : Tree.Block} (present : frame.cleanup? = some block) :
    unwind (frame :: outer) keep b = unwind outer keep (stmts outer true b block.stmts) := by
  rw [unwind.eq_def]
  simp only [Nat.not_lt.2 left, ↓reduceIte]
  cases frame with
  | loop => cases present
  | region handlers cleanup =>
      cases cleanup with
      | none => cases present
      | some other =>
          cases present
          rfl

/-! ### Parameters -/

section Keeps

variable {motive : Builder → Prop}
  (push : ∀ b name, motive b → motive (b.push (.implicit (.param name) [])).2)

include push

/-- What a further parameter keeps, all parameters keep. -/
theorem params_keep {b : Builder} (holds : motive b) (names : List String) :
    motive (b.params names) := by
  unfold params
  induction names generalizing b with
  | nil => exact holds
  | cons name names ih => exact ih (push b name holds)

/-- What mentions and parameters keep is kept by parameters with types. -/
theorem typedParams_keep (mention : ∀ b ty, motive b → motive (b.mention ty)) {b : Builder}
    (holds : motive b) (list : List Source.Param) :
    motive (list.foldl (fun b param => (b.mention param.ty).params [param.name]) b) := by
  induction list generalizing b with
  | nil => exact holds
  | cons param list ih => exact ih (params_keep push (mention b param.ty holds) [param.name])

end Keeps

end Builder

end FragmentFlow.Graph
