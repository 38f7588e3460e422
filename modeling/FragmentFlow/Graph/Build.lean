import FragmentFlow.Fragment
import FragmentFlow.Graph.Draft

/-!
# The flow graph of a fragment

Operands are drawn before the expressions that use them, statements in their order.  A jump
draws a copy of every `finally` block it passes, outside the frame of its `try`; exceptions
share one copy, which raises again.  A type name is looked up where it is met.
-/

namespace FragmentFlow.Graph

namespace Draft

variable {Ref : Type}

/-! ### Expressions -/

/-- Draws expressions in their order. -/
def exprs (evaluate : Ref → Drawing Ref Nat) : List Ref → Drawing Ref (List Nat)
  | [] => return []
  | ref :: refs => do
    let node ← evaluate ref
    let nodes ← exprs evaluate refs
    return node :: nodes

/-- Draws an optional expression; the result is the operands it makes. -/
def expr? (evaluate : Ref → Drawing Ref Nat) : Option Ref → Drawing Ref (List Nat)
  | none => return []
  | some ref => do
    let node ← evaluate ref
    return [node]

/-- Draws an expression that nests no deeper than the limit; the result is the node of its
value. -/
def expr (view : View Ref) (env : Environment) : Nat → Ref → Drawing Ref Nat
  | 0, _ => tooDeep
  | limit + 1, ref => do
    match ← fetch view ref with
    | .literal value => push (view.number ref) (.literal value) []
    | .ident name => push (view.number ref) (.ident name) []
    | .assign target value =>
      let operand ← expr view env limit value
      push (view.number ref) (.assign target) [operand]
    | .binary op lhs rhs =>
      let left ← expr view env limit lhs
      if op.isShortCircuit then
        let (onTrue, onFalse) ← split
        setPending (if op = .and then onTrue else onFalse)
        let right ← expr view env limit rhs
        addPending (if op = .and then onFalse else onTrue)
        push (view.number ref) (.binary op) [left, right]
      else
        let right ← expr view env limit rhs
        let node ← push (view.number ref) (.binary op) [left, right]
        if op.canThrow then
          raise node
          return node
        else return node
    | .unary op operand =>
      let value ← expr view env limit operand
      push (view.number ref) (.unary op) [value]
    | .conditional cond whenTrue whenFalse =>
      let test ← expr view env limit cond
      let (onTrue, onFalse) ← split
      setPending onTrue
      let first ← expr view env limit whenTrue
      let merged ← takePending
      setPending onFalse
      let second ← expr view env limit whenFalse
      let further ← takePending
      setPending (merged ++ further)
      push (view.number ref) .conditional [test, first, second]
    | .call callee args =>
      let operands ← exprs (expr view env limit) args
      let node ← push (view.number ref) (.call callee) operands
      raise node
      return node
    | .new ty args =>
      lookUp env ty
      let operands ← exprs (expr view env limit) args
      let node ← push (view.number ref) (.new ty) operands
      raise node
      return node
    | .lambda _ _ => push (view.number ref) .lambda []
    | kind => throw (.internal ("unexpected " ++ kind.name ++ " in expression position"))

/-! ### Parts of statements -/

/-- Draws the entries of catch clauses, which only exceptions reach; the result is the entries
as targets and the bodies of the clauses. -/
def enterCatches (view : View Ref) (env : Environment) :
    List Ref → Drawing Ref (List (Handler × Ref))
  | [] => return []
  | ref :: refs => do
    match ← fetch view ref with
    | .catchClause name ty body =>
      lookUp env ty
      let entry ← addNode (view.number ref) (.catchParam name ty) []
      let clauses ← enterCatches view env refs
      return ({ entry, catchesAll := catchesAll ty }, body) :: clauses
    | _ => throw (.internal "try clause is not a catch")

/-- Draws statements in their order. -/
def stmts (draw : Ref → Drawing Ref Unit) : List Ref → Drawing Ref Unit
  | [] => return
  | ref :: refs => do
    draw ref
    stmts draw refs

/-- Draws the body of a loop and what goes on to the next turn, leads back to the head, and
goes on behind the loop. -/
def loopBody (draw : Ref → Drawing Ref Unit) (evaluate : Ref → Drawing Ref Nat) (body : Ref)
    (update : List Ref) (head : Nat) (exits : List Tip) : Drawing Ref Unit := do
  enter (.loop [] [])
  draw body
  let (breaks, continues) ← leaveLoop
  addPending continues
  let _ ← exprs evaluate update
  connectPending head
  setPending (exits ++ breaks)

/-- Draws the bodies of catch clauses, each from its entry; the result is what goes on behind
the `try`. -/
def handlers (draw : Ref → Drawing Ref Unit) (continuation : List Tip) :
    List (Handler × Ref) → Drawing Ref (List Tip)
  | [] => return continuation
  | (handler, body) :: clauses => do
    setPending [{ source := handler.entry, kind := .normal }]
    draw body
    let further ← takePending
    handlers draw (continuation ++ further) clauses

/-- Goes out of some frames, down to a number of them that stay, and draws copies of the
`finally` blocks on the way.  A copy stands outside the `try` that it belongs to. -/
def unwind (draw : Ref → Drawing Ref Unit) (keep : Nat) : Nat → Drawing Ref Unit
  | 0 => return
  | depth + 1 =>
    if depth < keep then return
    else do
      match ← cleanupAt depth with
      | none => unwind draw keep depth
      | some cleanup =>
        let inner ← splitOff depth
        beginCopy
        draw cleanup
        endCopy
        restore inner
        unwind draw keep depth

/-- Goes out of all frames but a number of them that stay; the result is what jumps. -/
def exitThrough (draw : Ref → Drawing Ref Unit) (keep : Nat) (kind : EdgeKind) :
    Drawing Ref (List Tip) := do
  unwind draw keep (← depth)
  takeJump kind

/-- Jumps to where the innermost loop keeps what it waits for.  Outside of all loops nothing
goes on. -/
def jump (draw : Ref → Drawing Ref Unit) (kind : EdgeKind)
    (wait : List Tip → Frame Ref → Frame Ref) : Drawing Ref Unit := do
  match ← loopDepth? with
  | none => setPending []
  | some depth =>
    let tips ← exitThrough draw (depth + 1) kind
    addJumps depth (wait tips)

/-! ### Statements -/

/-- Draws a statement that nests no deeper than the limit, where each `finally` block that a
jump passes is inside of the jump. -/
def stmt (view : View Ref) (env : Environment) : Nat → Ref → Drawing Ref Unit
  | 0, _ => tooDeep
  | limit + 1, ref => do
    match ← fetch view ref with
    | .block _ refs => stmts (stmt view env limit) refs
    | .localDecl name ty init =>
      lookUp env ty
      let operands ← expr? (expr view env limit) init
      let _ ← push (view.number ref) (.decl name) operands
    | .exprStmt value =>
      let _ ← expr view env limit value
    | .ifElse cond whenTrue whenFalse =>
      let _ ← expr view env limit cond
      let (onTrue, onFalse) ← split
      setPending onTrue
      stmt view env limit whenTrue
      let merged ← takePending
      setPending onFalse
      match whenFalse with
      | none => pure ()
      | some whenFalse => stmt view env limit whenFalse
      let further ← takePending
      setPending (merged ++ further)
    | .whileLoop cond body =>
      let head ← push (view.number ref) .loopHead []
      let _ ← expr view env limit cond
      let (onTrue, onFalse) ← split
      setPending onTrue
      loopBody (stmt view env limit) (expr view env limit) body [] head onFalse
    | .forLoop init cond update body =>
      stmts (stmt view env limit) init
      let head ← push (view.number ref) .loopHead []
      match cond with
      | none => loopBody (stmt view env limit) (expr view env limit) body update head []
      | some cond =>
        let _ ← expr view env limit cond
        let (onTrue, onFalse) ← split
        setPending onTrue
        loopBody (stmt view env limit) (expr view env limit) body update head onFalse
    | .returnValue value =>
      let operands ← expr? (expr view env limit) value
      let _ ← push (view.number ref) .returnValue operands
      addReturns (← exitThrough (stmt view env limit) 0 .returnValue)
    | .breakLoop => jump (stmt view env limit) .breakLoop Frame.breaking
    | .continueLoop => jump (stmt view env limit) .continueLoop Frame.continuing
    | .throwValue value =>
      let operand ← expr view env limit value
      let node ← push (view.number ref) .throwValue [operand]
      setPending []
      raise node
    | .tryCatch body catches cleanup =>
      let clauses ← enterCatches view env catches
      enter (.region (clauses.map Prod.fst) cleanup false [])
      stmt view env limit body
      let continuation ← takePending
      enterHandlers
      let continuation ← handlers (stmt view env limit) continuation clauses
      let exceptional ← leaveRegion
      match cleanup with
      | none => setPending continuation
      | some cleanup =>
        if exceptional.isEmpty then
          setPending continuation
          stmt view env limit cleanup
        else
          setPending exceptional
          beginCopy
          stmt view env limit cleanup
          endCopy
          let node ← push none .rethrow []
          setPending []
          raise node
          setPending continuation
          stmt view env limit cleanup
    | kind =>
      if kind.isExpression then
        let _ ← expr view env limit ref
      else throw (.internal ("unexpected " ++ kind.name ++ " in statement position"))

/-! ### Fragments -/

/-- Draws the parameters of a method. -/
def typedParams (env : Environment) : List Source.Param → Drawing Ref Unit
  | [] => return
  | param :: list => do
    lookUp env param.ty
    let _ ← push none (.param param.name) []
    typedParams env list

/-- Draws the parameters of a lambda. -/
def params : List String → Drawing Ref Unit
  | [] => return
  | name :: names => do
    let _ ← push none (.param name) []
    params names

/-- Draws a fragment of some sort and name from its root; an expression as the body of a lambda
is returned. -/
def code (view : View Ref) (env : Environment) (kind : Fragment.Kind) (name : String)
    (root : Ref) : Drawing Ref Unit := do
  match kind, ← fetch view root with
  | .method, .method _ _ _ none =>
    throw (.internal (name ++ " has no body to build a CFG for"))
  | .method, .method _ list _ (some body) =>
    typedParams env list
    stmt view env view.size body
  | .lambda, .lambda names body =>
    params names
    match ← fetch view body with
    | .block .. => stmt view env view.size body
    | _ =>
      let operand ← expr view env view.size body
      let _ ← push none .returnValue [operand]
      addReturns (← exitThrough (stmt view env view.size) 0 .returnValue)
  | .initializer, .block .. => stmt view env view.size root
  | .fieldInitializer, .field name ty _ (some init) =>
    lookUp env ty
    let operand ← expr view env view.size init
    let _ ← push (view.number root) (.decl name) [operand]
  | kind, found =>
    throw (.internal
      ("fragment kind " ++ kind.label ++ " does not match tree node " ++ found.name))

/-- The graph of a draft of all code. -/
def finish (draft : Draft Ref) (label : String) : Graph :=
  draft.toCanvas.finish label (draft.pending ++ draft.returns) draft.uncaught

end Draft

/-- Draws a fragment of some sort and name from its root. -/
def ofView {Ref : Type} (view : View Ref) (env : Environment) (kind : Fragment.Kind)
    (name : String) (root : Ref) : Option (Except Failure Graph) :=
  ((Draft.code view env kind name root).run .start).run.map fun outcome =>
    outcome.map fun drawn => drawn.2.finish name

/-- The flow graph of a fragment.  It exists if there is code and every type name
in it is known; the first unknown one is the cause of failure otherwise. -/
def ofFragment (fragment : Fragment) (env : Environment) : Except Failure Graph :=
  let code := fragment.code
  match ofView (.below code.node) env code.kind fragment.name code.node with
  | some outcome => outcome
  | none => .error (.internal (fragment.name ++ " nests too deep to build a CFG for"))

end FragmentFlow.Graph
