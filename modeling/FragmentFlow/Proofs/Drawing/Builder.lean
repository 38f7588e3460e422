import FragmentFlow.Graph.Build

/-!
# Drawing by recursion over the code

The same drawing without a stack of frames.  It follows the constructs of the code, the frames
around a place are an argument, and what leaves a frame is parked under a name for its exit
until the frame is left.  Type names are noted and not looked up, so nothing fails.  The size of
the current statement together with the `finally` blocks of the frames around it decreases with
every step, because a block is drawn outside its own frame.
-/

namespace FragmentFlow

namespace Tree

theorem Block.size_eq (block : Block) : block.size = sizeStmts block.stmts + 1 := by
  obtain ⟨id, isStatic, stmts⟩ := block
  simp [Block.size, Block.stmts]

theorem Stmt.size_pos (stmt : Stmt) : 0 < stmt.size := by
  cases stmt with
  | block inner => simp [Stmt.size, Block.size_eq]
  | _ => simp [Stmt.size]

theorem Catch.size_eq (clause : Catch) : clause.size = sizeStmts clause.body.stmts + 2 := by
  obtain ⟨id, name, ty, body⟩ := clause
  simp [Catch.size, Catch.body, Block.size_eq]

end Tree

namespace Graph

/-- A way out of the current place.  A frame is named by the number of frames
around it. -/
inductive Exit where
  /-- Out of the fragment with a result. -/
  | returns
  /-- Out of the fragment with an exception. -/
  | uncaught
  /-- Out of a loop. -/
  | breaks (frame : Nat)
  /-- To the next turn of a loop. -/
  | continues (frame : Nat)
  /-- With an exception into the `finally` block of a `try`. -/
  | cleanup (frame : Nat)
  deriving DecidableEq, Repr

/-- What encloses the current place. -/
inductive Frame where
  | loop
  /-- A `try`: the catch clauses that exceptions from here may enter, and the
  `finally` block that every way out of here passes. -/
  | region (handlers : List Handler) (cleanup : Option Tree.Block)

/-- The statements that have to be drawn when a frame is left. -/
def Frame.cleanup? : Frame → Option Tree.Block
  | loop => none
  | region _ cleanup => cleanup

/-- The frames around the current place, innermost first. -/
abbrev Scope := List Frame

namespace Scope

/-- The catch clauses that an exception may enter, and the exit it takes if it can
get past them. -/
def route : Scope → List Nat × Option Exit
  | [] => ([], some .uncaught)
  | .loop :: outer => route outer
  | .region handlers cleanup :: outer =>
    let entries := handlers.map Handler.entry
    if handlers.any Handler.catchesAll then (entries, none)
    else if cleanup.isSome then (entries, some (.cleanup outer.length))
    else
      let (further, exit) := route outer
      (entries ++ further, exit)

/-- The number of frames around the innermost loop. -/
def innermostLoop? : Scope → Option Nat
  | [] => none
  | .loop :: outer => some outer.length
  | .region .. :: outer => innermostLoop? outer

/-- The size of what leaving all frames may have to draw. -/
def weight : Scope → Nat
  | [] => 0
  | frame :: outer => Tree.sizeBlock? frame.cleanup? + 1 + weight outer

end Scope

/-- A graph that is being drawn. -/
structure Builder extends Canvas where
  /-- The edges that will end at the next node. -/
  tips : List Tip := []
  /-- The edges that wait for the target of an exit. -/
  parked : List (Exit × Tip) := []
  /-- The type names met so far. -/
  typeNames : Array String := #[]

namespace Builder

/-- Adds a node without edges. -/
def addNode (b : Builder) (node : Node) : Nat × Builder :=
  let (id, canvas) := b.toCanvas.addNode node
  (id, { b with toCanvas := canvas })

/-- Adds an edge unless there is one like it. -/
def addEdge (b : Builder) (edge : Edge) : Builder :=
  { b with toCanvas := b.toCanvas.addEdge edge }

/-- Ends some tips at a node. -/
def connect (b : Builder) (tips : List Tip) (target : Nat) : Builder :=
  tips.foldl (fun b tip => b.addEdge { source := tip.source, target, kind := tip.kind }) b

/-- Adds a node at the current place, which moves behind it. -/
def push (b : Builder) (node : Node) : Nat × Builder :=
  let (id, drawn) := b.addNode node
  (id, { drawn.connect b.tips id with tips := [{ source := id, kind := .normal }] })

/-- The open tips with another kind. -/
def tipsAs (b : Builder) (kind : EdgeKind) : List Tip :=
  b.tips.map fun tip => { tip with kind }

/-- Notes that a type name is mentioned. -/
def mention (b : Builder) (ty : String) : Builder :=
  { b with typeNames := b.typeNames.push ty }

/-- Parks tips under an exit. -/
def park (b : Builder) (exit : Exit) (tips : List Tip) : Builder :=
  { b with parked := b.parked ++ tips.map fun tip => (exit, tip) }

/-- The tips parked under an exit. -/
def parkedUnder (b : Builder) (exit : Exit) : List Tip :=
  b.parked.filterMap fun entry => if entry.1 = exit then some entry.2 else none

/-- Joins what was parked inside a frame to what was parked before it, without the
exits that end at the frame. -/
def leaveFrame (b : Builder) (before : List (Exit × Tip)) (ending : List Exit) : Builder :=
  { b with parked := before ++ b.parked.filter fun entry => !ending.contains entry.1 }

/-- Raises an exception at a node. -/
def raise (b : Builder) (scope : Scope) (source : Nat) : Builder :=
  let (entries, exit) := scope.route
  let parked := match exit with
    | some exit => b.park exit [{ source, kind := .exception }]
    | none => b
  entries.foldl (fun b target => b.addEdge { source, target, kind := .exception }) parked

/-- Leaves the current place by an exit; only tips that lead on normally take the
kind of the jump. -/
def jump (b : Builder) (exit : Exit) (kind : EdgeKind) : Builder :=
  let tips := b.tips.map fun tip => if tip.kind = .normal then { tip with kind } else tip
  { b.park exit tips with tips := [] }

mutual

/-- Draws an expression; the result is the node of its value. -/
def expr (scope : Scope) (copying : Bool) (b : Builder) : Tree.Expr → Nat × Builder
  | .literal id value => b.push (.at id copying (.literal value) [])
  | .ident id name => b.push (.at id copying (.ident name) [])
  | .assign id target value =>
    let (operand, b) := expr scope copying b value
    b.push (.at id copying (.assign target) [operand])
  | .binary id op lhs rhs =>
    let (left, b) := expr scope copying b lhs
    if op.isShortCircuit then
      let evaluated := b.tipsAs (if op = .and then .onTrue else .onFalse)
      let skipped := b.tipsAs (if op = .and then .onFalse else .onTrue)
      let (right, b) := expr scope copying { b with tips := evaluated } rhs
      { b with tips := b.tips ++ skipped }.push (.at id copying (.binary op) [left, right])
    else
      let (right, b) := expr scope copying b rhs
      let (node, b) := b.push (.at id copying (.binary op) [left, right])
      (node, if op.canThrow then b.raise scope node else b)
  | .unary id op operand =>
    let (value, b) := expr scope copying b operand
    b.push (.at id copying (.unary op) [value])
  | .conditional id cond whenTrue whenFalse =>
    let (test, b) := expr scope copying b cond
    let onTrue := b.tipsAs .onTrue
    let onFalse := b.tipsAs .onFalse
    let (first, b) := expr scope copying { b with tips := onTrue } whenTrue
    let merged := b.tips
    let (second, b) := expr scope copying { b with tips := onFalse } whenFalse
    { b with tips := merged ++ b.tips }.push (.at id copying .conditional [test, first, second])
  | .call id callee args =>
    let (operands, b) := exprs scope copying b args
    let (node, b) := b.push (.at id copying (.call callee) operands)
    (node, b.raise scope node)
  | .new id ty args =>
    let (operands, b) := exprs scope copying (b.mention ty) args
    let (node, b) := b.push (.at id copying (.new ty) operands)
    (node, b.raise scope node)
  | .lambda id _ _ => b.push (.at id copying .lambda [])

/-- Draws expressions in their order. -/
def exprs (scope : Scope) (copying : Bool) (b : Builder) : List Tree.Expr → List Nat × Builder
  | [] => ([], b)
  | value :: values =>
    let (node, b) := expr scope copying b value
    let (nodes, b) := exprs scope copying b values
    (node :: nodes, b)

end

/-- Draws an optional expression; the result is the operands it makes. -/
def expr? (scope : Scope) (copying : Bool) (b : Builder) : Option Tree.Expr → List Nat × Builder
  | none => ([], b)
  | some value =>
    let (node, b) := expr scope copying b value
    ([node], b)

/-- Draws the entries of catch clauses, which only exceptions reach. -/
def enterCatches (copying : Bool) (b : Builder) : List Tree.Catch → List Handler × Builder
  | [] => ([], b)
  | clause :: clauses =>
    let (entry, b) := (b.mention clause.ty).addNode
      (.at clause.id copying (.catchParam clause.name clause.ty) [])
    let (handlers, b) := enterCatches copying b clauses
    ({ entry, catchesAll := catchesAll clause.ty } :: handlers, b)

/-- Closes a loop whose body has been drawn: draws the updates behind the body and
what continues it, leads back to the head, and goes on behind the loop. -/
def closeLoop (scope : Scope) (copying : Bool) (b : Builder) (update : List Tree.Expr) (head : Nat)
    (exits : List Tip) (before : List (Exit × Tip)) : Builder :=
  let frame := scope.length
  let continued := b.parkedUnder (.continues frame)
  let broken := b.parkedUnder (.breaks frame)
  let b := b.leaveFrame before [.breaks frame, .continues frame]
  let (_, b) := exprs scope copying { b with tips := b.tips ++ continued } update
  { b.connect b.tips head with tips := exits ++ broken }

mutual

/-- Draws statements in their order. -/
def stmts (scope : Scope) (copying : Bool) (b : Builder) (list : List Tree.Stmt) : Builder :=
  match list with
  | [] => b
  | first :: rest => stmts scope copying (stmt scope copying b first) rest
termination_by 3 * (Tree.sizeStmts list + scope.weight) + 2
decreasing_by
  · simp only [Tree.sizeStmts]
    omega
  · have := first.size_pos
    simp only [Tree.sizeStmts]
    omega

/-- Draws a statement. -/
def stmt (scope : Scope) (copying : Bool) (b : Builder) (statement : Tree.Stmt) : Builder :=
  match statement with
  | .block inner => stmts scope copying b inner.stmts
  | .localDecl id name ty init =>
    let (operands, b) := expr? scope copying (b.mention ty) init
    (b.push (.at id copying (.decl name) operands)).2
  | .exprStmt _ value => (expr scope copying b value).2
  | .ifElse _ cond whenTrue whenFalse =>
    let (_, b) := expr scope copying b cond
    let onTrue := b.tipsAs .onTrue
    let onFalse := b.tipsAs .onFalse
    let b := stmts scope copying { b with tips := onTrue } whenTrue.stmts
    let merged := b.tips
    let b := match whenFalse with
      | none => { b with tips := onFalse }
      | some block => stmts scope copying { b with tips := onFalse } block.stmts
    { b with tips := merged ++ b.tips }
  | .whileLoop id cond body =>
    let (head, b) := b.push (.at id copying .loopHead [])
    let (_, b) := expr scope copying b cond
    let exits := b.tipsAs .onFalse
    let before := b.parked
    let b := stmts (.loop :: scope) copying
      { b with tips := b.tipsAs .onTrue, parked := [] } body.stmts
    closeLoop scope copying b [] head exits before
  | .forLoop id init cond update body =>
    let b := stmts scope copying b init
    let (head, b) := b.push (.at id copying .loopHead [])
    let (_, b) := expr? scope copying b cond
    let exits := if cond.isSome then b.tipsAs .onFalse else []
    let before := b.parked
    let tips := if cond.isSome then b.tipsAs .onTrue else b.tips
    let b := stmts (.loop :: scope) copying { b with tips, parked := [] } body.stmts
    closeLoop scope copying b update head exits before
  | .returnValue id value =>
    let (operands, b) := expr? scope copying b value
    let (_, b) := b.push (.at id copying .returnValue operands)
    (unwind scope 0 b).jump .returns .returnValue
  | .breakLoop _ =>
    match scope.innermostLoop? with
    | none => { b with tips := [] }
    | some frame => (unwind scope (frame + 1) b).jump (.breaks frame) .breakLoop
  | .continueLoop _ =>
    match scope.innermostLoop? with
    | none => { b with tips := [] }
    | some frame => (unwind scope (frame + 1) b).jump (.continues frame) .continueLoop
  | .throwValue id value =>
    let (operand, b) := expr scope copying b value
    let (node, b) := b.push (.at id copying .throwValue [operand])
    { b with tips := [] }.raise scope node
  | .tryCatch _ body catches cleanup =>
    let (handlers, b) := enterCatches copying b catches
    let before := b.parked
    let b := stmts (.region handlers cleanup :: scope) copying { b with parked := [] } body.stmts
    let b := clauses (.region [] cleanup :: scope) copying b (handlers.map Handler.entry) catches
    let continuation := b.tips
    let raised := b.parkedUnder (.cleanup scope.length)
    let b := b.leaveFrame before [.cleanup scope.length]
    match cleanup with
    | none => b
    | some block =>
      let b :=
        if raised.isEmpty then b
        else
          let (node, b) := (stmts scope true { b with tips := raised } block.stmts).push
            (.implicit .rethrow [])
          b.raise scope node
      stmts scope copying { b with tips := continuation } block.stmts
termination_by 3 * (statement.size + scope.weight) + 1
decreasing_by
  all_goals
    simp only [Tree.Stmt.size, Tree.Block.size_eq, Tree.sizeBlock?, Scope.weight,
      Frame.cleanup?]
    omega

/-- Draws the bodies of catch clauses, each from its entry; the tips behind them
join those that are open. -/
def clauses (scope : Scope) (copying : Bool) (b : Builder) (entries : List Nat)
    (list : List Tree.Catch) : Builder :=
  match entries, list with
  | entry :: entries, clause :: rest =>
    let continuation := b.tips
    let b := stmts scope copying { b with tips := [{ source := entry, kind := .normal }] }
      clause.body.stmts
    clauses scope copying { b with tips := continuation ++ b.tips } entries rest
  | _, _ => b
termination_by 3 * (Tree.sizeCatches list + scope.weight)
decreasing_by
  all_goals
    simp only [Tree.sizeCatches, Tree.Catch.size_eq]
    omega

/-- Draws copies of the `finally` blocks on the way out of the frames that have at
least `keep` frames around them. -/
def unwind (scope : Scope) (keep : Nat) (b : Builder) : Builder :=
  match scope with
  | [] => b
  | frame :: outer =>
    if outer.length < keep then b
    else
      match frame with
      | .region _ (some block) => unwind outer keep (stmts outer true b block.stmts)
      | _ => unwind outer keep b
termination_by 3 * scope.weight
decreasing_by
  all_goals
    simp only [Scope.weight, Frame.cleanup?, Tree.sizeBlock?, Tree.Block.size_eq]
    omega

end

/-- A builder that has drawn the entry of a graph. -/
def start : Builder :=
  (({} : Builder).push (.implicit .entry [])).2

/-- Draws the parameters of a fragment. -/
def params (b : Builder) (names : List String) : Builder :=
  names.foldl (fun b name => (b.push (.implicit (.param name) [])).2) b

/-- Draws the code of a fragment; an expression as the body of a lambda is
returned. -/
def code (b : Builder) : Fragment.Code → Builder
  | .method decl =>
    let b := decl.params.foldl (fun b param => (b.mention param.ty).params [param.name]) b
    match decl.body with
    | none => b
    | some body => stmts [] false b body.stmts
  | .lambda _ names (.block body) => stmts [] false (b.params names) body.stmts
  | .lambda _ names (.value result) =>
    let (operand, b) := expr [] false (b.params names) result
    let (_, b) := b.push (.implicit .returnValue [operand])
    b.jump .returns .returnValue
  | .initializer body => stmts [] false b body.stmts
  | .fieldInitializer decl init =>
    let (operand, b) := expr [] false (b.mention decl.ty) init
    (b.push (.at decl.id false (.decl decl.name) [operand])).2

/-- Ends some tips at a new node. -/
def endAt (b : Builder) (action : Action) (tips : List Tip) : Builder :=
  (b.addNode (.implicit action [])).2.connect tips b.nodes.size

/-- The drawing of a graph with both exits. -/
def ended (b : Builder) : Builder :=
  (b.endAt .exit (b.tips ++ b.parkedUnder .returns)).endAt .exceptionalExit
    (b.parkedUnder .uncaught)

/-- Draws the exits and ends there what is still open. -/
def finish (b : Builder) (label : String) : Graph :=
  { label, nodes := b.ended.nodes, edges := b.ended.edges, index := b.ended.index
    exit := b.nodes.size
    exceptionalExit := (b.endAt .exit (b.tips ++ b.parkedUnder .returns)).nodes.size
    freeNames := (usedNames b.ended.nodes).diff (declaredNames b.ended.nodes) }

end Builder

/-- The builder after all code of a fragment. -/
def draw (fragment : Fragment) : Builder :=
  Builder.start.code fragment.code

end Graph

end FragmentFlow
