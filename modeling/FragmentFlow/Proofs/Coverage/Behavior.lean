import FragmentFlow.Proofs.Drawing.Builder

/-!
# Structured executions

The nondeterministic reading of code.  A behavior is the set of the finite
executions of a piece of code; an execution is known by the nodes of the tree that
it evaluates, in their order, and by the way it ends.  Values play no part: a
condition may turn out either way, and what can raise may raise.
-/

namespace FragmentFlow

/-- How an execution ends. -/
inductive Ending where
  | normal
  | breaks
  | continues
  | returns
  | raises
  deriving DecidableEq, Repr

/-- The finite executions of a piece of code. -/
abbrev Behavior := List Nat → Ending → Prop

namespace Behavior

/-- Nothing is evaluated. -/
inductive nothing : Behavior
  | intro : nothing [] .normal

/-- There is no execution. -/
def never : Behavior := fun _ _ => False

/-- A node of the tree is evaluated. -/
inductive evaluates (id : Nat) : Behavior
  | intro : evaluates id [id] .normal

/-- A node of the tree is evaluated and may raise. -/
inductive mayRaise (id : Nat) : Behavior
  | completes : mayRaise id [id] .normal
  | raises : mayRaise id [id] .raises

/-- The execution ends in some way at once. -/
inductive ends (ending : Ending) : Behavior
  | intro : ends ending [] ending

/-- The second behavior follows where the first one ends normally. -/
inductive andThen (first second : Behavior) : Behavior
  | next {trace rest : List Nat} {ending : Ending} :
      first trace .normal → second rest ending → andThen first second (trace ++ rest) ending
  | cut {trace : List Nat} {ending : Ending} :
      first trace ending → ending ≠ .normal → andThen first second trace ending

/-- One of two behaviors is chosen. -/
inductive either (first second : Behavior) : Behavior
  | first {trace : List Nat} {ending : Ending} :
      first trace ending → either first second trace ending
  | second {trace : List Nat} {ending : Ending} :
      second trace ending → either first second trace ending

/-- The body of a loop, in which `continue` only ends the body. -/
inductive turn (body : Behavior) : Behavior
  | continued {trace : List Nat} : body trace .continues → turn body trace .normal
  | ended {trace : List Nat} {ending : Ending} :
      body trace ending → ending ≠ .continues → turn body trace ending

/-- A loop: it is left after a test, if the test can fail, or by an iteration that
does not end normally; an iteration begins with the test. -/
inductive loop (canFail : Bool) (test iteration : Behavior) : Behavior
  | leave {trace : List Nat} :
      canFail = true → test trace .normal → loop canFail test iteration trace .normal
  | again {trace rest : List Nat} {ending : Ending} :
      iteration trace .normal → loop canFail test iteration rest ending →
        loop canFail test iteration (trace ++ rest) ending
  | broken {trace : List Nat} :
      iteration trace .breaks → loop canFail test iteration trace .normal
  | cut {trace : List Nat} {ending : Ending} :
      iteration trace ending → ending ≠ .normal → ending ≠ .breaks →
        loop canFail test iteration trace ending

/-- A loop as a whole: every iteration starts at the node of the loop and its
condition, and goes on with the body and the updates. -/
def repeats (id : Nat) (canFail : Bool) (cond body update : Behavior) : Behavior :=
  let test := (evaluates id).andThen cond
  loop canFail test (test.andThen ((turn body).andThen update))

/-- The executions that do not end with a `break`. -/
def unbroken (behavior : Behavior) : Behavior :=
  fun trace ending => behavior trace ending ∧ ending ≠ .breaks

/-- Catch clauses handle what a body raises, or else it passes them unless one of
them stops everything. -/
inductive caught (stopsAll : Bool) (body clauses : Behavior) : Behavior
  | unraised {trace : List Nat} {ending : Ending} :
      body trace ending → ending ≠ .raises → caught stopsAll body clauses trace ending
  | handled {trace rest : List Nat} {ending : Ending} :
      body trace .raises → clauses rest ending → caught stopsAll body clauses (trace ++ rest) ending
  | passed {trace : List Nat} :
      body trace .raises → stopsAll = false → caught stopsAll body clauses trace .raises

/-- A `finally` block runs after every way out, which is resumed unless the block
itself ends abruptly. -/
inductive cleanedUp (inner cleanup : Behavior) : Behavior
  | resumed {trace rest : List Nat} {ending : Ending} :
      inner trace ending → cleanup rest .normal → cleanedUp inner cleanup (trace ++ rest) ending
  | replaced {trace rest : List Nat} {before ending : Ending} :
      inner trace before → cleanup rest ending → ending ≠ .normal →
        cleanedUp inner cleanup (trace ++ rest) ending

/-- Only an exception can cut the executions of a behavior short. -/
def Plain (behavior : Behavior) : Prop :=
  ∀ trace ending, behavior trace ending → ending = .normal ∨ ending = .raises

/-- Doing nothing completes. -/
theorem plain_nothing : Plain nothing := by
  rintro _ _ ⟨⟩
  exact Or.inl rfl

/-- An evaluation completes. -/
theorem plain_evaluates (id : Nat) : Plain (evaluates id) := by
  rintro _ _ ⟨⟩
  exact Or.inl rfl

/-- An evaluation that may raise completes or raises. -/
theorem plain_mayRaise (id : Nat) : Plain (mayRaise id) := by
  rintro _ _ (_ | _)
  · exact Or.inl rfl
  · exact Or.inr rfl

/-- A sequence of plain behaviors is plain. -/
theorem Plain.andThen {first second : Behavior} (one : Plain first) (other : Plain second) :
    Plain (first.andThen second) := by
  rintro _ _ (⟨_, rest⟩ | ⟨start, _⟩)
  · exact other _ _ rest
  · exact one _ _ start

/-- A choice of plain behaviors is plain. -/
theorem Plain.either {first second : Behavior} (one : Plain first) (other : Plain second) :
    Plain (first.either second) := by
  rintro _ _ (run | run)
  · exact one _ _ run
  · exact other _ _ run

/-- An iteration that does not end with a `break` has none in its body. -/
theorem iteration_unbroken {test body update : Behavior} {trace : List Nat} {ending : Ending}
    (run : test.andThen ((turn body).andThen update) trace ending) (other : ending ≠ .breaks) :
    test.andThen ((unbroken (turn body)).andThen update) trace ending := by
  cases run with
  | cut start cut => exact .cut start cut
  | next start rest =>
      cases rest with
      | cut body cut => exact .next start (.cut ⟨body, other⟩ cut)
      | next body rest => exact .next start (.next ⟨body, Ending.noConfusion⟩ rest)

/-- An iteration that ends with a `break` does so in its body. -/
theorem iteration_breaks {test body update : Behavior} {trace : List Nat}
    (testPlain : Plain test) (updatePlain : Plain update)
    (run : test.andThen ((turn body).andThen update) trace .breaks) :
    ∃ start rest, trace = start ++ rest ∧ test start .normal ∧ body rest .breaks := by
  cases run with
  | cut start cut => rcases testPlain _ _ start with same | same <;> cases same
  | next start rest =>
      cases rest with
      | cut body cut =>
          cases body with
          | ended body _ => exact ⟨_, _, rfl, start, body⟩
      | next body rest => rcases updatePlain _ _ rest with same | same <;> cases same

end Behavior

namespace Tree

open Behavior

mutual

/-- The executions of an expression: the operands from left to right, then the
expression itself. -/
def Expr.behavior : Expr → Behavior
  | .literal id _ => evaluates id
  | .ident id _ => evaluates id
  | .assign id _ value => value.behavior.andThen (evaluates id)
  | .binary id op lhs rhs =>
    if op.isShortCircuit then
      lhs.behavior.andThen ((rhs.behavior.either nothing).andThen (evaluates id))
    else if op.canThrow then
      lhs.behavior.andThen (rhs.behavior.andThen (mayRaise id))
    else lhs.behavior.andThen (rhs.behavior.andThen (evaluates id))
  | .unary id _ operand => operand.behavior.andThen (evaluates id)
  | .conditional id cond whenTrue whenFalse =>
    cond.behavior.andThen ((whenTrue.behavior.either whenFalse.behavior).andThen (evaluates id))
  | .call id _ args => (behaviorExprs args).andThen (mayRaise id)
  | .new id _ args => (behaviorExprs args).andThen (mayRaise id)
  | .lambda id _ _ => evaluates id

/-- The executions of expressions one after the other. -/
def behaviorExprs : List Expr → Behavior
  | [] => nothing
  | expr :: exprs => expr.behavior.andThen (behaviorExprs exprs)

end

/-- The executions of an optional expression. -/
def behaviorExpr? : Option Expr → Behavior
  | none => nothing
  | some expr => expr.behavior

mutual

/-- Only an exception can cut the evaluation of an expression short. -/
theorem Expr.behavior_plain (expr : Expr) : Plain expr.behavior := by
  match expr with
  | .literal id _ | .ident id _ | .lambda id _ _ => exact plain_evaluates id
  | .assign id _ value | .unary id _ value =>
      exact value.behavior_plain.andThen (plain_evaluates id)
  | .binary id op lhs rhs =>
      rw [Expr.behavior]
      split
      · exact lhs.behavior_plain.andThen
          ((rhs.behavior_plain.either plain_nothing).andThen (plain_evaluates id))
      · split
        · exact lhs.behavior_plain.andThen (rhs.behavior_plain.andThen (plain_mayRaise id))
        · exact lhs.behavior_plain.andThen (rhs.behavior_plain.andThen (plain_evaluates id))
  | .conditional id cond whenTrue whenFalse =>
      exact cond.behavior_plain.andThen
        ((whenTrue.behavior_plain.either whenFalse.behavior_plain).andThen (plain_evaluates id))
  | .call id _ args | .new id _ args =>
      exact (behaviorExprs_plain args).andThen (plain_mayRaise id)

/-- Expressions complete or raise. -/
theorem behaviorExprs_plain (exprs : List Expr) : Plain (behaviorExprs exprs) := by
  match exprs with
  | [] => exact plain_nothing
  | expr :: exprs => exact expr.behavior_plain.andThen (behaviorExprs_plain exprs)

end

/-- An expression that may be missing completes or raises. -/
theorem behaviorExpr?_plain (expr : Option Expr) : Plain (behaviorExpr? expr) := by
  cases expr with
  | none => exact plain_nothing
  | some expr => exact expr.behavior_plain

/-- Whether some catch clause stops every exception. -/
def stopsAll (catches : List Catch) : Bool :=
  catches.any fun clause => Graph.catchesAll clause.ty

mutual

/-- The executions of a block. -/
def Block.behavior : Block → Behavior
  | .mk _ _ stmts => behaviorStmts stmts

/-- The executions of a statement. -/
def Stmt.behavior : Stmt → Behavior
  | .localDecl id _ _ init => (behaviorExpr? init).andThen (evaluates id)
  | .exprStmt _ expr => expr.behavior
  | .ifElse _ cond whenTrue whenFalse =>
    cond.behavior.andThen (whenTrue.behavior.either (behaviorBlock? whenFalse))
  | .whileLoop id cond body => repeats id true cond.behavior body.behavior nothing
  | .forLoop id init cond update body =>
    (behaviorStmts init).andThen
      (repeats id cond.isSome (behaviorExpr? cond) body.behavior (behaviorExprs update))
  | .returnValue id value =>
    (behaviorExpr? value).andThen ((evaluates id).andThen (ends .returns))
  | .breakLoop _ => ends .breaks
  | .continueLoop _ => ends .continues
  | .throwValue id value => value.behavior.andThen ((evaluates id).andThen (ends .raises))
  | .tryCatch _ body catches cleanup =>
    (caught (stopsAll catches) body.behavior (behaviorCatches catches)).cleanedUp
      (behaviorBlock? cleanup)
  | .block inner => inner.behavior

/-- The executions of a catch clause from its entry. -/
def Catch.behavior : Catch → Behavior
  | .mk id _ _ body => (evaluates id).andThen body.behavior

/-- The executions of statements one after the other. -/
def behaviorStmts : List Stmt → Behavior
  | [] => nothing
  | stmt :: stmts => stmt.behavior.andThen (behaviorStmts stmts)

/-- The executions of an optional block. -/
def behaviorBlock? : Option Block → Behavior
  | none => nothing
  | some block => block.behavior

/-- The executions of any one of some catch clauses. -/
def behaviorCatches : List Catch → Behavior
  | [] => never
  | clause :: clauses => clause.behavior.either (behaviorCatches clauses)

end

theorem Block.behavior_eq (block : Block) : block.behavior = behaviorStmts block.stmts := by
  cases block
  simp only [Block.behavior, Block.stmts]

theorem Catch.behavior_eq (clause : Catch) :
    clause.behavior = (evaluates clause.id).andThen (behaviorStmts clause.body.stmts) := by
  cases clause
  simp only [Catch.behavior, Catch.id, Catch.body, Block.behavior_eq]

/-! ### Jumps that stay inside -/

mutual

/-- Whether every `break` and `continue` of a block lies in the body of a loop, given
whether the block does. -/
def Block.jumpsWithin (inLoop : Bool) : Block → Bool
  | .mk _ _ stmts => jumpsWithinStmts inLoop stmts

/-- Whether every `break` and `continue` of a statement lies in the body of a
loop. -/
def Stmt.jumpsWithin (inLoop : Bool) : Stmt → Bool
  | .ifElse _ _ whenTrue whenFalse =>
    whenTrue.jumpsWithin inLoop && jumpsWithinBlock? inLoop whenFalse
  | .whileLoop _ _ body => body.jumpsWithin true
  | .forLoop _ init _ _ body => jumpsWithinStmts inLoop init && body.jumpsWithin true
  | .breakLoop _ | .continueLoop _ => inLoop
  | .tryCatch _ body catches cleanup =>
    body.jumpsWithin inLoop && jumpsWithinCatches inLoop catches &&
      jumpsWithinBlock? inLoop cleanup
  | .block inner => inner.jumpsWithin inLoop
  | .localDecl .. | .exprStmt .. | .returnValue .. | .throwValue .. => true

/-- Whether every `break` and `continue` of a catch clause lies in the body of a
loop. -/
def Catch.jumpsWithin (inLoop : Bool) : Catch → Bool
  | .mk _ _ _ body => body.jumpsWithin inLoop

/-- Whether every `break` and `continue` of some statements lies in the body of a
loop. -/
def jumpsWithinStmts (inLoop : Bool) : List Stmt → Bool
  | [] => true
  | stmt :: stmts => stmt.jumpsWithin inLoop && jumpsWithinStmts inLoop stmts

/-- Whether every `break` and `continue` of an optional block lies in the body of a
loop. -/
def jumpsWithinBlock? (inLoop : Bool) : Option Block → Bool
  | none => true
  | some block => block.jumpsWithin inLoop

/-- Whether every `break` and `continue` of some catch clauses lies in the body of a
loop. -/
def jumpsWithinCatches (inLoop : Bool) : List Catch → Bool
  | [] => true
  | clause :: clauses => clause.jumpsWithin inLoop && jumpsWithinCatches inLoop clauses

end

theorem Block.jumpsWithin_eq (inLoop : Bool) (block : Block) :
    block.jumpsWithin inLoop = jumpsWithinStmts inLoop block.stmts := by
  cases block
  simp only [Block.jumpsWithin, Block.stmts]

theorem Catch.jumpsWithin_eq (inLoop : Bool) (clause : Catch) :
    clause.jumpsWithin inLoop = jumpsWithinStmts inLoop clause.body.stmts := by
  cases clause
  simp only [Catch.jumpsWithin, Catch.body, Block.jumpsWithin_eq]

end Tree

namespace Fragment

open Behavior

/-- The executions of a fragment.  An expression as the body of a lambda is
returned; the initial value of a field is given to the field. -/
def Code.behavior : Code → Behavior
  | .method decl => Tree.behaviorBlock? decl.body
  | .lambda _ _ (.block body) => body.behavior
  | .lambda _ _ (.value result) => result.behavior.andThen (ends .returns)
  | .initializer body => body.behavior
  | .fieldInitializer decl init => init.behavior.andThen (evaluates decl.id)

/-- Whether every `break` and `continue` of a fragment lies in the body of one of its
loops. -/
def Code.jumpsWithin : Code → Bool
  | .method decl => Tree.jumpsWithinBlock? false decl.body
  | .lambda _ _ (.block body) => body.jumpsWithin false
  | .initializer body => body.jumpsWithin false
  | .lambda _ _ (.value _) | .fieldInitializer .. => true

end Fragment

end FragmentFlow
