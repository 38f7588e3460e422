import FragmentFlow.Check.Diagnostic
import FragmentFlow.Session.Basic

/-!
# Checkers

A checker looks for one kind of mistake in a fragment, with the help of a
session.  It asks the session only if the fragment has a place where the mistake
can be.
-/

namespace FragmentFlow

/-- A session that knows the analyses of this library. -/
abbrev StandardSession := Session Family.standard

/-- A node and what is to be said about it. -/
structure Finding where
  node : Tree.Node
  message : String

/-- Looks for one kind of mistake. -/
structure Checker where
  name : String
  severity : Severity
  find : StandardSession → Fragment → Environment → Except Failure (List Finding) × StandardSession

namespace Checker

/-- What a checker finds in a fragment, as diagnostics. -/
def diagnose (checker : Checker) (session : StandardSession) (fragment : Fragment)
    (env : Environment) : Except Failure (List Diagnostic) × StandardSession :=
  let (found, session) := checker.find session fragment env
  (found.map fun findings => findings.map fun finding =>
    .atNode checker.name checker.severity fragment finding.node finding.message, session)

/-- Findings at some places of a fragment by the constants there, with folding.
Without such places there is nothing to ask. -/
def findByConstants {α : Type} (places : List α)
    (judge : (Nat → Option Constant) → α → Option Finding) (session : StandardSession)
    (fragment : Fragment) (env : Environment) :
    Except Failure (List Finding) × StandardSession :=
  if places.isEmpty then (.ok [], session)
  else
    let (result, session) := session.fragmentResult fragment env (.constants true)
    (result.map fun result => places.filterMap (judge result.valueAt), session)

end Checker

namespace Tree.Node

/-- The condition that a node tests. -/
def condition? : Node → Option Expr
  | stmt (.ifElse _ cond _ _) | stmt (.whileLoop _ cond _) | expr (.conditional _ cond _ _) =>
    some cond
  | stmt (.forLoop _ _ cond _ _) => cond
  | _ => none

/-- The operator and the divisor of a division or a remainder. -/
def division? : Node → Option (BinaryOp × Expr)
  | expr (.binary _ op _ rhs) => if op.canThrow then some (op, rhs) else none
  | _ => none

end Tree.Node

/-- Whether an expression is a literal. -/
def Tree.Expr.isLiteral : Tree.Expr → Bool
  | .literal .. => true
  | _ => false

namespace Fragment

/-- The conditions of a fragment that are not literals; those are meant as they
stand. -/
def conditions (fragment : Fragment) : List Tree.Expr :=
  (fragment.nodes.filterMap Tree.Node.condition?).filter fun cond => !cond.isLiteral

/-- The divisions and remainders of a fragment, with their divisors. -/
def divisions (fragment : Fragment) : List (Tree.Node × BinaryOp × Tree.Expr) :=
  fragment.nodes.filterMap fun node => node.division?.map fun division => (node, division)

end Fragment

namespace Checker

/-- Finds conditions that have the same truth value every time. -/
def constantCondition : Checker where
  name := "constant-condition"
  severity := .warning
  find session fragment env :=
    findByConstants fragment.conditions
      (fun valueOf cond =>
        match valueOf cond.id with
        | some (.bool value) =>
          some ⟨.expr cond, "condition is always " ++ if value then "true" else "false"⟩
        | _ => none)
      session fragment env

/-- Finds divisions and remainders by zero. -/
def divisionByZero : Checker where
  name := "division-by-zero"
  severity := .error
  find session fragment env :=
    findByConstants fragment.divisions
      (fun valueOf (node, op, divisor) =>
        if valueOf divisor.id = some (.int 0) then
          some ⟨node, if op = .rem then "remainder by zero" else "division by zero"⟩
        else none)
      session fragment env

/-- The checkers that are used unless others are chosen. -/
def standard : List Checker :=
  [constantCondition, divisionByZero]

end Checker

end FragmentFlow
