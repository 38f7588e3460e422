import FragmentFlow.Analysis.Constants
import Mathlib.Logic.Function.Basic

/-!
# Runs of a flow graph

How a fragment is executed node by node, along the edges of its graph.  Integers are
signed 64-bit words.  What the fragment does not determine may be anything: the values
of variables at the start, of parameters and of caught exceptions, the results of calls
and the free names after them, and the result of an operator on operands for which it
has none, as when it overflows.
-/

namespace FragmentFlow

/-- A value at run time. -/
inductive Datum where
  | int (value : Int64)
  | bool (value : Bool)
  | str (value : String)
  | null
  /-- An instance or a lambda. -/
  | object (identity : Nat)
  deriving DecidableEq, Repr

namespace Datum

def ofLiteral : Literal → Datum
  | .int value => int value
  | .bool value => bool value
  | .str value => str value
  | .null => null

/-- The result of an operation on words, if it is the one of the operation on
integers. -/
def inRange? (result : Int64) (value : Int) : Option Datum :=
  if result.toInt = value then some (int result) else none

/-- Whether two values are equal; strings may be equal without being the same. -/
def same? : Datum → Datum → Option Bool
  | int a, int b => some (a = b)
  | bool a, bool b => some (a = b)
  | object a, object b => some (a = b)
  | null, null => some true
  | null, str _ | null, object _ | str _, null | object _, null => some false
  | _, _ => none

/-- The result of a binary operator that evaluates both operands. -/
def binary? (op : BinaryOp) (lhs rhs : Datum) : Option Datum :=
  match op, lhs, rhs with
  | .eq, a, b => (same? a b).map bool
  | .ne, a, b => (same? a b).map fun same => bool !same
  | .add, str a, str b => some (str (a ++ b))
  | .add, int a, int b => inRange? (a + b) (a.toInt + b.toInt)
  | .sub, int a, int b => inRange? (a - b) (a.toInt - b.toInt)
  | .mul, int a, int b => inRange? (a * b) (a.toInt * b.toInt)
  | .div, int a, int b => if b = 0 then none else inRange? (a / b) (a.toInt.tdiv b.toInt)
  | .rem, int a, int b => if b = 0 then none else some (int (a % b))
  | .lt, int a, int b => some (bool (a.toInt < b.toInt))
  | .le, int a, int b => some (bool (a.toInt ≤ b.toInt))
  | .gt, int a, int b => some (bool (b.toInt < a.toInt))
  | .ge, int a, int b => some (bool (b.toInt ≤ a.toInt))
  | _, _, _ => none

/-- The result of a unary operator. -/
def unary? : UnaryOp → Datum → Option Datum
  | .not, bool value => some (bool !value)
  | .neg, int value => inRange? (-value) (-value.toInt)
  | _, _ => none

/-- The result of `and` or `or`: the left operand if it decides, or else the right
one. -/
def shortCircuit? (op : BinaryOp) (lhs rhs : Option Datum) : Option Datum :=
  match lhs with
  | some (bool value) => if value = decide (op = .or) then some (bool value) else rhs
  | _ => none

/-- Control may take an edge behind a value: a truth value decides between the
edges of a branch. -/
def Permits (value : Datum) : Graph.EdgeKind → Prop
  | .onTrue => value ≠ bool false
  | .onFalse => value ≠ bool true
  | _ => True

/-- A value is the given one, if one is given. -/
def Agrees (given : Option Datum) (value : Datum) : Prop :=
  ∀ known, given = some known → value = known

end Datum

/-- The values of variables. -/
abbrev Env := String → Datum

namespace Graph

open Datum (Agrees)

/-- A node evaluates with some values of its operands, to a value of its own if it is
an expression, and leaves an environment. -/
inductive Evaluates (graph : Graph) (env : Env) :
    Action → List (Option Datum) → Option Datum → Env → Prop
  | param {name : String} {operands : List (Option Datum)} (given : Datum) :
      Evaluates graph env (.param name) operands none (Function.update env name given)
  | caught {name ty : String} {operands : List (Option Datum)} (given : Datum) :
      Evaluates graph env (.catchParam name ty) operands none (Function.update env name given)
  | declared {name : String} : Evaluates graph env (.decl name) [] none env
  | initialized {name : String} {operand : Option Datum} {operands : List (Option Datum)}
      {value : Datum} : Agrees operand value →
        Evaluates graph env (.decl name) (operand :: operands) none (Function.update env name value)
  | literal {value : Literal} {operands : List (Option Datum)} :
      Evaluates graph env (.literal value) operands (some (.ofLiteral value)) env
  | ident {name : String} {operands : List (Option Datum)} :
      Evaluates graph env (.ident name) operands (some (env name)) env
  | assign {target : String} {operands : List (Option Datum)} {value : Datum} :
      Agrees operands[0]?.join value →
        Evaluates graph env (.assign target) operands (some value)
          (Function.update env target value)
  | strict {op : BinaryOp} {operands : List (Option Datum)} {value : Datum} :
      op.isShortCircuit = false →
        (∀ lhs rhs, operands[0]?.join = some lhs → operands[1]?.join = some rhs →
          Agrees (lhs.binary? op rhs) value) →
          Evaluates graph env (.binary op) operands (some value) env
  | shortCircuit {op : BinaryOp} {operands : List (Option Datum)} {value : Datum} :
      op.isShortCircuit = true →
        Agrees (Datum.shortCircuit? op operands[0]?.join operands[1]?.join) value →
          Evaluates graph env (.binary op) operands (some value) env
  | unary {op : UnaryOp} {operands : List (Option Datum)} {value : Datum} :
      (∀ operand, operands[0]?.join = some operand → Agrees (Datum.unary? op operand) value) →
        Evaluates graph env (.unary op) operands (some value) env
  /-- The condition decides between the branches; one that is no truth value does not. -/
  | conditional {operands : List (Option Datum)} {value : Datum} :
      (operands[0]?.join = some (.bool true) → Agrees operands[1]?.join value) →
        (operands[0]?.join = some (.bool false) → Agrees operands[2]?.join value) →
          ((∀ truth, operands[0]?.join ≠ some (.bool truth)) →
            operands[1]?.join = some value ∨ operands[2]?.join = some value) →
            Evaluates graph env .conditional operands (some value) env
  | outside {action : Action} {operands : List (Option Datum)} {value : Datum} {after : Env} :
      action.leavesFragment = true →
      (∀ name, name ∉ graph.freeNames.names → after name = env name) →
        Evaluates graph env action operands (some value) after
  | lambda {operands : List (Option Datum)} (value : Datum) :
      Evaluates graph env .lambda operands (some value) env
  | passed {action : Action} {operands : List (Option Datum)} :
      action ∈ [.entry, .exit, .exceptionalExit, .returnValue, .throwValue, .loopHead, .rethrow] →
        Evaluates graph env action operands none env

/-- A node raises and leaves an environment: only what runs outside the fragment may
have changed it. -/
def Raises (graph : Graph) (env : Env) (action : Action) (after : Env) : Prop :=
  action.canThrow = true ∧
    ∀ name, action.leavesFragment = false ∨ name ∉ graph.freeNames.names → after name = env name

/-- A run at a node that is evaluated next. -/
structure State where
  node : Nat
  env : Env
  /-- The latest values of all nodes. -/
  latest : Nat → Option Datum

/-- The values that a node finds for its operands. -/
def State.operands (state : State) (node : Node) : List (Option Datum) :=
  node.operands.map state.latest

/-- A run goes on along an edge. -/
inductive Step (graph : Graph) (state : State) : State → Prop
  | completes {node : Node} {value : Option Datum} {env : Env} {edge : Edge} :
      graph.nodes[state.node]? = some node →
        Evaluates graph state.env node.action (state.operands node) value env →
          edge ∈ graph.successors state.node → edge.kind ≠ .exception →
            (∀ known, value = some known → known.Permits edge.kind) →
              Step graph state
                { node := edge.target, env,
                  latest := Function.update state.latest state.node value }
  | raises {node : Node} {env : Env} {edge : Edge} :
      graph.nodes[state.node]? = some node → Raises graph state.env node.action env →
        edge ∈ graph.successors state.node → edge.kind = .exception →
          Step graph state { state with node := edge.target, env }

/-- A run from the entry comes to a state. -/
inductive Runs (graph : Graph) : State → Prop
  | start (env : Env) : Runs graph { node := Graph.entry, env, latest := fun _ => none }
  | step {state next : State} : Runs graph state → Step graph state next → Runs graph next

end Graph

end FragmentFlow
