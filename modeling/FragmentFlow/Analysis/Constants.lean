import FragmentFlow.Analysis.Basic
import FragmentFlow.Store

/-!
# Constant propagation

Which variables and expressions have one known value.  All variables are unknown
at the entry.  A call or an instance creation may write every free name of the
fragment, whether it returns or raises.  Arithmetic and comparisons are folded
only on demand; integers are signed 64-bit words, and what overflows or raises is
not a constant.
-/

namespace FragmentFlow

namespace Constant

/-- An integer as a word, if it fits. -/
def word? (value : Int) : Option Constant :=
  if Int64.minValue.toInt ≤ value ∧ value ≤ Int64.maxValue.toInt then
    some (.int (Int64.ofInt value))
  else none

/-- Folds an operation on two integers.  Division rounds toward zero; a remainder
exists only where the quotient does. -/
def foldInts (op : BinaryOp) (a b : Int64) : Option Constant :=
  match op with
  | .add => word? (a.toInt + b.toInt)
  | .sub => word? (a.toInt - b.toInt)
  | .mul => word? (a.toInt * b.toInt)
  | .div => if b = 0 then none else word? (a.toInt.tdiv b.toInt)
  | .rem =>
    if b = 0 then none
    else (word? (a.toInt.tdiv b.toInt)).bind fun _ => word? (a.toInt.tmod b.toInt)
  | .eq => some (.bool (a == b))
  | .ne => some (.bool (a != b))
  | .lt => some (.bool (a < b))
  | .le => some (.bool (a ≤ b))
  | .gt => some (.bool (b < a))
  | .ge => some (.bool (b ≤ a))
  | .and | .or => none

/-- Folds a test for equality with a known outcome. -/
def foldEquality (op : BinaryOp) (equal : Bool) : Option Constant :=
  match op with
  | .eq => some (.bool equal)
  | .ne => some (.bool !equal)
  | _ => none

/-- Folds an operation on two known constants, if its result is one.  A string is
never null, and strings are not compared. -/
def fold (op : BinaryOp) (lhs rhs : Constant) : Option Constant :=
  match lhs, rhs with
  | .null, .null => foldEquality op true
  | .null, .str _ | .str _, .null => foldEquality op false
  | .int a, .int b => foldInts op a b
  | .bool a, .bool b => foldEquality op (a == b)
  | .str a, .str b => if op = .add then some (.str (a ++ b)) else none
  | _, _ => none

/-- The value of a binary expression.  The left operand of `and` and `or` decides
when it is known; the right one may not have been evaluated then. -/
def binary (folding : Bool) (op : BinaryOp) (lhs rhs : Constant) : Constant :=
  match op with
  | .and =>
    match lhs with
    | .bottom => .bottom
    | .bool false => .bool false
    | .bool true => rhs
    | _ => .top
  | .or =>
    match lhs with
    | .bottom => .bottom
    | .bool true => .bool true
    | .bool false => rhs
    | _ => .top
  | _ =>
    if lhs = .bottom ∨ rhs = .bottom then .bottom
    else if folding then (fold op lhs rhs).getD .top
    else .top

/-- The value of a unary expression. -/
def unary (folding : Bool) (op : UnaryOp) (operand : Constant) : Constant :=
  match op, operand with
  | _, .bottom => .bottom
  | .not, .bool value => .bool !value
  | .neg, .int value => if folding then (word? (-value.toInt)).getD .top else .top
  | _, _ => .top

/-- The value of a conditional expression. -/
def conditional (test whenTrue whenFalse : Constant) : Constant :=
  match test with
  | .bool true => whenTrue
  | .bool false => whenFalse
  | .bottom => .bottom
  | _ => whenTrue.join whenFalse

end Constant

namespace Graph

/-- A store in which the free names of a graph are unknown. -/
def forgetFree (graph : Graph) (store : Store) : Store :=
  store.setAll graph.freeNames.names .top

/-- Whether a node runs code outside the fragment. -/
def Action.leavesFragment : Action → Bool
  | call _ | new _ => true
  | _ => false

end Graph

namespace Constants

/-- The value of an action and the store after it, from the store before it and the
values of its operands. -/
def transferAction (folding : Bool) (graph : Graph) (action : Graph.Action) (store : Store)
    (operands : List Constant) : Option Constant × Store :=
  let operand (index : Nat) := operands[index]?.getD .bottom
  match action with
  | .param name | .catchParam name _ => (none, store.set name .top)
  | .decl name => (none, if operands.isEmpty then store else store.set name (operand 0))
  | .literal value => (some (.ofLiteral value), store)
  | .ident name => (some (store.get name), store)
  | .assign target => (some (operand 0), store.set target (operand 0))
  | .binary op => (some (.binary folding op (operand 0) (operand 1)), store)
  | .unary op => (some (.unary folding op (operand 0)), store)
  | .conditional => (some (.conditional (operand 0) (operand 1) (operand 2)), store)
  | .call _ | .new _ => (some .top, graph.forgetFree store)
  | .lambda => (some .top, store)
  | .entry | .exit | .exceptionalExit | .returnValue | .throwValue | .loopHead | .rethrow =>
    (none, store)

/-- The value of a node and the store after it.  An operand that has not been
reached is at bottom. -/
def transfer (folding : Bool) (graph : Graph) (node : Nat) (store : Store)
    (values : Nat → Option Constant) : Option Constant × Store :=
  match graph.nodes[node]? with
  | none => (none, store)
  | some node =>
    transferAction folding graph node.action store
      (node.operands.map fun operand => (values operand).getD .bottom)

/-- The store that an edge carries: what a call wrote before it raised is
unknown. -/
def onEdge (graph : Graph) (edge : Graph.Edge) (store : Store) : Store :=
  let calls := graph.nodes[edge.source]?.any fun node => node.action.leavesFragment
  if edge.kind = .exception ∧ calls then graph.forgetFree store else store

/-- Constant propagation, with or without folding. -/
def analysis (folding : Bool) : Analysis Constant Store where
  initial graph := .topFor graph.variableNames.names
  transfer := transfer folding
  onEdge := onEdge
  join := Store.join
  joinValues := Constant.join

end Constants

end FragmentFlow
