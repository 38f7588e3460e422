import FragmentFlow.Proofs.Constants.Lattice
import FragmentFlow.Proofs.Solver.Equations
import FragmentFlow.Proofs.Solver.OnePass
import FragmentFlow.Analysis.Constants

/-!
# What the facts of constant propagation depend on

A transfer reads the values of operands only where they count.  Without loop heads
these are final when a node is evaluated, so that the solution satisfies the equations
with the values it records.
-/

namespace FragmentFlow.Constants

variable {folding : Bool} {graph : Graph} {id : Nat} {node : Graph.Node} {store : Store}
  {values others : Nat → Option Constant}

theorem transfer_eq (found : graph.nodes[id]? = some node) (store : Store)
    (values : Nat → Option Constant) : transfer folding graph id store values =
      transferAction folding graph node.action store
        (node.operands.map fun operand => (values operand).getD .bottom) := by
  rw [transfer, found]

/-- Actions without operands do not look at them. -/
theorem transferAction_of_unused {action : Graph.Action} (unused : action.usesOperands = false)
    (operands more : List Constant) :
    transferAction folding graph action store operands =
      transferAction folding graph action store more := by
  cases action <;> first | rfl | cases unused

/-- Only the values of operands count, and only for some actions. -/
theorem transfer_congr (found : graph.nodes[id]? = some node)
    (same : node.action.usesOperands = true →
      ∀ operand ∈ node.operands, values operand = others operand) :
    transfer folding graph id store values = transfer folding graph id store others := by
  rw [transfer_eq found, transfer_eq found]
  cases uses : node.action.usesOperands with
  | false => exact transferAction_of_unused uses _ _
  | true =>
      congr 1
      apply List.map_congr_left
      intro operand member
      rw [same uses operand member]

/-- The facts of a node come from its input and what is recorded for its operands. -/
theorem transferAction_recorded {initial : Store} {solution : Solution Constant Store}
    {facts : Analysis.Facts Constant Store}
    (solves : Analysis.Solves (analysis folding) graph initial solution)
    (notEntry : id ≠ Graph.entry) (present : solution.facts? id = some facts)
    (found : graph.nodes[id]? = some node) :
    transferAction folding graph node.action facts.input
      (node.operands.map fun operand => (solution.recorded operand).getD .bottom) =
        (facts.value, facts.output) := by
  rw [← transfer_eq found]
  exact solves.transfer id facts notEntry present

/-- Without loops a solution satisfies the equations. -/
theorem solves_of_loopFree {limits : Limits} {initial : Store}
    {solution : Solution Constant Store} (loopFree : graph.LoopFree) (well : graph.WellDrawn)
    (solved : (analysis folding).solveFrom limits graph initial = .ok solution) :
    Analysis.Solves (analysis folding) graph initial solution := by
  apply Analysis.solves_of_transfer well solved
  intro id facts notEntry present
  obtain ⟨values, transferred, agrees⟩ :=
    Analysis.transfer_of_loopFree loopFree well solved notEntry present
  have reaches : graph.Reaches id := by
    obtain ⟨reached, -⟩ := Analysis.reached_of_solveFrom well solved id
    exact reached (by rw [present]; rfl)
  obtain ⟨node, found⟩ : ∃ node, graph.nodes[id]? = some node :=
    ⟨_, Array.getElem?_eq_getElem (reaches.lt_size well)⟩
  rw [← transferred]
  apply transfer_congr found
  intro uses operand member
  exact (agrees operand fun _ =>
    Graph.rank_operand_lt well found uses reaches member).symm

end FragmentFlow.Constants
