import FragmentFlow.Main
import FragmentFlow.Proofs.Check.Economy
import FragmentFlow.Proofs.Check.Totality
import FragmentFlow.Proofs.Cleanup.Fence
import FragmentFlow.Proofs.Cleanup.Paths
import FragmentFlow.Proofs.Cleanup.Protected
import FragmentFlow.Proofs.Cleanup.Statements
import FragmentFlow.Proofs.Constants.Arrival
import FragmentFlow.Proofs.Constants.Calls
import FragmentFlow.Proofs.Constants.Canonical
import FragmentFlow.Proofs.Constants.Convergence
import FragmentFlow.Proofs.Constants.Lattice
import FragmentFlow.Proofs.Constants.Monotone
import FragmentFlow.Proofs.Constants.Operators
import FragmentFlow.Proofs.Constants.Proper
import FragmentFlow.Proofs.Constants.Revisions
import FragmentFlow.Proofs.Constants.Soundness
import FragmentFlow.Proofs.Constants.Transfer
import FragmentFlow.Proofs.Copies.Fragments
import FragmentFlow.Proofs.Copies.Presence
import FragmentFlow.Proofs.Copies.Statements
import FragmentFlow.Proofs.Copies.Units
import FragmentFlow.Proofs.Coverage.Behavior
import FragmentFlow.Proofs.Coverage.Fragments
import FragmentFlow.Proofs.Coverage.Simulation
import FragmentFlow.Proofs.Coverage.Statements
import FragmentFlow.Proofs.Drawing.Actions
import FragmentFlow.Proofs.Drawing.Builder
import FragmentFlow.Proofs.Drawing.Census
import FragmentFlow.Proofs.Drawing.Confined
import FragmentFlow.Proofs.Drawing.Descent
import FragmentFlow.Proofs.Drawing.Discipline
import FragmentFlow.Proofs.Drawing.Exits
import FragmentFlow.Proofs.Drawing.Fragments
import FragmentFlow.Proofs.Drawing.Frames
import FragmentFlow.Proofs.Drawing.Growth
import FragmentFlow.Proofs.Drawing.Index
import FragmentFlow.Proofs.Drawing.LoopHeads
import FragmentFlow.Proofs.Drawing.Numbering
import FragmentFlow.Proofs.Drawing.Places
import FragmentFlow.Proofs.Drawing.Rendering
import FragmentFlow.Proofs.Drawing.Stored
import FragmentFlow.Proofs.Drawing.Tracking
import FragmentFlow.Proofs.Drawing.TypeNames
import FragmentFlow.Proofs.Graph.Cycles
import FragmentFlow.Proofs.Graph.Declarations
import FragmentFlow.Proofs.Graph.DepthFirst
import FragmentFlow.Proofs.Graph.Names
import FragmentFlow.Proofs.Graph.Operands
import FragmentFlow.Proofs.Graph.Paths
import FragmentFlow.Proofs.Graph.Reducible
import FragmentFlow.Proofs.Graph.Representation
import FragmentFlow.Proofs.Graph.Resolution
import FragmentFlow.Proofs.Raising.Additions
import FragmentFlow.Proofs.Raising.Nesting
import FragmentFlow.Proofs.Raising.Routes
import FragmentFlow.Proofs.Raising.Shields
import FragmentFlow.Proofs.Session.Conservation
import FragmentFlow.Proofs.Session.Residency
import FragmentFlow.Proofs.Session.Transparency
import FragmentFlow.Proofs.Solver.Ascent
import FragmentFlow.Proofs.Solver.Budget
import FragmentFlow.Proofs.Solver.Equations
import FragmentFlow.Proofs.Solver.Evaluations
import FragmentFlow.Proofs.Solver.Limits
import FragmentFlow.Proofs.Solver.OnePass
import FragmentFlow.Proofs.Solver.Search
import FragmentFlow.Proofs.Solver.Visits
import FragmentFlow.Proofs.Solver.Wraparound
import FragmentFlow.Proofs.Source.RoundTrip
import FragmentFlow.Proofs.Tree.Arena
import FragmentFlow.Proofs.Tree.Conditions
import FragmentFlow.Proofs.Tree.Numbering
import FragmentFlow.Proofs.Tree.Operands
import FragmentFlow.Proofs.Tree.Ownership
import FragmentFlow.Proofs.Tree.Positions
import FragmentFlow.Proofs.TypeTable
import FragmentFlow.Proofs.Ways.Basic
import FragmentFlow.Proofs.Ways.Fragments
import FragmentFlow.Proofs.Ways.Statements
import FragmentFlow.Source.Encode
