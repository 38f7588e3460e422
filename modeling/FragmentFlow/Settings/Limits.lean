import FragmentFlow.Json.Record

/-!
# Visit limits

An analysis may visit the nodes of a graph so many times and no more.  The limit
grows with the graph and stays within 64 bits.
-/

namespace FragmentFlow

/-- The largest count that is told apart from larger ones. -/
def maxCount : Nat := UInt64.size - 1

/-- How many visits an analysis may take. -/
structure Limits where
  /-- Visits for each node of the graph. -/
  visitsPerNode : Nat := 1000
  /-- Visits that every graph may take. -/
  leastVisits : Nat := 10000
  deriving DecidableEq, Repr

namespace Limits

/-- The number of visits a graph with so many nodes may take. -/
def visitLimit (limits : Limits) (nodes : Nat) : Nat :=
  max (min (nodes * limits.visitsPerNode) maxCount) limits.leastVisits

/-- A count in JSON. -/
def count? {bound : Nat} (value : Json.Below bound) : Option Nat :=
  match value.1 with
  | .int n => if 0 ≤ n ∧ n ≤ maxCount then some n.toNat else none
  | _ => none

/-- The limits written in JSON, as an object or as an array; what is left out has
its usual value. -/
def ofJson? (value : Json) : Option Limits := do
  let ⟨contents, _⟩ ← value.contents?
  let usual : Limits := {}
  match ← contents.slots? ["max_visits_per_node", "min_visit_limit"] with
  | [visitsPerNode, leastVisits] =>
    some
      { visitsPerNode := ← contents.withDefault usual.visitsPerNode count? visitsPerNode
        leastVisits := ← contents.withDefault usual.leastVisits count? leastVisits }
  | _ => none

/-- The limits in JSON. -/
def toJson (limits : Limits) : Json :=
  .obj [("max_visits_per_node", .int limits.visitsPerNode),
    ("min_visit_limit", .int limits.leastVisits)]

end Limits

end FragmentFlow
