import FragmentFlow.Analysis.Basic

/-!
# Assigned names

Which names have been assigned on some way to a node.
-/

namespace FragmentFlow

/-- The variable that an action gives a value: a declared or an assigned one. -/
def Graph.Action.assigned? : Graph.Action → Option String
  | decl name | assign name => some name
  | _ => none

namespace Assigned

/-- Adds the name that a node assigns to a set; the value is the size of the
set. -/
def transfer (graph : Graph) (node : Nat) (store : NameSet) (_ : Nat → Option Nat) :
    Option Nat × NameSet :=
  let names := match (graph.action? node).bind Graph.Action.assigned? with
    | some name => store.insert name
    | none => store
  (some names.size, names)

/-- The names that are assigned on some way to a node. -/
def may : Analysis Nat NameSet where
  initial _ := .empty
  transfer := transfer
  join := NameSet.union
  joinValues := max

end Assigned

end FragmentFlow
