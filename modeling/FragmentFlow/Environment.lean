import FragmentFlow.Failure
import FragmentFlow.TypeTable

/-!
# Environments

What code is looked at in.  An environment says which type names it knows, and nothing
else about it is ever asked.
-/

namespace FragmentFlow

/-- The surroundings of a piece of code. -/
structure Environment where
  /-- Whether a type name is known. -/
  resolves : String → Bool

/-- The environment that knows the names of a table. -/
def TypeTable.environment (table : TypeTable) : Environment where
  resolves := table.resolves

namespace Environment

/-- Looks up a type name. -/
def resolve (env : Environment) (name : String) : Except Failure Unit :=
  if env.resolves name then .ok () else .error (.unresolved name)

/-- The environment that knows what every program knows. -/
def builtins : Environment :=
  TypeTable.builtins.environment

end Environment

end FragmentFlow
