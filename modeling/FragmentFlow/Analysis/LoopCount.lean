import FragmentFlow.Analysis.Basic

/-!
# Counting loop heads

How many loop heads a way to a node passes at most.  Where control comes back to
a loop there is no bound, so the analysis has a solution on other graphs only.
-/

namespace FragmentFlow

/-- The largest number of loop heads on a way to a node. -/
def loopCount : Analysis Unit Nat where
  initial _ := 0
  transfer graph node store _ :=
    (none, if graph.action? node = some .loopHead then store + 1 else store)
  join := max
  joinValues _ _ := ()

end FragmentFlow
