import FragmentFlow.Json.Value

/-!
# Counters of a session

How often graphs and results were made, found again and given up.
-/

namespace FragmentFlow

/-- What a session has done so far. -/
structure Counters where
  /-- Graphs built. -/
  graphBuilds : Nat := 0
  /-- Graphs found in the session. -/
  graphHits : Nat := 0
  /-- Graphs given up for another one. -/
  graphEvictions : Nat := 0
  /-- Graphs that could not be built. -/
  buildFailures : Nat := 0
  /-- Analyses run, with or without a solution. -/
  analysisRuns : Nat := 0
  /-- Solutions found in the session. -/
  analysisHits : Nat := 0
  /-- Solutions given up together with their graph. -/
  analysisPurges : Nat := 0
  deriving DecidableEq, Repr

/-- The counters in JSON. -/
def Counters.toJson (counters : Counters) : Json :=
  .obj [("cfg_builds", .int counters.graphBuilds), ("cfg_hits", .int counters.graphHits),
    ("cfg_evictions", .int counters.graphEvictions),
    ("build_failures", .int counters.buildFailures),
    ("analysis_runs", .int counters.analysisRuns), ("analysis_hits", .int counters.analysisHits),
    ("analysis_purges", .int counters.analysisPurges)]

end FragmentFlow
