import FragmentFlow.Analysis.Family
import FragmentFlow.Analysis.Result
import FragmentFlow.Analysis.Solver
import FragmentFlow.Graph.Build
import FragmentFlow.Session.Counters

/-!
# Sessions

A session answers questions about fragments.  It keeps the graph of the fragment
asked about last, and the solutions of the analyses that were run on this graph.
A question about another fragment gives up the graph and all solutions.  Graphs
and solutions get serial numbers, so that it can be told whether two answers are
the same thing or only equal.
-/

namespace FragmentFlow

/-- A graph that a session has built. -/
structure BuiltGraph where
  serial : Nat
  graph : Graph

/-- A solution that a session has found. -/
structure FoundSolution (family : Family) (key : family.Key) where
  serial : Nat
  /-- The serial number of the graph it belongs to. -/
  graphSerial : Nat
  solution : family.Solution key

/-- An analysis of a fragment: the graph and the solution on it. -/
structure FragmentResult (family : Family) (key : family.Key) where
  graph : BuiltGraph
  found : FoundSolution family key

namespace FragmentResult

variable {family : Family} {key : family.Key}

/-- The value of an expression of the tree. -/
def valueAt (result : FragmentResult family key) (tree : Nat) : Option (family.Value key) :=
  (family.analysis key).valueAt result.graph.graph result.found.solution tree

/-- The store before a node of the tree. -/
def storeBefore (result : FragmentResult family key) (tree : Nat) : Option (family.Store key) :=
  (family.analysis key).storeBefore result.graph.graph result.found.solution tree

/-- The store after a node of the tree. -/
def storeAfter (result : FragmentResult family key) (tree : Nat) : Option (family.Store key) :=
  (family.analysis key).storeAfter result.graph.graph result.found.solution tree

/-- The store with which the fragment completes. -/
def exitStore (result : FragmentResult family key) : Option (family.Store key) :=
  Analysis.exitStore result.graph.graph result.found.solution

end FragmentResult

/-- The graph that a session keeps, with its fragment. -/
structure Resident where
  fragment : Fragment
  graph : BuiltGraph

/-- A found solution whose types are known only by the name of their format. -/
structure ErasedSolution (family : Family) where
  format : family.Format
  serial : Nat
  graphSerial : Nat
  solution : family.SolutionIn format

/-- A found solution without its types. -/
def FoundSolution.erase {family : Family} {key : family.Key} (found : FoundSolution family key) :
    ErasedSolution family :=
  { found with format := family.format key }

/-- The solution with the types of an analysis, if it has them. -/
def ErasedSolution.restore {family : Family} (erased : ErasedSolution family) (key : family.Key) :
    Except Failure (FoundSolution family key) :=
  if same : erased.format = family.format key then
    .ok
      { serial := erased.serial
        graphSerial := erased.graphSerial
        solution := (same ▸ erased.solution : family.SolutionIn (family.format key)) }
  else .error (.internal "cached analysis result has an unexpected type")

/-- A place for the solution of an analysis on a graph.  It is empty while the analysis
runs. -/
structure Slot (family : Family) where
  key : family.Key
  graphSerial : Nat
  result : Option (ErasedSolution family) := none

/-- Whether a slot belongs to an analysis and a graph. -/
def Slot.isFor {family : Family} (slot : Slot family) (key : family.Key) (graphSerial : Nat) :
    Bool :=
  slot.key = key && slot.graphSerial = graphSerial

/-- The state of a session. -/
structure Session (family : Family) where
  limits : Limits := {}
  /-- The graph that is kept. -/
  resident : Option Resident := none
  /-- The serial number of the graph whose solutions are kept. -/
  bound : Option Nat := none
  /-- The places of the solutions that are kept. -/
  slots : List (Slot family) := []
  counters : Counters := {}
  /-- The next serial number. -/
  nextSerial : Nat := 0

namespace Session

variable {family : Family}

/-- Gives up the graph and all solutions. -/
def clear (session : Session family) : Session family :=
  let counters := session.counters
  { session with
    resident := none
    bound := none
    slots := []
    counters :=
      { counters with
        graphEvictions := counters.graphEvictions + (if session.resident.isSome then 1 else 0)
        analysisPurges := counters.analysisPurges + session.slots.length } }

/-- Builds the graph of a fragment and keeps it. -/
def buildGraph (session : Session family) (fragment : Fragment) (env : Environment) :
    Except Failure BuiltGraph × Session family :=
  let counters := session.counters
  match Graph.ofFragment fragment env with
  | .error failure =>
    (.error failure,
      { session with counters := { counters with buildFailures := counters.buildFailures + 1 } })
  | .ok graph =>
    let built := { serial := session.nextSerial, graph }
    (.ok built,
      { session with
        resident := some { fragment, graph := built }
        bound := some built.serial
        counters := { counters with graphBuilds := counters.graphBuilds + 1 }
        nextSerial := session.nextSerial + 1 })

/-- The graph that is kept, if it belongs to a fragment. -/
def residentGraph? (session : Session family) (fragment : Fragment) : Option BuiltGraph :=
  session.resident.bind fun resident =>
    if resident.fragment.same fragment then some resident.graph else none

/-- The graph of a fragment.  Type names are looked up only if the graph has to be
built. -/
def graphFor (session : Session family) (fragment : Fragment) (env : Environment) :
    Except Failure BuiltGraph × Session family :=
  match session.residentGraph? fragment with
  | some built =>
    let counters := session.counters
    (.ok built, { session with counters := { counters with graphHits := counters.graphHits + 1 } })
  | none => session.clear.buildGraph fragment env

/-- Runs an analysis on a graph. -/
def runAnalysis (session : Session family) (built : BuiltGraph) (key : family.Key) :
    Except Failure (FoundSolution family key) × Session family :=
  let counters := session.counters
  let session :=
    { session with counters := { counters with analysisRuns := counters.analysisRuns + 1 } }
  match (family.analysis key).solve session.limits built.graph with
  | .error failure => (.error failure, session)
  | .ok solution =>
    (.ok { serial := session.nextSerial, graphSerial := built.serial, solution },
      { session with nextSerial := session.nextSerial + 1 })

/-- Makes a slot for an analysis on a graph unless there is one. -/
def openSlot (session : Session family) (key : family.Key) (graphSerial : Nat) : Session family :=
  if session.slots.any (·.isFor key graphSerial) then session
  else { session with slots := { key, graphSerial } :: session.slots }

/-- What is in the slot for an analysis on a graph. -/
def slotResult? (session : Session family) (key : family.Key) (graphSerial : Nat) :
    Option (ErasedSolution family) :=
  (session.slots.find? (·.isFor key graphSerial)).bind Slot.result

/-- Puts a solution into the slot for an analysis on a graph. -/
def fillSlot (session : Session family) (key : family.Key) (graphSerial : Nat)
    (erased : ErasedSolution family) : Session family :=
  { session with
    slots := session.slots.map fun slot =>
      if slot.isFor key graphSerial then { slot with result := some erased } else slot }

/-- Removes the slot for an analysis on a graph if it is empty. -/
def forgetSlot (session : Session family) (key : family.Key) (graphSerial : Nat) :
    Session family :=
  { session with
    slots := session.slots.filter fun slot =>
      !(slot.isFor key graphSerial && slot.result.isNone) }

/-- The solution of an analysis on a graph.  Solutions are kept only for the graph
that is kept itself.  A slot is made before there is anything to put into it, and removed
again if the analysis fails. -/
def solutionFor (session : Session family) (built : BuiltGraph) (key : family.Key) :
    Except Failure (FoundSolution family key) × Session family :=
  if session.bound = some built.serial then
    let session := session.openSlot key built.serial
    match session.slotResult? key built.serial with
    | some erased =>
      let counters := session.counters
      (erased.restore key,
        { session with counters := { counters with analysisHits := counters.analysisHits + 1 } })
    | none =>
      match session.runAnalysis built key with
      | (.error failure, session) => (.error failure, session.forgetSlot key built.serial)
      | (.ok found, session) => (.ok found, session.fillSlot key built.serial found.erase)
  else session.runAnalysis built key

/-- The analysis of a fragment. -/
def fragmentResult (session : Session family) (fragment : Fragment) (env : Environment)
    (key : family.Key) : Except Failure (FragmentResult family key) × Session family :=
  match session.graphFor fragment env with
  | (.error failure, session) => (.error failure, session)
  | (.ok graph, session) =>
    match session.solutionFor graph key with
    | (.error failure, session) => (.error failure, session)
    | (.ok found, session) => (.ok { graph, found }, session)

/-- The analysis of the fragment around a position; there is none outside
fragments and in methods without a body. -/
def resultFor (session : Session family) (position : Tree.Path) (env : Environment)
    (key : family.Key) : Except Failure (Option (FragmentResult family key)) × Session family :=
  match Fragment.locate position with
  | none => (.ok none, session)
  | some fragment =>
    if fragment.hasBody then
      let (result, session) := session.fragmentResult fragment env key
      (result.map some, session)
    else (.ok none, session)

/-- The value of the expression at a position, if control reaches it. -/
def valueOf (session : Session family) (position : Tree.Path) (env : Environment)
    (key : family.Key) : Except Failure (Option (family.Value key)) × Session family :=
  if position.leaf.isExpression then
    let (result, session) := session.resultFor position env key
    (result.map fun result => result.bind fun result => result.valueAt position.leaf.id, session)
  else (.error (.notAnExpression position.leaf.kindName), session)

end Session

end FragmentFlow
