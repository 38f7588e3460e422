import FragmentFlow.Proofs.Session.Runs
import FragmentFlow.Tree.Numbering

/-!
# The graph and the solutions that a session keeps

After every run the solutions that are kept belong to the resident graph, and that
graph belongs to its fragment.  Failures leave no half-finished state: a graph that
cannot be built leaves nothing behind, and an analysis without a solution leaves
everything as it was.
-/

namespace FragmentFlow

namespace Session

variable {family : Family}

/-- A failed question for a graph leaves nothing behind. -/
theorem GraphStep.empty {session later : Session family} {fragment : Fragment}
    {env : Environment} {failure : Failure}
    (step : GraphStep session fragment env (.error failure) later) : later.Empty := by
  cases step with
  | failed _ _ empty => exact empty

/-- A failed question for a solution leaves everything as it was. -/
theorem SolutionStep.keeps_of_error {session later : Session family} {built : BuiltGraph}
    {key : family.Key} {failure : Failure}
    (step : SolutionStep session built key (.error failure) later) : session.Keeps later := by
  cases step with
  | failed _ keeps => exact keeps

/-- Solutions on another graph than the bound one are not kept. -/
theorem SolutionStep.keeps_of_unbound {session later : Session family} {built : BuiltGraph}
    {key : family.Key} {answer : Except Failure (FoundSolution family key)}
    (unbound : session.bound ≠ some built.serial)
    (step : SolutionStep session built key answer later) : session.Keeps later := by
  cases step with
  | hit _ _ _ keeps => exact keeps
  | failed _ keeps => exact keeps
  | unkept _ _ keeps => exact keeps
  | solved bound => exact absurd bound unbound

/-- After every run, the bound serial number is that of the resident graph; that graph
was built for its fragment, with the types of a question that asked for it; each slot
belongs to the resident graph and holds the solution on it, from the initial store of its
analysis, and no analysis has two.  From there, a graph that cannot be built leaves nothing
behind, and a failed analysis or one on another graph changes nothing. -/
theorem residency_of_run {limits : Limits} {queries : List (Query family)}
    {graphs : List BuiltGraph} {session : Session family}
    (run : Run limits queries graphs session) :
    (∀ serial, session.bound = some serial ↔
      ∃ resident, session.resident = some resident ∧ resident.graph.serial = serial) ∧
    (∀ resident, session.resident = some resident → ∃ query ∈ queries, ∃ env,
      query.request? = some (resident.fragment, env) ∧
      Graph.ofFragment resident.fragment env = .ok resident.graph.graph) ∧
    (∀ slot ∈ session.slots, ∃ resident, session.resident = some resident ∧
      slot.graphSerial = resident.graph.serial ∧
      ∃ found : FoundSolution family slot.key, slot.result = some found.erase ∧
        found.graphSerial = slot.graphSerial ∧
        (family.analysis slot.key).solveFrom limits resident.graph.graph
          ((family.analysis slot.key).initial resident.graph.graph) = .ok found.solution) ∧
    (session.slots.map Slot.key).Nodup ∧
    (∀ fragment env failure, session.residentGraph? fragment = none →
      (session.graphFor fragment env).1 = .error failure →
      (session.graphFor fragment env).2.Empty) ∧
    (∀ built key failure, (session.solutionFor built key).1 = .error failure →
      session.Keeps (session.solutionFor built key).2) ∧
    ∀ built key, session.bound ≠ some built.serial →
      session.Keeps (session.solutionFor built key).2 := by
  have traced := run.traced
  refine ⟨fun serial => ?_, traced.origin, fun slot member => ?_, traced.sound.distinct,
    fun fragment env failure _ failed => ?_, fun built key failure failed => ?_,
    fun built key unbound => ?_⟩
  · rw [traced.sound.bound, Option.map_eq_some_iff]
  · obtain ⟨resident, present, belongs, found, ⟨result, serial⟩, solved⟩ :=
      traced.sound.slots slot member
    rw [traced.settled] at solved
    exact ⟨resident, present, belongs, found, result, serial, solved⟩
  · have step := session.graphFor_step fragment env
    rw [failed] at step
    exact step.empty
  · have step := solutionFor_step traced.sound.filled built key
    rw [failed] at step
    exact step.keeps_of_error
  · exact (solutionFor_step traced.sound.filled built key).keeps_of_unbound unbound

end Session

/-- A class with two fields, the second of an unknown type. -/
def quotients : Source.CompilationUnit where
  name := "Quotients"
  classes := [{ name := "Quotients", members :=
    [.field "half" "int" false (some (.binary .div (.literal (.int 8)) (.literal (.int 2)))),
      .field "lost" "Missing" false (some (.ident "half"))] }]

theorem fragments_quotients_ne_nil : (Tree.ofUnit quotients 0).fragments ≠ [] := by
  decide +kernel

/-- The initial value of the first field. -/
def quotientField : Fragment :=
  (Tree.ofUnit quotients 0).fragments.head fragments_quotients_ne_nil

/-- The initial value of the second field. -/
def lostField : Fragment :=
  (Tree.ofUnit quotients 0).fragments.getLast fragments_quotients_ne_nil

/-- A question for the constants of the quotient. -/
def quotientConstants (folding : Bool) : Session.Query Family.standard :=
  .result quotientField .builtins (AnalysisKey.constants folding)

/-- With and without folding, the quotient is analysed on one graph. -/
theorem quotientField_resident : ∃ graphs, ∃ session : Session Family.standard,
    Session.Run {} [quotientConstants true, quotientConstants false] graphs session ∧
    session.slots.length = 2 ∧
    ∃ resident, session.resident = some resident ∧ resident.graph.serial = 0 := by
  have new : Session.Run {} [] [] ({} : Session Family.standard) := .start
  have run := (new.ask (quotientConstants true) trivial).ask (quotientConstants false) trivial
  refine ⟨_, _, run, ?_, ((Session.residency_of_run run).1 0).1 ?_⟩
  · decide +kernel
  · decide +kernel

end FragmentFlow
