import FragmentFlow.Check.Runner
import FragmentFlow.Proofs.Session.Transparency

/-!
# Checking always ends with a report

The standard checkers fail only where a fragment cannot be analysed, and then it is
skipped.  They ask for an analysis only if there is something to judge, so a fragment
without conditions and divisions is not skipped, whatever types it names.  What is
found in a fragment is what is found in it in a new session.
-/

namespace FragmentFlow

/-! ### Which fragments are skipped -/

/-- Whether a node tests a condition that is not a literal, or divides. -/
def Tree.Node.isQuestionable : Tree.Node → Bool
  | .stmt (.ifElse _ cond _ _) | .stmt (.whileLoop _ cond _) | .stmt (.forLoop _ _ (some cond) _ _)
  | .expr (.conditional _ cond _ _) => !cond.isLiteral
  | .expr (.binary _ .div _ _) | .expr (.binary _ .rem _ _) => true
  | _ => false

namespace Fragment

/-- Whether a fragment contains something to judge. -/
def isQuestionable (fragment : Fragment) : Bool :=
  fragment.nodes.any Tree.Node.isQuestionable

/-- The graph of a fragment whose types are known. -/
def graph (fragment : Fragment) : Graph :=
  (Graph.draw fragment).finish fragment.name

/-- The graph of a fragment and the constants on it, or why there are none. -/
def constants (fragment : Fragment) (env : Environment) (limits : Limits) :
    Except Failure (Graph × Solution Constant Store) := do
  let graph ← Graph.ofFragment fragment env
  let solution ← (Constants.analysis true).solve limits graph
  return (graph, solution)

/-- Whether constant propagation takes more visits than it may. -/
def exceeds (fragment : Fragment) (limits : Limits) : Bool :=
  let analysis := Constants.analysis true
  let ranks := fragment.graph.ranks
  !(analysis.run fragment.graph ranks (limits.visitLimit fragment.graph.size)
    (Analysis.start fragment.graph ranks (analysis.initial fragment.graph))).isOk

/-- Whether the constants of a fragment cannot be found. -/
def isBlocked (fragment : Fragment) (env : Environment) (limits : Limits) : Bool :=
  (fragment.typeNames.any fun ty => !env.resolves ty) || fragment.exceeds limits

/-- Whether a fragment contains something to judge, but not by its constants. -/
def isSkipped (fragment : Fragment) (env : Environment) (limits : Limits) : Bool :=
  fragment.isQuestionable && fragment.isBlocked env limits

end Fragment

theorem Tree.Node.isQuestionable_eq (node : Tree.Node) :
    node.isQuestionable =
      ((node.condition?.any fun cond => !cond.isLiteral) || node.division?.isSome) := by
  cases node with
  | stmt statement =>
      cases statement with
      | forLoop id init cond update body =>
          cases cond <;> simp [isQuestionable, condition?, division?]
      | _ => simp [isQuestionable, condition?, division?]
  | expr value =>
      cases value with
      | binary id op lhs rhs =>
          cases op <;> simp [isQuestionable, condition?, division?, BinaryOp.canThrow]
      | _ => simp [isQuestionable, condition?, division?]
  | _ => rfl

theorem Fragment.isQuestionable_eq (fragment : Fragment) :
    fragment.isQuestionable = (!fragment.conditions.isEmpty || !fragment.divisions.isEmpty) := by
  have conditions : fragment.conditions.isEmpty = false ↔
      ∃ node ∈ fragment.nodes, (node.condition?.any fun cond => !cond.isLiteral) = true := by
    simp [Fragment.conditions, Option.any_eq_true]
    grind
  have divisions : fragment.divisions.isEmpty = false ↔
      ∃ node ∈ fragment.nodes, node.division?.isSome = true := by
    simp [Fragment.divisions, Option.isSome_iff_ne_none]
  rw [Bool.eq_iff_iff, isQuestionable, List.any_eq_true, Bool.or_eq_true, Bool.not_eq_true',
    Bool.not_eq_true', conditions, divisions]
  simp only [Tree.Node.isQuestionable_eq, Bool.or_eq_true, and_or_left, exists_or]

namespace Fragment

variable {fragment : Fragment} {env : Environment} {limits : Limits}

/-- A fragment that exceeds the limits is not solved. -/
theorem solve_of_exceeds (exceeded : fragment.exceeds limits = true) :
    ∃ visits limit, (Constants.analysis true).solve limits fragment.graph =
      .error (.nonConvergent fragment.graph.label visits limit) := by
  unfold exceeds at exceeded
  unfold Analysis.solve Analysis.solveFrom
  dsimp only at exceeded ⊢
  split
  · rename_i solution ended
    rw [ended] at exceeded
    cases exceeded
  · exact ⟨_, _, rfl⟩

/-- A fragment within the limits is solved. -/
theorem solve_of_not_exceeds (ended : fragment.exceeds limits = false) :
    ∃ solution, (Constants.analysis true).solve limits fragment.graph = .ok solution := by
  unfold exceeds at ended
  unfold Analysis.solve Analysis.solveFrom
  dsimp only at ended ⊢
  split
  · exact ⟨_, rfl⟩
  · rename_i visits failed
    rw [failed] at ended
    cases ended

/-- Without a graph or within too small limits there are no constants, for a reason that skips the
fragment. -/
theorem constants_of_blocked (isCode : fragment.hasBody = true)
    (blocked : fragment.isBlocked env limits = true) :
    ∃ cause, fragment.constants env limits = .error cause ∧ cause.skipsFragment = true := by
  unfold constants
  by_cases unknown : ∃ ty ∈ fragment.typeNames, env.resolves ty = false
  · obtain ⟨ty, named, isUnknown⟩ := unknown
    obtain ⟨first, failed⟩ := Graph.ofFragment_unresolved isCode named isUnknown
    rw [failed]
    exact ⟨_, rfl, rfl⟩
  · have exceeded : fragment.exceeds limits = true := by
      rw [isBlocked, Bool.or_eq_true, List.any_eq_true] at blocked
      refine blocked.resolve_left fun ⟨ty, named, isUnknown⟩ => unknown ⟨ty, named, ?_⟩
      simpa using isUnknown
    have known : ∀ ty ∈ fragment.typeNames, env.resolves ty = true := by
      intro ty named
      by_contra isUnknown
      exact unknown ⟨ty, named, Bool.eq_false_of_not_eq_true isUnknown⟩
    obtain ⟨visits, limit, failed⟩ := solve_of_exceeds exceeded
    rw [Graph.ofFragment_resolved isCode known]
    refine ⟨.nonConvergent fragment.graph.label visits limit, ?_, rfl⟩
    exact congrArg (· >>= fun solution => pure (fragment.graph, solution)) failed

/-- With a graph and large enough limits there are constants. -/
theorem constants_of_free (isCode : fragment.hasBody = true)
    (free : fragment.isBlocked env limits = false) :
    ∃ found, fragment.constants env limits = .ok found := by
  rw [isBlocked, Bool.or_eq_false_iff, List.any_eq_false] at free
  have known : ∀ ty ∈ fragment.typeNames, env.resolves ty = true := by
    simpa using free.1
  obtain ⟨solution, solved⟩ := solve_of_not_exceeds free.2
  refine ⟨(fragment.graph, solution), ?_⟩
  unfold constants
  rw [Graph.ofFragment_resolved isCode known]
  exact congrArg (· >>= fun solution => pure (fragment.graph, solution)) solved

end Fragment

/-! ### Sessions from which a tree can be checked -/

namespace Session

variable {session later : StandardSession} {fragment other : Fragment} {env types : Environment}
  {key : AnalysisKey}

/-- Whether a session can be trusted with a fragment depends on its resident graph alone. -/
theorem Trusts.of_resident (trusts : session.Trusts fragment env)
    (same : later.resident = session.resident) : later.Trusts fragment env := by
  intro resident present
  exact trusts resident (same ▸ present)

/-- Building the graph of another fragment does no harm. -/
theorem Trusts.graphStep {answer : Except Failure BuiltGraph}
    (trusts : session.Trusts fragment env)
    (apart : other.same fragment = true → other = fragment ∧ types = env)
    (step : GraphStep session other types answer later) : later.Trusts fragment env := by
  cases step with
  | hit _ keeps => exact trusts.of_resident keeps.resident
  | failed _ _ empty =>
      intro resident present
      cases empty.resident.symm.trans present
  | built _ drawn isResident =>
      intro resident present same
      cases isResident.symm.trans present
      obtain ⟨rfl, rfl⟩ := apart same
      exact drawn

/-- A session with certain limits, in which what is kept for the fragments of a tree is
what would be found for them. -/
structure Ready (limits : Limits) (tree : Tree) (env : Environment) (session : StandardSession) :
    Prop where
  settled : session.limits = limits
  sound : session.Sound
  trusts : ∀ fragment ∈ tree.fragments, session.Trusts fragment env

variable {limits : Limits} {tree : Tree}

/-- A new session is ready. -/
theorem Ready.start : Ready limits tree env { limits } where
  settled := rfl
  sound := Traced.start.sound
  trusts fragment member resident present := by cases present

/-- Building a graph keeps a session ready. -/
theorem Ready.graphStep {answer : Except Failure BuiltGraph}
    (ready : Ready limits tree env session)
    (apart : ∀ fragment ∈ tree.fragments, other.same fragment = true →
      other = fragment ∧ types = env)
    (step : GraphStep session other types answer later) : Ready limits tree env later where
  settled := step.limits.trans ready.settled
  sound := ready.sound.graphStep step
  trusts fragment member := (ready.trusts fragment member).graphStep (apart fragment member) step

/-- Solving an analysis keeps a session ready. -/
theorem Ready.solutionStep {built : BuiltGraph}
    {answer : Except Failure (FoundSolution Family.standard key)}
    (ready : Ready limits tree env session) (identifies : session.Identifies built)
    (step : SolutionStep session built key answer later) : Ready limits tree env later where
  settled := step.limits.trans ready.settled
  sound := ready.sound.solutionStep identifies step
  trusts fragment member := (ready.trusts fragment member).of_resident step.resident

/-- A query for a fragment keeps a session ready. -/
theorem Ready.fragmentResult (ready : Ready limits tree env session)
    (apart : ∀ fragment ∈ tree.fragments, other.same fragment = true →
      other = fragment ∧ types = env) (key : AnalysisKey) :
    Ready limits tree env (session.fragmentResult other types key).2 := by
  have step := Session.fragmentResult_step ready.sound.filled other types key
  generalize (session.fragmentResult other types key).1 = answer at step
  generalize (session.fragmentResult other types key).2 = later at step ⊢
  cases step with
  | undrawn drawn => exact ready.graphStep apart drawn
  | unsolved drawn solved =>
      exact (ready.graphStep apart drawn).solutionStep drawn.identifies solved
  | solved drawn solved => exact (ready.graphStep apart drawn).solutionStep drawn.identifies solved

/-- A ready session answers with the constants of the fragment. -/
theorem Ready.constants (ready : Ready limits tree env session)
    (member : fragment ∈ tree.fragments) :
    (session.fragmentResult fragment env (.constants true)).1.map FragmentResult.content =
      fragment.constants env limits := by
  rw [← ready.settled]
  have step := Session.fragmentResult_step ready.sound.filled fragment env (.constants true)
  exact step.content ready.sound (ready.trusts fragment member)

/-- A ready session fails as the fragment does. -/
theorem Ready.fragmentResult_error {cause : Failure} (ready : Ready limits tree env session)
    (member : fragment ∈ tree.fragments)
    (failed : fragment.constants env limits = .error cause) :
    (session.fragmentResult fragment env (.constants true)).1 = .error cause := by
  have same := ready.constants member
  rw [failed] at same
  cases outcome : (session.fragmentResult fragment env (.constants true)).1 with
  | error failure =>
      rw [outcome] at same
      exact congrArg Except.error (Except.error.inj same)
  | ok result =>
      rw [outcome] at same
      cases same

end Session

/-! ### Checkers that judge by constants -/

namespace Checker

open Session (Ready)

variable {limits : Limits} {tree : Tree} {env types : Environment} {session : StandardSession}
  {fragment other : Fragment} {α : Type} {checker : Checker} {places : Fragment → List α}

/-- A checker judges some places of a fragment by their constants. -/
def JudgesByConstants (checker : Checker) (places : Fragment → List α) : Prop :=
  ∃ judge, ∀ session fragment env,
    checker.find session fragment env =
      findByConstants (places fragment) judge session fragment env

/-- The checker of conditions judges by constants. -/
theorem constantCondition_judges : constantCondition.JudgesByConstants Fragment.conditions := by
  unfold JudgesByConstants constantCondition
  dsimp only
  exact ⟨_, fun _ _ _ => rfl⟩

/-- The checker of divisions judges by constants. -/
theorem divisionByZero_judges : divisionByZero.JudgesByConstants Fragment.divisions := by
  unfold JudgesByConstants divisionByZero
  dsimp only
  exact ⟨_, fun _ _ _ => rfl⟩

namespace JudgesByConstants

/-- A checker that judges by constants keeps a session ready. -/
theorem ready (judges : checker.JudgesByConstants places) (ready : Ready limits tree env session)
    (apart : ∀ fragment ∈ tree.fragments, other.same fragment = true →
      other = fragment ∧ types = env) :
    Ready limits tree env (checker.diagnose session other types).2 := by
  obtain ⟨judge, found⟩ := judges
  unfold diagnose
  rw [found, findByConstants]
  dsimp only
  split
  · exact ready
  · exact ready.fragmentResult apart (.constants true)

/-- What is found is what the constants of the fragment demand. -/
theorem diagnose_eq (judges : checker.JudgesByConstants places) (fragment : Fragment) :
    ∃ found : Graph × Solution Constant Store → List Diagnostic,
      ∀ session, Ready limits tree env session → fragment ∈ tree.fragments →
        (checker.diagnose session fragment env).1 =
          if (places fragment).isEmpty then .ok []
          else (fragment.constants env limits).map found := by
  obtain ⟨judge, found⟩ := judges
  refine ⟨fun result => ((places fragment).filterMap (judge fun tree =>
    (Constants.analysis true).valueAt result.1 result.2 tree)).map fun finding =>
      .atNode checker.name checker.severity fragment finding.node finding.message, ?_⟩
  intro session ready member
  unfold diagnose
  rw [found, findByConstants]
  dsimp only
  split
  · rfl
  · rw [← ready.constants member]
    cases (session.fragmentResult fragment env (.constants true)).1 with
    | error failure => rfl
    | ok result => rfl

/-- Without places to judge, or with constants to judge them by, a checker answers. -/
theorem exists_findings (judges : checker.JudgesByConstants places)
    (isCode : fragment.hasBody = true)
    (settled : (places fragment).isEmpty = true ∨ fragment.isBlocked env limits = false) :
    ∃ found, ∀ session, Ready limits tree env session → fragment ∈ tree.fragments →
      (checker.diagnose session fragment env).1 = .ok found := by
  obtain ⟨found, diagnosed⟩ := judges.diagnose_eq fragment
  by_cases empty : (places fragment).isEmpty = true
  · refine ⟨[], fun session ready member => ?_⟩
    rw [diagnosed session ready member, if_pos empty]
  · obtain ⟨result, solved⟩ := Fragment.constants_of_free isCode (settled.resolve_left empty)
    refine ⟨found result, fun session ready member => ?_⟩
    rw [diagnosed session ready member, if_neg empty, solved]
    rfl

/-- With places to judge but without constants a checker fails. -/
theorem diagnose_error (judges : checker.JudgesByConstants places) {cause : Failure}
    (failed : fragment.constants env limits = .error cause)
    (questionable : (places fragment).isEmpty = false) (ready : Ready limits tree env session)
    (member : fragment ∈ tree.fragments) :
    (checker.diagnose session fragment env).1 = .error cause := by
  obtain ⟨found, diagnosed⟩ := judges.diagnose_eq fragment
  rw [diagnosed session ready member, questionable, if_neg Bool.false_ne_true, failed]
  rfl

/-- Without places to judge a checker finds nothing. -/
theorem diagnose_nil (judges : checker.JudgesByConstants places)
    (empty : (places fragment).isEmpty = true) (ready : Ready limits tree env session)
    (member : fragment ∈ tree.fragments) :
    (checker.diagnose session fragment env).1 = .ok [] := by
  obtain ⟨found, diagnosed⟩ := judges.diagnose_eq fragment
  rw [diagnosed session ready member, if_pos empty]

end JudgesByConstants

end Checker

/-! ### Fragments one after the other -/

namespace Runner

open Session (Ready)

variable {limits : Limits} {tree : Tree} {env types : Environment} {session : StandardSession}
  {fragment : Fragment} {checkers : List Checker} {holds : StandardSession → Prop}

/-- What all checkers keep, checking a fragment keeps. -/
theorem checkFragment_invariant (report : Report) (before : holds session)
    (steady : ∀ checker ∈ checkers, ∀ session, holds session →
      holds (checker.diagnose session fragment env).2) :
    holds (checkFragment fragment env checkers report session).2 := by
  induction checkers generalizing report session with
  | nil => exact before
  | cons checker checkers ih =>
      have after := steady checker List.mem_cons_self session before
      unfold checkFragment
      cases outcome : checker.diagnose session fragment env with
      | mk answer later =>
          rw [outcome] at after
          cases answer with
          | ok found =>
              exact ih _ after fun other member => steady other (List.mem_cons_of_mem _ member)
          | error cause =>
              dsimp only
              split
              · exact after
              · exact after

/-- What all checkers keep for all fragments, checking the fragments keeps. -/
theorem checkFragments_invariant {fragments : List Fragment} (report : Report)
    (before : holds session)
    (steady : ∀ fragment ∈ fragments, ∀ checker ∈ checkers, ∀ session, holds session →
      holds (checker.diagnose session fragment env).2) :
    holds (checkFragments checkers env fragments report session).2 := by
  induction fragments generalizing report session with
  | nil => exact before
  | cons fragment fragments ih =>
      have after := checkFragment_invariant
        { report with fragmentsChecked := report.fragmentsChecked + 1 } before
        (steady fragment List.mem_cons_self)
      unfold checkFragments
      dsimp only
      cases outcome : checkFragment fragment env checkers
          { report with fragmentsChecked := report.fragmentsChecked + 1 } session with
      | mk answer later =>
          rw [outcome] at after
          cases answer with
          | ok report =>
              exact ih _ after fun other member => steady other (List.mem_cons_of_mem _ member)
          | error failure => exact after

/-- The standard checkers leave a session ready. -/
theorem ready_of_standard {checker : Checker} (standard : checker ∈ Checker.standard)
    (ready : Ready limits tree env session)
    (apart : ∀ other ∈ tree.fragments, fragment.same other = true →
      fragment = other ∧ types = env) :
    Ready limits tree env (checker.diagnose session fragment types).2 := by
  rw [Checker.standard, List.mem_cons, List.mem_singleton] at standard
  rcases standard with rfl | rfl
  · exact Checker.constantCondition_judges.ready ready apart
  · exact Checker.divisionByZero_judges.ready ready apart

/-- A checker that answers hands over to the next one. -/
theorem checkFragment_ok {checker : Checker} {found : List Diagnostic} (report : Report)
    (answered : (checker.diagnose session fragment env).1 = .ok found) :
    checkFragment fragment env (checker :: checkers) report session =
      checkFragment fragment env checkers
        { report with diagnostics := report.diagnostics ++ found }
        (checker.diagnose session fragment env).2 := by
  rw [checkFragment]
  cases outcome : checker.diagnose session fragment env with
  | mk answer later =>
      rw [outcome] at answered
      cases (answered : answer = _)
      rfl

/-- A checker that cannot answer ends the work on a fragment. -/
theorem checkFragment_error {checker : Checker} {cause : Failure} (report : Report)
    (failed : (checker.diagnose session fragment env).1 = .error cause)
    (skips : cause.skipsFragment = true) :
    (checkFragment fragment env (checker :: checkers) report session).1 =
      .ok { report with skipped := report.skipped ++ [⟨fragment.name, cause.message⟩] } := by
  rw [checkFragment]
  cases outcome : checker.diagnose session fragment env with
  | mk answer later =>
      rw [outcome] at failed
      cases (failed : answer = _)
      dsimp only
      rw [if_pos skips]

/-- A fragment is skipped as a whole: what the first checker would find does not count
if the second one fails, for then the first one has nothing to judge. -/
theorem checkFragment_skipped {cause : Failure} (report : Report)
    (ready : Ready limits tree env session) (member : fragment ∈ tree.fragments)
    (apart : ∀ other ∈ tree.fragments, fragment.same other = true → fragment = other)
    (questionable : fragment.isQuestionable = true)
    (failed : fragment.constants env limits = .error cause)
    (skips : cause.skipsFragment = true) :
    (checkFragment fragment env Checker.standard report session).1 =
      .ok { report with skipped := report.skipped ++ [⟨fragment.name, cause.message⟩] } := by
  unfold Checker.standard
  by_cases conditions : fragment.conditions.isEmpty = true
  · have divisions : fragment.divisions.isEmpty = false := by
      simpa [Fragment.isQuestionable_eq, conditions] using questionable
    have after := Checker.constantCondition_judges.ready ready fun other isOther same =>
      ⟨apart other isOther same, rfl⟩
    rw [checkFragment_ok report
      (Checker.constantCondition_judges.diagnose_nil conditions ready member)]
    rw [checkFragment_error _
      (Checker.divisionByZero_judges.diagnose_error failed divisions after member) skips]
    simp
  · exact checkFragment_error report (Checker.constantCondition_judges.diagnose_error failed
      (Bool.eq_false_of_not_eq_true conditions) ready member) skips

/-- A fragment that all checkers can judge adds their diagnostics to the report. -/
theorem checkFragment_checked {warnings errors : List Diagnostic} (report : Report)
    (ready : Ready limits tree env session)
    (apart : ∀ other ∈ tree.fragments, fragment.same other = true → fragment = other)
    (conditions : ∀ session, Ready limits tree env session →
      (Checker.constantCondition.diagnose session fragment env).1 = .ok warnings)
    (divisions : ∀ session, Ready limits tree env session →
      (Checker.divisionByZero.diagnose session fragment env).1 = .ok errors) :
    (checkFragment fragment env Checker.standard report session).1 =
      .ok { report with diagnostics := report.diagnostics ++ (warnings ++ errors) } := by
  have after := Checker.constantCondition_judges.ready ready fun other isOther same =>
    ⟨apart other isOther same, rfl⟩
  unfold Checker.standard
  rw [checkFragment_ok report (conditions session ready), checkFragment_ok _ (divisions _ after),
    checkFragment, List.append_assoc]

/-- What checking a fragment adds to a report: an entry among the skipped ones, or what
each checker finds in a new session. -/
theorem exists_outcome (limits : Limits) (env : Environment) (isCode : fragment.hasBody = true)
    (member : fragment ∈ tree.fragments)
    (apart : ∀ other ∈ tree.fragments, fragment.same other = true → fragment = other) :
    ∃ (warnings errors : List Diagnostic) (cause : Failure),
      (fragment.isSkipped env limits = false →
        (Checker.constantCondition.diagnose { limits } fragment env).1 = .ok warnings ∧
        (Checker.divisionByZero.diagnose { limits } fragment env).1 = .ok errors) ∧
      (fragment.isSkipped env limits = true →
        (({ limits } : StandardSession).fragmentResult fragment env (.constants true)).1 =
          .error cause) ∧
      ∀ report session, Ready limits tree env session →
        (checkFragment fragment env Checker.standard report session).1 =
          .ok (if fragment.isSkipped env limits then
            { report with skipped := report.skipped ++ [⟨fragment.name, cause.message⟩] }
          else { report with diagnostics := report.diagnostics ++ (warnings ++ errors) }) := by
  cases skipped : fragment.isSkipped env limits with
  | true =>
      obtain ⟨questionable, blocked⟩ := Bool.and_eq_true_iff.1 skipped
      obtain ⟨cause, failed, skips⟩ := Fragment.constants_of_blocked isCode blocked
      refine ⟨[], [], cause, Bool.noConfusion, fun _ => ?_, fun report session ready => ?_⟩
      · exact Ready.start.fragmentResult_error member failed
      · exact checkFragment_skipped report ready member apart questionable failed skips
  | false =>
      have settled := Bool.and_eq_false_iff.1 skipped
      rw [Fragment.isQuestionable_eq, Bool.or_eq_false_iff, Bool.not_eq_false', Bool.not_eq_false']
        at settled
      obtain ⟨warnings, conditions⟩ := Checker.constantCondition_judges.exists_findings isCode
        (settled.imp_left And.left)
      obtain ⟨errors, divisions⟩ := Checker.divisionByZero_judges.exists_findings isCode
        (settled.imp_left And.right)
      refine ⟨warnings, errors, .unresolved fragment.name, fun _ => ?_, Bool.noConfusion,
        fun report session ready => ?_⟩
      · exact ⟨conditions _ .start member, divisions _ .start member⟩
      · exact checkFragment_checked report ready apart
          (fun session ready => conditions session ready member)
          fun session ready => divisions session ready member

/-- What checking fragments one after the other adds to a report. -/
theorem checkFragments_report {warnings errors : Fragment → List Diagnostic}
    {cause : Fragment → Failure} {fragments : List Fragment} (report : Report)
    (ready : Ready limits tree env session)
    (apart : ∀ fragment ∈ tree.fragments, ∀ other ∈ tree.fragments,
      fragment.same other = true → fragment = other)
    (members : ∀ fragment ∈ fragments, fragment ∈ tree.fragments)
    (outcome : ∀ fragment ∈ fragments, ∀ report session, Ready limits tree env session →
      (checkFragment fragment env Checker.standard report session).1 =
        .ok (if fragment.isSkipped env limits then
          { report with
            skipped := report.skipped ++ [⟨fragment.name, (cause fragment).message⟩] }
        else
          { report with
            diagnostics := report.diagnostics ++ (warnings fragment ++ errors fragment) })) :
    (checkFragments Checker.standard env fragments report session).1 =
      .ok
        { report with
          fragmentsChecked := report.fragmentsChecked + fragments.length
          diagnostics := report.diagnostics ++
            (fragments.filter fun fragment => !fragment.isSkipped env limits).flatMap
              fun fragment => warnings fragment ++ errors fragment
          skipped := report.skipped ++
            (fragments.filter fun fragment => fragment.isSkipped env limits).map
              fun fragment => ⟨fragment.name, (cause fragment).message⟩ } := by
  induction fragments generalizing report session with
  | nil => simp [checkFragments]
  | cons fragment fragments ih =>
      have isMember := members fragment List.mem_cons_self
      have first := outcome fragment List.mem_cons_self
        { report with fragmentsChecked := report.fragmentsChecked + 1 } session ready
      have after := checkFragment_invariant
        { report with fragmentsChecked := report.fragmentsChecked + 1 } ready
        fun checker standard session ready => ready_of_standard standard ready
          fun other isOther same => ⟨apart fragment isMember other isOther same, rfl⟩
      unfold checkFragments
      dsimp only
      cases done : checkFragment fragment env Checker.standard
          { report with fragmentsChecked := report.fragmentsChecked + 1 } session with
      | mk answer later =>
          rw [done] at first after
          cases (first : answer = _)
          refine (ih _ after (fun other member => members other (List.mem_cons_of_mem _ member))
            fun other member => outcome other (List.mem_cons_of_mem _ member)).trans ?_
          cases skipped : fragment.isSkipped env limits with
          | true => simp [skipped, Nat.add_comm, Nat.add_left_comm]
          | false => simp [skipped, Nat.add_comm, Nat.add_left_comm]

/-! ### Units one after the other -/

/-- A runner after it has checked some units, given by the serial numbers of their
trees, each with a env of types. -/
def after (limits : Limits) (units : Nat → Source.CompilationUnit)
    (history : List (Nat × Environment)) : Runner :=
  history.foldl (fun runner past => (runner.checkTree (.ofUnit (units past.1) past.1) past.2).2)
    (standard limits)

/-- A longer history ends with one more checked tree. -/
theorem after_append (limits : Limits) (units : Nat → Source.CompilationUnit)
    (history : List (Nat × Environment)) (past : Nat × Environment) :
    after limits units (history ++ [past]) =
      ((after limits units history).checkTree (.ofUnit (units past.1) past.1) past.2).2 := by
  rw [after, List.foldl_append]
  rfl

/-- A runner keeps its checkers. -/
theorem checkers_after (limits : Limits) (units : Nat → Source.CompilationUnit)
    (history : List (Nat × Environment)) :
    (after limits units history).checkers = Checker.standard := by
  induction history using List.reverseRecOn with
  | nil => rfl
  | append_singleton history past ih =>
      rw [after_append]
      exact ih

/-- Other units leave nothing behind that would be taken for a fragment of a unit. -/
theorem ready_after {serial : Nat} {units : Nat → Source.CompilationUnit}
    {history : List (Nat × Environment)} (new : serial ∉ history.map Prod.fst) :
    Ready limits (.ofUnit (units serial) serial) env (after limits units history).session := by
  induction history using List.reverseRecOn with
  | nil => exact .start
  | append_singleton history past ih =>
      rw [List.map_append, List.mem_append, not_or] at new
      have other : past.1 ≠ serial := fun same => new.2 (List.mem_singleton.2 same.symm)
      rw [after_append]
      unfold checkTree
      rw [checkers_after]
      refine checkFragments_invariant _ (ih new.1) fun fragment member checker standard session
        ready => ready_of_standard standard ready fun found isFound same => ?_
      have inPast := Fragment.tree_of_mem_fragments (List.mem_of_mem_filter member)
      have inTree := Fragment.tree_of_mem_fragments isFound
      rw [Fragment.same, Tree.Path.same, inPast, inTree, Bool.and_eq_true, Bool.and_eq_true,
        beq_iff_eq] at same
      exact absurd same.1.1 other

theorem checkTree_eq {runner : Runner} (standard : runner.checkers = Checker.standard) :
    (runner.checkTree tree env).1 =
      (checkFragments Checker.standard env (tree.fragments.filter Fragment.hasBody)
        { unit := tree.name } runner.session).1 := by
  unfold checkTree
  rw [standard]

/-- Checking a unit always ends with a report, the same whatever other units were checked
before.  It counts the fragments with a body.  Those that contain something to judge, but
have an unknown type or constants that take too many visits, are listed as skipped with
the cause; of the others it holds what each checker finds in a new session. -/
theorem checkTree_reports (limits : Limits) (units : Nat → Source.CompilationUnit)
    (history : List (Nat × Environment)) (serial : Nat) (new : serial ∉ history.map Prod.fst)
    (env : Environment) :
    let tree := Tree.ofUnit (units serial) serial
    let checked := tree.fragments.filter Fragment.hasBody
    ∃ (report : Report) (warnings errors : Fragment → List Diagnostic)
        (cause : Fragment → Failure),
      ((after limits units history).checkTree tree env).1 = .ok report ∧
      ((standard limits).checkTree tree env).1 = .ok report ∧
      report.unit = (units serial).name ∧ report.fragmentsChecked = checked.length ∧
      report.skipped = (checked.filter fun fragment => fragment.isSkipped env limits).map
        (fun fragment => ⟨fragment.name, (cause fragment).message⟩) ∧
      report.diagnostics = (checked.filter fun fragment => !fragment.isSkipped env limits).flatMap
        (fun fragment => warnings fragment ++ errors fragment) ∧
      ∀ fragment ∈ checked,
        (fragment.isSkipped env limits = true →
          (({ limits } : StandardSession).fragmentResult fragment env (.constants true)).1 =
            .error (cause fragment)) ∧
        (fragment.isSkipped env limits = false →
          (Checker.constantCondition.diagnose { limits } fragment env).1 =
            .ok (warnings fragment) ∧
          (Checker.divisionByZero.diagnose { limits } fragment env).1 =
            .ok (errors fragment)) := by
  intro tree checked
  have apart : ∀ fragment ∈ tree.fragments, ∀ other ∈ tree.fragments,
      fragment.same other = true → fragment = other := fun fragment member other found =>
    Fragment.eq_of_same member found
  have members : ∀ fragment ∈ checked, fragment ∈ tree.fragments := fun fragment =>
    List.mem_of_mem_filter
  have someFailure : Nonempty Failure := ⟨.unresolved tree.name⟩
  choose! warnings errors cause clean failed outcome using
    fun fragment (member : fragment ∈ checked) => exists_outcome limits env
      (List.of_mem_filter member) (members fragment member)
      (apart fragment (members fragment member))
  have used := (checkTree_eq (checkers_after limits units history)).trans
    (checkFragments_report { unit := tree.name } (ready_after new) apart members outcome)
  have unused : ((standard limits).checkTree tree env).1 = _ := (checkTree_eq rfl).trans
    (checkFragments_report { unit := tree.name } .start apart members outcome)
  exact ⟨_, warnings, errors, cause, used, unused, rfl, Nat.zero_add _, List.nil_append _,
    List.nil_append _, fun fragment member => ⟨failed fragment member, clean fragment member⟩⟩

end Runner

/-- A class with a division by zero, one in a field of an unknown type, and nothing to
judge in another such field. -/
def fractions : Source.CompilationUnit where
  name := "Fractions"
  classes := [{ name := "Fractions", members :=
    [.field "pole" "int" false (some (.binary .div (.literal (.int 1)) (.literal (.int 0)))),
      .field "lost" "Missing" false (some (.binary .rem (.literal (.int 1)) (.ident "pole"))),
      .field "idle" "Missing" false (some (.ident "lost"))] }]

/-- Only the field of an unknown type that has something to judge is skipped, also after
the unit was checked with no types known. -/
theorem fractions_reported : ∃ report,
    ((Runner.after {} (fun _ => fractions) [(0, TypeTable.empty.environment)]).checkTree
      (.ofUnit fractions 1) .builtins).1 = .ok report ∧ report.fragmentsChecked = 3 ∧
    report.skipped.map SkippedFragment.fragment = ["Fractions.lost"] := by
  have three : ((Tree.ofUnit fractions 1).fragments.filter Fragment.hasBody).length = 3 := by
    decide +kernel
  have lost : (((Tree.ofUnit fractions 1).fragments.filter Fragment.hasBody).filter fun fragment =>
      fragment.isSkipped .builtins {}).map Fragment.name = ["Fractions.lost"] := by
    decide +kernel
  obtain ⟨report, _, _, cause, done, -, -, counted, skipped, -, -⟩ :=
    Runner.checkTree_reports {} (fun _ => fractions) [(0, TypeTable.empty.environment)] 1 (by simp)
      .builtins
  refine ⟨report, done, ?_, ?_⟩
  · rw [counted]
    exact three
  · rw [skipped, List.map_map]
    exact lost

end FragmentFlow
