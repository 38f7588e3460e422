import FragmentFlow.Proofs.Check.Totality
import FragmentFlow.Proofs.Session.Conservation
import FragmentFlow.Proofs.Tree.Ownership

/-!
# Each fragment is paid for once

Checkers that share a session look at a fragment one after the other.  So the graph of a
fragment is built, or fails to be built, at most once, and only if there is something to
judge.  Constants are found once on each graph.  The second checker is served from the
session, and this is the only time that the session serves anything.
-/

namespace FragmentFlow

/-! ### What a fragment costs -/

/-- Whether a node tests a condition that is not a literal. -/
def Tree.Node.testsCondition : Tree.Node → Bool
  | .stmt (.ifElse _ cond _ _) | .stmt (.whileLoop _ cond _) | .stmt (.forLoop _ _ (some cond) _ _)
  | .expr (.conditional _ cond _ _) => !cond.isLiteral
  | _ => false

/-- Whether a node is a division or a remainder. -/
def Tree.Node.divides : Tree.Node → Bool
  | .expr (.binary _ .div _ _) | .expr (.binary _ .rem _ _) => true
  | _ => false

theorem Tree.Node.testsCondition_eq (node : Tree.Node) :
    node.testsCondition = node.condition?.any fun cond => !cond.isLiteral := by
  cases node with
  | stmt statement =>
      cases statement with
      | forLoop id init cond update body => cases cond <;> rfl
      | _ => rfl
  | expr value => cases value <;> rfl
  | _ => rfl

theorem Tree.Node.divides_eq (node : Tree.Node) : node.divides = node.division?.isSome := by
  cases node with
  | expr value =>
      cases value with
      | binary id op lhs rhs => cases op <;> rfl
      | _ => rfl
  | _ => rfl

namespace Fragment

/-- Whether a fragment tests a condition that is not a literal. -/
def testsCondition (fragment : Fragment) : Bool :=
  fragment.nodes.any Tree.Node.testsCondition

/-- Whether a fragment contains a division or a remainder. -/
def divides (fragment : Fragment) : Bool :=
  fragment.nodes.any Tree.Node.divides

theorem isEmpty_conditions (fragment : Fragment) :
    fragment.conditions.isEmpty = !fragment.testsCondition := by
  rw [conditions, testsCondition]
  induction fragment.nodes with
  | nil => rfl
  | cons node nodes ih =>
      rw [List.any_cons, Tree.Node.testsCondition_eq, Bool.not_or, ← ih]
      cases tested : node.condition? with
      | none => rw [List.filterMap_cons_none tested, Option.any_none, Bool.not_false, Bool.true_and]
      | some cond =>
          rw [List.filterMap_cons_some tested, Option.any_some, Bool.not_not, List.filter_cons]
          cases cond.isLiteral with
          | true => rfl
          | false => rfl

theorem isEmpty_divisions (fragment : Fragment) :
    fragment.divisions.isEmpty = !fragment.divides := by
  rw [divisions, divides]
  induction fragment.nodes with
  | nil => rfl
  | cons node nodes ih =>
      rw [List.any_cons, Tree.Node.divides_eq, Bool.not_or, ← ih, List.filterMap_cons]
      cases node.division? with
      | none => rfl
      | some division => rfl

end Fragment

/-- A fragment and the types that it is checked with. -/
structure Job where
  fragment : Fragment
  env : Environment

namespace Job

/-- Whether a graph has to be built. -/
def isDue (job : Job) : Bool :=
  job.fragment.testsCondition || job.fragment.divides

/-- Whether a graph has to be built, and can be. -/
def isBuilt (job : Job) : Bool :=
  job.isDue && (Graph.ofFragment job.fragment job.env).isOk

/-- Whether a graph has to be built, but cannot be. -/
def isUnbuilt (job : Job) : Bool :=
  job.isDue && !(Graph.ofFragment job.fragment job.env).isOk

/-- Whether both standard checkers ask for constants, and there are some. -/
def isShared (limits : Limits) (job : Job) : Bool :=
  job.fragment.testsCondition && job.fragment.divides &&
    (job.fragment.constants job.env limits).isOk

end Job

/-! ### What a session has spent -/

namespace Session

variable {family : Family} {limits : Limits} {builds failures hits : Nat}
  {session later : Session family} {fragment : Fragment} {env : Environment} {key : family.Key}

/-- Graphs that a session built, each with one run on it, graphs that it could not build,
and hits, as many on graphs as on solutions. -/
structure Spent (limits : Limits) (builds failures hits : Nat) (session : Session family) :
    Prop where
  settled : session.limits = limits
  built : session.counters.graphBuilds = builds
  unbuilt : session.counters.buildFailures = failures
  ran : session.counters.analysisRuns = builds
  graphHits : session.counters.graphHits = hits
  analysisHits : session.counters.analysisHits = hits

/-- A session keeps the graph of a fragment and a solution on it. -/
structure Serves (fragment : Fragment) (built : BuiltGraph) (key : family.Key)
    (session : Session family) : Prop where
  resident : session.residentGraph? fragment = some built
  bound : session.bound = some built.serial
  filled : session.Filled
  kept : ∃ slot ∈ session.slots, slot.isFor key built.serial = true

/-- What the first request for an analysis of a fragment leaves behind. -/
structure FirstResult (limits : Limits) (builds failures hits : Nat) (fragment : Fragment)
    (env : Environment) (key : family.Key) (answer : Except Failure (FragmentResult family key))
    (later : Session family) : Prop where
  spent : Spent limits (builds + (Graph.ofFragment fragment env).isOk.toNat)
    (failures + (!(Graph.ofFragment fragment env).isOk).toNat) hits later
  answered : answer.isOk = (Query.direct.analysed limits fragment env key).isOk
  serves : answer.isOk = true → ∃ built, later.Serves fragment built key
  owner : ∀ resident, later.resident = some resident → resident.fragment = fragment

/-- The resident graph is found for its fragment. -/
theorem residentGraph?_resident {built : BuiltGraph}
    (resident : session.resident = some ⟨fragment, built⟩) :
    session.residentGraph? fragment = some built := by
  have same : fragment.same fragment = true := by simp [Fragment.same, Tree.Path.same]
  rw [residentGraph?, resident, Option.bind_some, if_pos same]

/-- An analysis succeeds if it can be solved. -/
theorem isOk_analysed {graph : Graph} (drawn : Graph.ofFragment fragment env = .ok graph) :
    (Query.direct.analysed limits fragment env key).isOk =
      ((family.analysis key).solve limits graph).isOk := by
  rw [Query.direct.analysed, drawn]
  change (((family.analysis key).solve limits graph) >>= _).isOk = _
  cases (family.analysis key).solve limits graph with
  | error failure => rfl
  | ok solution => rfl

/-- The analysis runs on a graph that has just been built, and a solution is kept. -/
theorem Spent.opened {graph : Graph} (spent : Spent limits builds failures hits session)
    (drawn : Graph.ofFragment fragment env = .ok graph) (key : family.Key) :
    FirstResult limits builds failures hits fragment env key
      (((session.opened fragment graph).solutionFor ⟨session.nextSerial, graph⟩ key).1.map
        fun found => ⟨⟨session.nextSerial, graph⟩, found⟩)
      ((session.opened fragment graph).solutionFor ⟨session.nextSerial, graph⟩ key).2 := by
  have isDrawn : (Graph.ofFragment fragment env).isOk = true := by
    rw [drawn]
    rfl
  have after : Spent limits (builds + 1) failures hits (session.opened fragment graph).ran :=
    ⟨spent.settled, congrArg Nat.succ spent.built, spent.unbuilt, congrArg Nat.succ spent.ran,
      spent.graphHits, spent.analysisHits⟩
  have filled : (session.opened fragment graph).Filled := fun slot member => nomatch member
  have solving := solutionFor_count filled ⟨session.nextSerial, graph⟩ key
  generalize (session.opened fragment graph).solutionFor ⟨session.nextSerial, graph⟩ key =
    ending at solving ⊢
  obtain ⟨answer, later⟩ := ending
  dsimp only at solving
  cases solving with
  | hit _ member => cases member
  | unkept unbound _ => exact absurd rfl unbound
  | failed _ unsolved =>
      refine ⟨?_, ?_, Bool.noConfusion, ?_⟩
      · rw [isDrawn]
        exact after
      · rw [isOk_analysed drawn, ← spent.settled]
        exact (congrArg Except.isOk unsolved).symm
      · intro resident present
        cases present
        rfl
  | kept bound _ solved belongs =>
      refine ⟨?_, ?_, fun _ => ⟨_, residentGraph?_resident rfl, bound, ?_, _, List.mem_cons_self,
        Slot.isFor_iff.2 ⟨rfl, rfl⟩⟩, ?_⟩
      · rw [isDrawn]
        exact ⟨after.settled, after.built, after.unbuilt, after.ran, after.graphHits,
          after.analysisHits⟩
      · rw [isOk_analysed drawn, ← spent.settled]
        exact (congrArg Except.isOk solved).symm
      · intro slot member
        cases List.mem_singleton.1 member
        exact ⟨_, rfl, belongs⟩
      · intro resident present
        cases present
        rfl

/-- The first request builds the graph, unless it cannot be built, and runs the analysis. -/
theorem Spent.first (spent : Spent limits builds failures hits session)
    (new : session.residentGraph? fragment = none) (env : Environment) (key : family.Key) :
    FirstResult limits builds failures hits fragment env key
      (session.fragmentResult fragment env key).1
      (session.fragmentResult fragment env key).2 := by
  have drawing := session.graphFor_count fragment env
  cases outcome : session.graphFor fragment env with
  | mk answer between =>
      rw [outcome] at drawing
      dsimp only at drawing
      cases drawing with
      | hit resident => cases new.symm.trans resident
      | failed _ drawn =>
          have paid := congrArg Nat.succ spent.unbuilt
          rw [fragmentResult_of_error _ outcome]
          refine ⟨?_, ?_, Bool.noConfusion, ?_⟩
          · rw [drawn]
            exact ⟨spent.settled, spent.built, paid, spent.ran, spent.graphHits, spent.analysisHits⟩
          · rw [Query.direct.analysed, drawn]
            rfl
          · intro resident present
            cases present
      | built _ drawn =>
          rw [fragmentResult_of_ok _ outcome]
          exact spent.opened drawn key

/-- A further request is served from the session. -/
theorem Spent.again {built : BuiltGraph} (spent : Spent limits builds failures hits session)
    (serves : session.Serves fragment built key) (env : Environment) :
    Spent limits builds failures (hits + 1) (session.fragmentResult fragment env key).2 ∧
    (session.fragmentResult fragment env key).1.isOk = true ∧
    (session.fragmentResult fragment env key).2.resident = session.resident := by
  obtain ⟨slot, member, isFor⟩ := serves.kept
  have drawing := session.graphFor_count fragment env
  cases outcome : session.graphFor fragment env with
  | mk answer between =>
      rw [outcome] at drawing
      dsimp only at drawing
      cases drawing with
      | failed new _ => cases serves.resident.symm.trans new
      | built new _ => cases serves.resident.symm.trans new
      | hit resident =>
          cases serves.resident.symm.trans resident
          rw [fragmentResult_of_ok _ outcome]
          generalize isBetween : ({ session with counters := _ } : Session family) = between
          have filled : between.Filled := isBetween ▸ serves.filled
          have solving := solutionFor_count filled built key
          generalize between.solutionFor built key = ending at solving ⊢
          obtain ⟨answer, later⟩ := ending
          dsimp only at solving
          subst isBetween
          cases solving with
          | failed absent _ => cases (absent serves.bound slot member).symm.trans isFor
          | unkept unbound _ => exact absurd serves.bound unbound
          | kept _ absent _ => cases (absent slot member).symm.trans isFor
          | hit _ _ =>
              exact ⟨⟨spent.settled, spent.built, spent.unbuilt, spent.ran,
                congrArg Nat.succ spent.graphHits, congrArg Nat.succ spent.analysisHits⟩, rfl, rfl⟩

end Session

/-! ### Checkers in a shared session -/

namespace Checker

variable {α : Type} {checker : Checker} {places : Fragment → List α} {fragment : Fragment}

/-- A checker without places to judge asks nothing. -/
theorem JudgesByConstants.diagnose_idle (judges : checker.JudgesByConstants places)
    (empty : (places fragment).isEmpty = true) (session : StandardSession) (env : Environment) :
    checker.diagnose session fragment env = (.ok [], session) := by
  obtain ⟨judge, found⟩ := judges
  rw [diagnose, found, findByConstants, if_pos empty]
  rfl

/-- A checker with places to judge asks for constants, once. -/
theorem JudgesByConstants.diagnose_asks (judges : checker.JudgesByConstants places)
    (nonempty : (places fragment).isEmpty = false) (session : StandardSession)
    (env : Environment) :
    (checker.diagnose session fragment env).1.isOk =
      (session.fragmentResult fragment env (.constants true)).1.isOk ∧
    (checker.diagnose session fragment env).2 =
      (session.fragmentResult fragment env (.constants true)).2 := by
  obtain ⟨judge, found⟩ := judges
  rw [diagnose, found, findByConstants, nonempty, if_neg Bool.false_ne_true]
  refine ⟨?_, rfl⟩
  dsimp only
  rw [Session.isOk_map, Session.isOk_map]

end Checker

namespace Runner

open Session (Spent Accounts Ready)

variable {limits : Limits} {past : List Job} {job : Job} {session : StandardSession}
  {fragment : Fragment} {env : Environment}

/-- The counters of a session after some jobs of the standard checkers. -/
structure Economy (limits : Limits) (past : List Job) (session : StandardSession) : Prop where
  spent : Spent limits (past.countP Job.isBuilt) (past.countP Job.isUnbuilt)
    (past.countP (Job.isShared limits)) session
  accounts : ∃ graphs solutions unsolved unkept, Accounts graphs solutions unsolved unkept session
  owner : ∀ resident, session.resident = some resident → ∃ job ∈ past,
    job.fragment = resident.fragment

/-- One more item counts once if the test holds for it. -/
theorem countP_concat {α : Type} (test : α → Bool) (items : List α) (item : α) :
    (items ++ [item]).countP test = items.countP test + (test item).toNat := by
  rw [List.countP_append, List.countP_singleton]
  cases test item <;> rfl

/-- A checker that cannot answer is the last one. -/
theorem checkFragment_stops {checker : Checker} (checkers : List Checker) (report : Report)
    (failed : (checker.diagnose session fragment env).1.isOk = false) :
    (checkFragment fragment env (checker :: checkers) report session).2 =
      (checker.diagnose session fragment env).2 := by
  rw [checkFragment]
  cases outcome : checker.diagnose session fragment env with
  | mk answer later =>
      rw [outcome] at failed
      cases answer with
      | ok found => cases failed
      | error cause =>
          dsimp only
          split <;> rfl

/-- A checker that answers hands its session over. -/
theorem checkFragment_continues {checker : Checker} (checkers : List Checker) (report : Report)
    (answered : (checker.diagnose session fragment env).1.isOk = true) :
    ∃ later, checkFragment fragment env (checker :: checkers) report session =
      checkFragment fragment env checkers later (checker.diagnose session fragment env).2 := by
  cases outcome : (checker.diagnose session fragment env).1 with
  | error cause =>
      rw [outcome] at answered
      cases answered
  | ok found => exact ⟨_, checkFragment_ok report outcome⟩

/-- A checker without places to judge hands the session over as it is. -/
theorem checkFragment_idle {α : Type} {checker : Checker} {places : Fragment → List α}
    (judges : checker.JudgesByConstants places) (empty : (places fragment).isEmpty = true)
    (env : Environment) (checkers : List Checker) (report : Report) (session : StandardSession) :
    checkFragment fragment env (checker :: checkers) report session =
      checkFragment fragment env checkers report session := by
  have idle := judges.diagnose_idle empty session env
  have answered : (checker.diagnose session fragment env).1 = .ok [] := by rw [idle]
  rw [checkFragment_ok report answered, idle, List.append_nil]

/-- A single checker leaves the session as it does. -/
theorem checkFragment_last (checker : Checker) (report : Report) (session : StandardSession)
    (fragment : Fragment) (env : Environment) :
    (checkFragment fragment env [checker] report session).2 =
      (checker.diagnose session fragment env).2 := by
  cases answered : (checker.diagnose session fragment env).1.isOk with
  | false => exact checkFragment_stops [] report answered
  | true =>
      obtain ⟨later, continued⟩ := checkFragment_continues [] report answered
      rw [continued, checkFragment]

namespace Economy

/-- At the start nothing has been checked. -/
theorem start (limits : Limits) : Economy limits [] { limits } where
  spent := ⟨rfl, rfl, rfl, rfl, rfl, rfl⟩
  accounts := ⟨0, 0, 0, 0, .start limits⟩
  owner resident present := by cases present

/-- A fragment unlike all before it has no resident graph. -/
theorem new (economy : Economy limits past session)
    (apart : ∀ job ∈ past, job.fragment.same fragment = false) :
    session.residentGraph? fragment = none := by
  rw [Session.residentGraph?]
  cases present : session.resident with
  | none => rfl
  | some resident =>
      obtain ⟨job, member, same⟩ := economy.owner resident present
      rw [Option.bind_some, ← same, apart job member, if_neg Bool.false_ne_true]

/-- A job that adds its cost, and leaves nobody's graph but its own, is one more job. -/
theorem concat {later : StandardSession} (economy : Economy limits past session)
    (spent : Spent limits (past.countP Job.isBuilt + job.isBuilt.toNat)
      (past.countP Job.isUnbuilt + job.isUnbuilt.toNat)
      (past.countP (Job.isShared limits) + (job.isShared limits).toNat) later)
    (accounts : ∃ graphs solutions unsolved unkept, Accounts graphs solutions unsolved unkept later)
    (owner : ∀ resident, later.resident = some resident →
      resident.fragment = job.fragment ∨ session.resident = some resident) :
    Economy limits (past ++ [job]) later where
  spent := by
    rw [countP_concat, countP_concat, countP_concat]
    exact spent
  accounts := accounts
  owner resident present := by
    rcases owner resident present with own | old
    · exact ⟨job, List.mem_append_right _ List.mem_cons_self, own.symm⟩
    · obtain ⟨found, member, same⟩ := economy.owner resident old
      exact ⟨found, List.mem_append_left _ member, same⟩

/-- A job without anything to judge costs nothing. -/
theorem idle (economy : Economy limits past session) (free : job.isDue = false) :
    Economy limits (past ++ [job]) session := by
  apply economy.concat
  · have unshared : job.isShared limits = false := by
      rw [Job.isDue, Bool.or_eq_false_iff] at free
      rw [Job.isShared, free.1, Bool.false_and, Bool.false_and]
    rw [Job.isBuilt, Job.isUnbuilt, free, unshared, Bool.false_and, Bool.false_and]
    exact economy.spent
  · exact economy.accounts
  · exact fun resident present => Or.inr present

/-- A job for which constants are asked for once. -/
theorem asked (economy : Economy limits past session)
    (apart : ∀ other ∈ past, other.fragment.same job.fragment = false) (due : job.isDue = true)
    (unshared : job.isShared limits = false) :
    Economy limits (past ++ [job])
      (session.fragmentResult job.fragment job.env (.constants true)).2 := by
  have first := economy.spent.first (economy.new apart) job.env (.constants true)
  obtain ⟨graphs, solutions, unsolved, unkept, accounts⟩ := economy.accounts
  apply economy.concat
  · rw [Job.isBuilt, Job.isUnbuilt, due, unshared, Bool.true_and, Bool.true_and]
    exact first.spent
  · exact ⟨_, _, _, _, accounts.fragmentResult job.fragment job.env (.constants true)⟩
  · exact fun resident present => Or.inl (first.owner resident present)

/-- A job for which constants are asked for twice: the second time they are there. -/
theorem askedTwice (economy : Economy limits past session)
    (apart : ∀ other ∈ past, other.fragment.same job.fragment = false)
    (shared : job.isShared limits = true) :
    Economy limits (past ++ [job])
      ((session.fragmentResult job.fragment job.env (.constants true)).2.fragmentResult
        job.fragment job.env (.constants true)).2 := by
  have first := economy.spent.first (economy.new apart) job.env (.constants true)
  have due : job.isDue = true := by
    rw [Job.isShared, Bool.and_eq_true, Bool.and_eq_true] at shared
    rw [Job.isDue, shared.1.1, Bool.true_or]
  have solved : (job.fragment.constants job.env limits).isOk = true := by
    rw [Job.isShared, Bool.and_eq_true] at shared
    exact shared.2
  obtain ⟨built, serves⟩ := first.serves (first.answered.trans solved)
  obtain ⟨again, -, resident⟩ := first.spent.again serves job.env
  obtain ⟨graphs, solutions, unsolved, unkept, accounts⟩ := economy.accounts
  apply economy.concat
  · rw [Job.isBuilt, Job.isUnbuilt, due, shared, Bool.true_and, Bool.true_and]
    exact again
  · exact ⟨_, _, _, _, (accounts.fragmentResult job.fragment job.env
      (.constants true)).fragmentResult job.fragment job.env (.constants true)⟩
  · intro other present
    rw [resident] at present
    exact Or.inl (first.owner other present)

/-- Both checkers on a fragment add its cost. -/
theorem checkFragment (economy : Economy limits past session)
    (apart : ∀ other ∈ past, other.fragment.same job.fragment = false) (report : Report) :
    Economy limits (past ++ [job])
      (checkFragment job.fragment job.env Checker.standard report session).2 := by
  have noConditions := job.fragment.isEmpty_conditions
  have noDivisions := job.fragment.isEmpty_divisions
  have first := economy.spent.first (economy.new apart) job.env (.constants true)
  unfold Checker.standard
  cases tests : job.fragment.testsCondition with
  | false =>
      have unshared : job.isShared limits = false := by
        rw [Job.isShared, tests, Bool.false_and, Bool.false_and]
      rw [tests, Bool.not_false] at noConditions
      rw [checkFragment_idle Checker.constantCondition_judges noConditions, checkFragment_last]
      cases divides : job.fragment.divides with
      | false =>
          rw [divides, Bool.not_false] at noDivisions
          rw [Checker.divisionByZero_judges.diagnose_idle noDivisions]
          apply economy.idle
          rw [Job.isDue, tests, divides, Bool.or_false]
      | true =>
          rw [divides, Bool.not_true] at noDivisions
          rw [(Checker.divisionByZero_judges.diagnose_asks noDivisions _ _).2]
          apply economy.asked apart _ unshared
          rw [Job.isDue, divides, Bool.or_true]
  | true =>
      have due : job.isDue = true := by rw [Job.isDue, tests, Bool.true_or]
      rw [tests, Bool.not_true] at noConditions
      obtain ⟨answers, asks⟩ :=
        Checker.constantCondition_judges.diagnose_asks noConditions session job.env
      cases solved : (job.fragment.constants job.env limits).isOk with
      | false =>
          rw [checkFragment_stops _ report (answers.trans (first.answered.trans solved)), asks]
          apply economy.asked apart due
          rw [Job.isShared, solved, Bool.and_false]
      | true =>
          obtain ⟨later, continued⟩ := checkFragment_continues [.divisionByZero] report
            (answers.trans (first.answered.trans solved))
          rw [continued, checkFragment_last, asks]
          cases divides : job.fragment.divides with
          | false =>
              rw [divides, Bool.not_false] at noDivisions
              rw [Checker.divisionByZero_judges.diagnose_idle noDivisions]
              apply economy.asked apart due
              rw [Job.isShared, divides, Bool.and_false, Bool.false_and]
          | true =>
              rw [divides, Bool.not_true] at noDivisions
              rw [(Checker.divisionByZero_judges.diagnose_asks noDivisions _ _).2]
              apply economy.askedTwice apart
              rw [Job.isShared, tests, divides, solved]
              rfl

/-- Fragments that are checked one after the other add their costs. -/
theorem checkFragments {tree : Tree} {fragments : List Fragment}
    (economy : Economy limits past session) (ready : Ready limits tree env session)
    (identified : ∀ fragment ∈ tree.fragments, ∀ other ∈ tree.fragments,
      fragment.same other = true → fragment = other)
    (members : ∀ fragment ∈ fragments, fragment ∈ tree.fragments ∧ fragment.hasBody = true)
    (apart : ∀ other ∈ past, ∀ fragment ∈ fragments, other.fragment.same fragment = false)
    (distinct : fragments.Pairwise fun fragment other => fragment.same other = false)
    (report : Report) :
    Economy limits (past ++ fragments.map fun fragment => ⟨fragment, env⟩)
      (checkFragments Checker.standard env fragments report session).2 := by
  induction fragments generalizing past report session with
  | nil =>
      rw [List.map_nil, List.append_nil]
      exact economy
  | cons fragment fragments ih =>
      obtain ⟨isMember, isCode⟩ := members fragment List.mem_cons_self
      obtain ⟨first, rest⟩ := List.pairwise_cons.1 distinct
      obtain ⟨_, _, _, -, -, outcome⟩ := exists_outcome limits env isCode isMember
        (identified fragment isMember)
      have answered := outcome { report with fragmentsChecked := report.fragmentsChecked + 1 }
        session ready
      have after : Economy limits (past ++ [⟨fragment, env⟩]) _ := economy.checkFragment
        (fun other member => apart other member fragment List.mem_cons_self)
        { report with fragmentsChecked := report.fragmentsChecked + 1 }
      have nextApart : ∀ other ∈ past ++ [⟨fragment, env⟩], ∀ next ∈ fragments,
          other.fragment.same next = false := by
        intro other member next isNext
        rcases List.mem_append.1 member with old | new
        · exact apart other old next (List.mem_cons_of_mem _ isNext)
        · cases List.mem_singleton.1 new
          exact first next isNext
      have stillReady := checkFragment_invariant
        { report with fragmentsChecked := report.fragmentsChecked + 1 } ready
        fun checker standard session ready => ready_of_standard standard ready
          fun other isOther same => ⟨identified fragment isMember other isOther same, rfl⟩
      unfold Runner.checkFragments
      dsimp only
      cases done : Runner.checkFragment fragment env Checker.standard
          { report with fragmentsChecked := report.fragmentsChecked + 1 } session with
      | mk answer later =>
          rw [done] at answered after stillReady
          cases (answered : answer = _)
          rw [List.map_cons, List.append_cons]
          exact ih after stillReady
            (fun other member => members other (List.mem_cons_of_mem _ member)) nextApart rest _

end Economy

/-- No two fragments of a tree are taken for each other. -/
theorem pairwise_not_same (unit : Source.CompilationUnit) (serial : Nat) :
    (Tree.ofUnit unit serial).fragments.Pairwise fun fragment other =>
      fragment.same other = false := by
  have distinct := (Tree.nodup_ids_ofUnit unit serial).sublist (Fragment.roots_sublist _)
  refine (List.pairwise_map.1 distinct).imp fun {fragment other} differ => ?_
  apply Bool.eq_false_of_not_eq_true
  intro same
  rw [Fragment.same, Tree.Path.same, Bool.and_eq_true, Bool.and_eq_true, beq_iff_eq, beq_iff_eq]
    at same
  exact differ (Tree.Path.leaf_id_of_ids same.1.2)

/-- The fragments that are checked when units are checked one after the other, given by the
serial numbers of their trees. -/
def jobs (units : Nat → Source.CompilationUnit) (history : List (Nat × Environment)) : List Job :=
  history.flatMap fun past =>
    ((Tree.ofUnit (units past.1) past.1).fragments.filter Fragment.hasBody).map
      fun fragment => ⟨fragment, past.2⟩

/-- A longer history adds the fragments of one more tree. -/
theorem jobs_append (units : Nat → Source.CompilationUnit) (history : List (Nat × Environment))
    (past : Nat × Environment) :
    jobs units (history ++ [past]) = jobs units history ++
      ((Tree.ofUnit (units past.1) past.1).fragments.filter Fragment.hasBody).map
        fun fragment => ⟨fragment, past.2⟩ := by
  rw [jobs, List.flatMap_append, List.flatMap_singleton, jobs]

/-- A job belongs to a tree of the history. -/
theorem serial_of_mem_jobs {units : Nat → Source.CompilationUnit}
    {history : List (Nat × Environment)} (member : job ∈ jobs units history) :
    job.fragment.path.tree.serial ∈ history.map Prod.fst := by
  obtain ⟨past, isPast, found⟩ := List.mem_flatMap.1 member
  obtain ⟨fragment, isFragment, rfl⟩ := List.mem_map.1 found
  rw [Fragment.tree_of_mem_fragments (List.mem_of_mem_filter isFragment)]
  exact List.mem_map_of_mem isPast

/-- After every history with distinct trees the counts are those of its jobs. -/
theorem economy_after (limits : Limits) (units : Nat → Source.CompilationUnit)
    {history : List (Nat × Environment)} (separate : (history.map Prod.fst).Nodup) :
    Economy limits (jobs units history) (after limits units history).session := by
  induction history using List.reverseRecOn with
  | nil => exact .start limits
  | append_singleton history past ih =>
      rw [List.map_append, List.nodup_append] at separate
      obtain ⟨earlier, -, differ⟩ := separate
      have new : past.1 ∉ history.map Prod.fst := fun member =>
        differ past.1 member past.1 List.mem_cons_self rfl
      rw [after_append, jobs_append]
      unfold checkTree
      rw [checkers_after]
      apply (ih earlier).checkFragments (ready_after new)
      · exact fun fragment member other found => Fragment.eq_of_same member found
      · exact fun fragment member => ⟨List.mem_of_mem_filter member, List.of_mem_filter member⟩
      · intro job member fragment found
        apply Bool.eq_false_of_not_eq_true
        intro same
        rw [Fragment.same, Tree.Path.same, Bool.and_eq_true, Bool.and_eq_true, beq_iff_eq] at same
        have inTree := Fragment.tree_of_mem_fragments (List.mem_of_mem_filter found)
        have serial := serial_of_mem_jobs member
        rw [same.1.1, inTree] at serial
        exact new serial
      · exact (pairwise_not_same _ _).filter _

/-- A job that is due is built or fails. -/
theorem countP_due (jobs : List Job) :
    jobs.countP Job.isBuilt + jobs.countP Job.isUnbuilt = jobs.countP Job.isDue := by
  rw [List.countP_eq_countP_filter_add jobs Job.isDue fun job =>
    (Graph.ofFragment job.fragment job.env).isOk, List.countP_filter, List.countP_filter]
  rfl

/-- When separate units are checked one after the other, the graph of a fragment is built,
or fails to be built, exactly once if the fragment has something to judge and a body, and
never otherwise.  An analysis runs once on each graph.  The session serves a graph and a
solution once for each fragment on which both checkers ask and whose constants are found.
All graphs are given up, apart from the one that is resident at the end. -/
theorem checking_pays_once (limits : Limits) (units : Nat → Source.CompilationUnit)
    (history : List (Nat × Environment)) (separate : (history.map Prod.fst).Nodup) :
    let session := (after limits units history).session
    let counters := session.counters
    counters.graphBuilds + counters.buildFailures = (jobs units history).countP Job.isDue ∧
    counters.graphBuilds = (jobs units history).countP Job.isBuilt ∧
    counters.analysisRuns = counters.graphBuilds ∧
    counters.graphHits = (jobs units history).countP (Job.isShared limits) ∧
    counters.analysisHits = (jobs units history).countP (Job.isShared limits) ∧
    counters.graphEvictions + (if session.resident.isSome then 1 else 0) =
      counters.graphBuilds := by
  intro session counters
  obtain ⟨spent, ⟨_, _, _, _, accounts⟩, -⟩ := economy_after limits units separate
  refine ⟨?_, spent.built, spent.ran.trans spent.built.symm, spent.graphHits, spent.analysisHits,
    accounts.evictions.symm⟩
  rw [← countP_due, ← spent.built, ← spent.unbuilt]

end Runner

/-- A class with a method that tests before it divides, and one that only tests. -/
def shares : Source.CompilationUnit where
  name := "Shares"
  classes := [{ name := "Shares", members :=
    [.method "share" [⟨"n", "int"⟩] [] (some [.ifElse (.binary .gt (.ident "n") (.literal (.int 0)))
      [.returnValue (some (.binary .div (.literal (.int 12)) (.ident "n")))] none]),
      .method "wait" [] [] (some [.whileLoop (.call "busy" []) []])] }]

/-- The class is checked with the types that every program knows, and then with none. -/
def sharesChecked : List (Nat × Environment) :=
  [(0, .builtins), (1, TypeTable.empty.environment)]

/-- With known types both methods are analysed, the first one for both checkers; without
them the method with a parameter cannot be. -/
theorem shares_pay_once :
    let session := (Runner.after {} (fun _ => shares) sharesChecked).session
    session.counters.graphBuilds + session.counters.buildFailures = 4 ∧
    session.counters.graphBuilds = 3 ∧ session.counters.analysisRuns = 3 ∧
    session.counters.graphHits = 1 ∧ session.counters.analysisHits = 1 ∧
    session.counters.graphEvictions + (if session.resident.isSome then 1 else 0) = 3 := by
  have jobs : ((Runner.jobs (fun _ => shares) sharesChecked).map fun job =>
      (job.isDue, job.isBuilt, job.isShared {})) =
      [(true, true, true), (true, true, false), (true, false, false), (true, true, false)] := by
    decide +kernel
  have counts (test : Bool × Bool × Bool → Bool) :
      (Runner.jobs (fun _ => shares) sharesChecked).countP (fun job =>
        test (job.isDue, job.isBuilt, job.isShared {})) =
      [(true, true, true), (true, true, false), (true, false, false),
        (true, true, false)].countP test := by
    rw [← jobs, List.countP_map]
    rfl
  obtain ⟨due, built, ran, graphHits, analysisHits, evictions⟩ :=
    Runner.checking_pays_once {} (fun _ => shares) sharesChecked (by decide)
  have isBuilt := built.trans (counts fun costs => costs.2.1)
  have isShared := counts fun costs => costs.2.2
  exact ⟨due.trans (counts fun costs => costs.1), isBuilt, ran.trans isBuilt,
    graphHits.trans isShared, analysisHits.trans isShared, evictions.trans isBuilt⟩

end FragmentFlow
