import FragmentFlow.Proofs.Session.Runs

/-!
# Nothing is lost between the counters

Whatever a session is asked, its counters account for every request and for everything
that it made.  A request for a graph is a build, a hit or a failure; a graph that was
built is resident or was given up.  A request for a solution is a run or a hit; what a
run came to is kept, was given up, or is one of two things that are never kept: a
failure, or a solution on a graph that is not resident.
-/

namespace FragmentFlow.Session

variable {family : Family}

/-! ### Requests -/

/-- The graph on which a question asks for a solution: one that the caller holds, or the
graph of the fragment in question, if there is one. -/
def subject? (session : Session family) (query : Query family) : Option BuiltGraph :=
  match query with
  | .graph .. => none
  | .solution built _ => some built
  | .result .. | .resultAt .. | .valueAt .. =>
    query.request?.bind fun request => (session.graphFor request.1 request.2).1.toOption

/-- Whether a session keeps the graph with a serial number. -/
def holds (session : Session family) (serial : Nat) : Bool :=
  session.held.any fun built => built.serial == serial

/-- A question and the session that it is put to. -/
structure Turn (family : Family) where
  session : Session family
  query : Query family

namespace Turn

/-- The session after the question. -/
def next (turn : Turn family) : Session family :=
  (turn.session.ask turn.query).2

/-- Whether the question has an answer. -/
def succeeds (turn : Turn family) : Bool :=
  (turn.session.ask turn.query).1.isOk

/-- Whether the question makes a request for a graph. -/
def needsGraph (turn : Turn family) : Bool :=
  turn.query.request?.isSome

/-- Whether the question makes a request for a solution. -/
def needsSolution (turn : Turn family) : Bool :=
  (turn.session.subject? turn.query).isSome

/-- Whether an analysis ran without a solution: there was a graph, but no answer. -/
def isUnsolved (turn : Turn family) : Bool :=
  turn.needsSolution && !turn.succeeds

/-- Whether an analysis was solved on a graph that is not resident. -/
def isUnkept (turn : Turn family) : Bool :=
  turn.succeeds &&
    (turn.session.subject? turn.query).any fun built => !turn.next.holds built.serial

end Turn

/-- A session after some questions. -/
def askAll (session : Session family) (queries : List (Query family)) : Session family :=
  queries.foldl (fun session query => (session.ask query).2) session

/-- Some questions, each with the session that it is put to. -/
def turns (session : Session family) : List (Query family) → List (Turn family)
  | [] => []
  | query :: queries => ⟨session, query⟩ :: turns (session.ask query).2 queries

/-! ### What one request adds -/

/-- Converting an answer does not change whether it is one. -/
theorem isOk_map {α β : Type} (answer : Except Failure α) (f : α → β) :
    (answer.map f).isOk = answer.isOk := by
  cases answer <;> rfl

/-- Without a graph there is no result. -/
theorem fragmentResult_of_error {session between : Session family} {fragment : Fragment}
    {env : Environment} {failure : Failure} (key : family.Key)
    (failed : session.graphFor fragment env = (.error failure, between)) :
    session.fragmentResult fragment env key = (.error failure, between) := by
  rw [fragmentResult, failed]

/-- With a graph the result is that of its solution. -/
theorem fragmentResult_of_ok {session between : Session family} {fragment : Fragment}
    {env : Environment} {built : BuiltGraph} (key : family.Key)
    (drawn : session.graphFor fragment env = (.ok built, between)) :
    session.fragmentResult fragment env key =
      ((between.solutionFor built key).1.map fun found => ⟨built, found⟩,
        (between.solutionFor built key).2) := by
  rw [fragmentResult, drawn]
  dsimp only
  split
  · rename_i solved
    rw [solved]
    rfl
  · rename_i solved
    rw [solved]
    rfl

/-- The counters of a session account for a number of requests for graphs, a number of
requests for solutions, and the runs among them without a solution or with one that
could not be kept. -/
structure Accounts (graphs solutions unsolved unkept : Nat) (session : Session family) : Prop where
  bound : session.bound = session.resident.map fun resident => resident.graph.serial
  filled : session.Filled
  graphs : session.counters.graphBuilds + session.counters.graphHits +
    session.counters.buildFailures = graphs
  evictions : session.counters.graphBuilds = session.counters.graphEvictions +
    (if session.resident.isSome then 1 else 0)
  solutions : session.counters.analysisRuns + session.counters.analysisHits = solutions
  runs : session.counters.analysisRuns =
    session.slots.length + session.counters.analysisPurges + unsolved + unkept

/-- Asking for a solution holds the same graphs. -/
theorem holds_solutionFor {session : Session family} (filled : session.Filled)
    (built : BuiltGraph) (key : family.Key) (serial : Nat) :
    (session.solutionFor built key).2.holds serial = session.holds serial := by
  rw [holds, (solutionFor_step filled built key).held, holds]

namespace Accounts

variable {session later : Session family} {graphs solutions unsolved unkept : Nat}

/-- At the start all counts are zero. -/
theorem start (limits : Limits) : Accounts 0 0 0 0 ({ limits } : Session family) :=
  ⟨rfl, by simp [Filled], rfl, rfl, rfl, rfl⟩

/-- Giving up everything moves the graph and the solutions from one side to the other. -/
theorem clear (accounts : Accounts graphs solutions unsolved unkept session) :
    Accounts graphs solutions unsolved unkept session.clear where
  bound := rfl
  filled := by simp [Filled, Session.clear]
  graphs := accounts.graphs
  evictions := accounts.evictions
  solutions := accounts.solutions
  runs := by
    have runs := accounts.runs
    simp only [Session.clear, List.length_nil]
    omega

/-- A request for a graph is a hit, a failure or a build. -/
theorem graphFor {fragment : Fragment} {env : Environment} {answer : Except Failure BuiltGraph}
    (accounts : Accounts graphs solutions unsolved unkept session)
    (count : GraphCount session fragment env answer later) :
    Accounts (graphs + 1) solutions unsolved unkept later := by
  have requests := accounts.graphs
  cases count with
  | hit _ =>
      refine ⟨accounts.bound, accounts.filled, ?_, accounts.evictions, accounts.solutions,
        accounts.runs⟩
      dsimp only
      omega
  | failed _ _ =>
      refine ⟨rfl, accounts.clear.filled, ?_, accounts.evictions, accounts.solutions,
        accounts.clear.runs⟩
      dsimp only [Session.clear]
      omega
  | built _ _ =>
      refine ⟨rfl, accounts.clear.filled, ?_, ?_, accounts.solutions, accounts.clear.runs⟩
      · dsimp only [opened, Session.clear]
        omega
      · -- the graph that was given up is evicted, and the new one is resident
        exact congrArg Nat.succ accounts.evictions

theorem holds_eq (accounts : Accounts graphs solutions unsolved unkept session) (serial : Nat) :
    session.holds serial = decide (session.bound = some serial) := by
  rw [accounts.bound, holds, held]
  cases session.resident with
  | none => rfl
  | some resident =>
      simp only [Option.map_some, Option.toList_some, List.any_cons, List.any_nil, Bool.or_false,
        Option.some.injEq]
      rfl

/-- A request for a solution is a hit or a run, and what a run comes to is kept unless it
failed or the graph is not resident. -/
theorem solutionFor {built : BuiltGraph} {key : family.Key}
    {answer : Except Failure (FoundSolution family key)}
    (accounts : Accounts graphs solutions unsolved unkept session)
    (count : SolutionCount session built key answer later) :
    Accounts graphs (solutions + 1) (unsolved + (!answer.isOk).toNat)
      (unkept + (answer.isOk && !session.holds built.serial).toNat) later := by
  have requests := accounts.solutions
  have runs := accounts.runs
  rw [accounts.holds_eq]
  cases count with
  | hit bound _ _ =>
      rw [decide_eq_true bound]
      refine ⟨accounts.bound, accounts.filled, accounts.graphs, accounts.evictions, ?_, runs⟩
      dsimp only
      omega
  | failed _ _ =>
      refine ⟨accounts.bound, accounts.filled, accounts.graphs, accounts.evictions, ?_, ?_⟩
      · dsimp only [ran]
        omega
      · change session.counters.analysisRuns + 1 =
          session.slots.length + session.counters.analysisPurges + (unsolved + 1) + (unkept + 0)
        omega
  | unkept unbound _ =>
      rw [decide_eq_false unbound]
      refine ⟨accounts.bound, accounts.filled, accounts.graphs, accounts.evictions, ?_, ?_⟩
      · dsimp only [ran]
        omega
      · change session.counters.analysisRuns + 1 =
          session.slots.length + session.counters.analysisPurges + (unsolved + 0) + (unkept + 1)
        omega
  | kept bound _ _ belongs =>
      rw [decide_eq_true bound]
      refine ⟨accounts.bound, ?_, accounts.graphs, accounts.evictions, ?_, ?_⟩
      · intro slot member
        rcases List.mem_cons.1 member with rfl | old
        · exact ⟨_, rfl, belongs⟩
        · exact accounts.filled slot old
      · dsimp only [ran]
        omega
      · change session.counters.analysisRuns + 1 = (session.slots.length + 1) +
          session.counters.analysisPurges + (unsolved + 0) + (unkept + 0)
        omega

/-- A query for a fragment counts as one for a graph and, if there is one, for a solution. -/
theorem fragmentResult (accounts : Accounts graphs solutions unsolved unkept session)
    (fragment : Fragment) (env : Environment) (key : family.Key) :
    Accounts (graphs + 1)
      (solutions + (session.graphFor fragment env).1.toOption.isSome.toNat)
      (unsolved + ((session.graphFor fragment env).1.toOption.isSome &&
        !(session.fragmentResult fragment env key).1.isOk).toNat)
      (unkept + ((session.fragmentResult fragment env key).1.isOk &&
        (session.graphFor fragment env).1.toOption.any fun built =>
          !(session.fragmentResult fragment env key).2.holds built.serial).toNat)
      (session.fragmentResult fragment env key).2 := by
  have count := session.graphFor_count fragment env
  cases outcome : session.graphFor fragment env with
  | mk answer between =>
      rw [outcome] at count
      have middle := accounts.graphFor count
      cases answer with
      | error failure =>
          rw [fragmentResult_of_error key outcome]
          exact middle
      | ok built =>
          have after := middle.solutionFor (solutionFor_count middle.filled built key)
          rw [fragmentResult_of_ok key outcome]
          dsimp only [Except.toOption, Option.any_some]
          rw [isOk_map, holds_solutionFor middle.filled, Option.isSome_some, Bool.true_and]
          exact after

end Accounts

/-- The counters move along with a question. -/
def Turn.IsAccounted (turn : Turn family) : Prop :=
  ∀ {graphs solutions unsolved unkept : Nat},
    Accounts graphs solutions unsolved unkept turn.session →
    Accounts (graphs + turn.needsGraph.toNat) (solutions + turn.needsSolution.toNat)
      (unsolved + turn.isUnsolved.toNat) (unkept + turn.isUnkept.toNat) turn.next

namespace Turn

variable {turn : Turn family}

/-- A question that needs no graph and leaves the session as it is. -/
theorem isAccounted_idle (request : turn.query.request? = none)
    (subject : turn.session.subject? turn.query = none) (idle : turn.next = turn.session) :
    turn.IsAccounted := by
  intro graphs solutions unsolved unkept accounts
  rw [needsGraph, isUnsolved, isUnkept, needsSolution, request, subject, idle, Option.any_none,
    Bool.and_false]
  exact accounts

/-- A question for the analysis of a fragment. -/
theorem isAccounted_result {fragment : Fragment} {env : Environment} {key : family.Key}
    (request : turn.query.request? = some (fragment, env))
    (subject : turn.session.subject? turn.query =
      (turn.session.graphFor fragment env).1.toOption)
    (succeeds : turn.succeeds = (turn.session.fragmentResult fragment env key).1.isOk)
    (next : turn.next = (turn.session.fragmentResult fragment env key).2) :
    turn.IsAccounted := by
  intro graphs solutions unsolved unkept accounts
  rw [needsGraph, isUnsolved, isUnkept, needsSolution, request, subject, succeeds, next]
  exact accounts.fragmentResult fragment env key

/-- A question for the analysis around a position. -/
theorem isAccounted_resultAt {position : Tree.Path} {env : Environment} {key : family.Key}
    (request : turn.query.request? =
      (Query.located? position).map fun fragment => (fragment, env))
    (subject : turn.session.subject? turn.query = turn.query.request?.bind fun request =>
      (turn.session.graphFor request.1 request.2).1.toOption)
    (succeeds : turn.succeeds = (turn.session.resultFor position env key).1.isOk)
    (next : turn.next = (turn.session.resultFor position env key).2) :
    turn.IsAccounted := by
  rw [resultFor_eq] at succeeds next
  cases found : Query.located? position with
  | none =>
      rw [found] at request next
      rw [request] at subject
      exact isAccounted_idle request subject next
  | some fragment =>
      rw [found] at request next succeeds
      rw [request] at subject
      exact isAccounted_result request subject (succeeds.trans (isOk_map _ _)) next

end Turn

/-- Every query is counted. -/
theorem isAccounted (session : Session family) (query : Query family) :
    Turn.IsAccounted ⟨session, query⟩ := by
  cases query with
  | graph fragment env =>
      intro graphs solutions unsolved unkept accounts
      have after := accounts.graphFor (session.graphFor_count fragment env)
      rw [Turn.isUnkept, Turn.isUnsolved, Turn.needsSolution, subject?, Option.any_none,
        Bool.and_false]
      exact after
  | solution built key =>
      intro graphs solutions unsolved unkept accounts
      have after := accounts.solutionFor (solutionFor_count accounts.filled built key)
      rw [← holds_solutionFor accounts.filled] at after
      exact after
  | result fragment env key => exact Turn.isAccounted_result rfl rfl rfl rfl
  | resultAt position env key => exact Turn.isAccounted_resultAt rfl rfl rfl rfl
  | valueAt position env key =>
      by_cases isExpression : position.leaf.isExpression = true
      · have valued : session.valueOf position env key =
            ((session.resultFor position env key).1.map fun result =>
              result.bind fun result => result.valueAt position.leaf.id,
              (session.resultFor position env key).2) := by
          rw [valueOf, if_pos isExpression]
        apply Turn.isAccounted_resultAt
        · exact if_pos isExpression
        · rfl
        · rw [Turn.succeeds, ask, valued]
          exact isOk_map _ _
        · rw [Turn.next, ask, valued]
      · have request : (Query.valueAt position env key : Query family).request? = none :=
          if_neg isExpression
        apply Turn.isAccounted_idle request
        · rw [subject?, request]
          rfl
        · rw [Turn.next, ask, valueOf, if_neg isExpression]

/-! ### What a run adds -/

theorem toNat_add_countP {α : Type} (test : α → Bool) (head : α) (tail : List α) (before : Nat) :
    before + (test head).toNat + tail.countP test = before + (head :: tail).countP test := by
  rw [List.countP_cons]
  cases test head with
  | false => rw [Bool.toNat_false, if_neg Bool.false_ne_true]; omega
  | true => rw [Bool.toNat_true, if_pos rfl]; omega

/-- The counts after some queries are those of their turns. -/
theorem Accounts.askAll {session : Session family} {graphs solutions unsolved unkept : Nat}
    (accounts : Accounts graphs solutions unsolved unkept session)
    (queries : List (Query family)) :
    Accounts (graphs + (session.turns queries).countP Turn.needsGraph)
      (solutions + (session.turns queries).countP Turn.needsSolution)
      (unsolved + (session.turns queries).countP Turn.isUnsolved)
      (unkept + (session.turns queries).countP Turn.isUnkept) (session.askAll queries) := by
  induction queries generalizing session graphs solutions unsolved unkept with
  | nil => exact accounts
  | cons query queries ih =>
      have after := ih (session.isAccounted query accounts)
      rw [toNat_add_countP, toNat_add_countP, toNat_add_countP, toNat_add_countP] at after
      exact after

/-- After every run, each request for a graph was a build, a hit or a failure, and each
graph that was built was given up, apart from the resident one.  Each request for a
solution was a run or a hit, and the solution that a run came to is kept or was given
up, apart from the runs that failed and those on graphs that were not resident. -/
theorem counters_conserve (limits : Limits) (queries : List (Query family)) :
    let turns := ({ limits } : Session family).turns queries
    let session := ({ limits } : Session family).askAll queries
    let counters := session.counters
    counters.graphBuilds + counters.graphHits + counters.buildFailures =
      turns.countP Turn.needsGraph ∧
    counters.graphBuilds = counters.graphEvictions + (if session.resident.isSome then 1 else 0) ∧
    counters.analysisRuns + counters.analysisHits = turns.countP Turn.needsSolution ∧
    counters.analysisRuns = session.slots.length + counters.analysisPurges +
      turns.countP Turn.isUnsolved + turns.countP Turn.isUnkept := by
  have new : Accounts 0 0 0 0 ({ limits } : Session family) := .start limits
  have accounts := new.askAll queries
  rw [Nat.zero_add, Nat.zero_add, Nat.zero_add, Nat.zero_add] at accounts
  exact ⟨accounts.graphs, accounts.evictions, accounts.solutions, accounts.runs⟩

end FragmentFlow.Session
