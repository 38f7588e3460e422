import FragmentFlow.Proofs.Drawing.TypeNames
import FragmentFlow.Proofs.Session.Residency

/-!
# Answers do not depend on what a session keeps

Apart from serial numbers, the answer to a question is the one that a new session
gives: the graph that is drawn for the fragment and the solution on it.  This needs
what the callers promise: a position determines its fragment, because trees have serial
numbers of their own, and the types that a fragment names are known to all questions
about it or to none.
-/

namespace FragmentFlow

variable {family : Family}

/-- An analysis of a fragment without its serial numbers. -/
def FragmentResult.content {key : family.Key} (result : FragmentResult family key) :
    Graph × family.Solution key :=
  (result.graph.graph, result.found.solution)

namespace Session

namespace Query

/-- What an answer says without its serial numbers. -/
def Content : Query family → Type
  | graph .. => Graph
  | solution _ key => family.Solution key
  | result _ _ key => Graph × family.Solution key
  | resultAt _ _ key => Option (Graph × family.Solution key)
  | valueAt _ _ key => Option (family.Value key)

/-- The content of an answer. -/
def content : (query : Query family) → query.Answer → query.Content
  | graph .. => BuiltGraph.graph
  | solution .. => FoundSolution.solution
  | result .. => FragmentResult.content
  | resultAt .. => Option.map FragmentResult.content
  | valueAt .. => id

/-- A question is about trees that are told apart by their serial numbers. -/
def InTrees (units : Nat → Source.CompilationUnit) : Query family → Prop
  | graph fragment _ | result fragment _ _ =>
    ∃ serial, fragment ∈ (Tree.ofUnit (units serial) serial).fragments
  | solution .. => True
  | resultAt position _ _ | valueAt position _ _ =>
    ∃ serial, position ∈ (Tree.ofUnit (units serial) serial).paths

theorem mem_fragments_of_located? {tree : Tree} {position : Tree.Path} {fragment : Fragment}
    (member : position ∈ tree.paths) (located : located? position = some fragment) :
    fragment ∈ tree.fragments :=
  Fragment.mem_fragments_of_locate member (Option.filter_eq_some_iff.1 located).1

/-- The fragment that a question needs is one of the trees. -/
theorem InTrees.fragment {units : Nat → Source.CompilationUnit} {query : Query family}
    {fragment : Fragment} {env : Environment} (inTrees : query.InTrees units)
    (request : query.request? = some (fragment, env)) :
    ∃ serial, fragment ∈ (Tree.ofUnit (units serial) serial).fragments := by
  have located : ∀ {position : Tree.Path} {other : Environment},
      (∃ serial, position ∈ (Tree.ofUnit (units serial) serial).paths) →
      ((located? position).map fun fragment => (fragment, other)) = some (fragment, env) →
      ∃ serial, fragment ∈ (Tree.ofUnit (units serial) serial).fragments := by
    rintro position other ⟨serial, member⟩ found
    obtain ⟨inner, located, same⟩ := Option.map_eq_some_iff.1 found
    cases same
    exact ⟨serial, mem_fragments_of_located? member located⟩
  cases query with
  | graph => cases request; exact inTrees
  | solution => cases request
  | result => cases request; exact inTrees
  | resultAt => exact located inTrees request
  | valueAt =>
      rw [request?] at request
      split at request
      · exact located inTrees request
      · cases request

/-- The answer to a question from nothing but the question. -/
def direct (limits : Limits) : (query : Query family) → Except Failure query.Content
  | graph fragment env => Graph.ofFragment fragment env
  | solution built key => (family.analysis key).solve limits built.graph
  | result fragment env key => analysed fragment env key
  | resultAt position env key => analysedAt position env key
  | valueAt position env key =>
    if position.leaf.isExpression then
      (analysedAt position env key).map fun result => result.bind fun found =>
        (family.analysis key).valueAt found.1 found.2 position.leaf.id
    else .error (.notAnExpression position.leaf.kindName)
where
  analysed (fragment : Fragment) (env : Environment) (key : family.Key) :
      Except Failure (Graph × family.Solution key) := do
    let graph ← Graph.ofFragment fragment env
    let solution ← (family.analysis key).solve limits graph
    return (graph, solution)
  analysedAt (position : Tree.Path) (env : Environment) (key : family.Key) :
      Except Failure (Option (Graph × family.Solution key)) :=
    match located? position with
    | none => .ok none
    | some fragment => (analysed fragment env key).map some

end Query

/-! ### Answers from what is kept -/

/-- A graph that is kept for a fragment is the one that would be drawn for it. -/
def Trusts (session : Session family) (fragment : Fragment) (env : Environment) : Prop :=
  ∀ resident, session.resident = some resident → resident.fragment.same fragment = true →
    Graph.ofFragment fragment env = .ok resident.graph.graph

/-- A step for a graph answers with that of the fragment. -/
theorem GraphStep.content {session later : Session family} {fragment : Fragment}
    {env : Environment} {answer : Except Failure BuiltGraph}
    (trusts : session.Trusts fragment env)
    (step : GraphStep session fragment env answer later) :
    answer.map BuiltGraph.graph = Graph.ofFragment fragment env := by
  cases step with
  | hit found =>
      obtain ⟨resident, present, kept⟩ := Option.bind_eq_some_iff.1 found
      split at kept
      · rename_i same
        cases kept
        exact (trusts resident present same).symm
      · cases kept
  | failed _ drawn => exact drawn.symm
  | built _ drawn => exact drawn.symm

/-- A graph that was answered is identified by its serial. -/
theorem GraphStep.identifies {session later : Session family} {fragment : Fragment}
    {env : Environment} {built : BuiltGraph}
    (step : GraphStep session fragment env (.ok built) later) : later.Identifies built := by
  obtain ⟨resident, present, same⟩ := Session.mem_held.1 step.mem_held
  intro other isOther _
  cases present.symm.trans isOther
  exact same

/-- A step for a graph keeps the limits. -/
theorem GraphStep.limits {session later : Session family} {fragment : Fragment}
    {env : Environment} {answer : Except Failure BuiltGraph}
    (step : GraphStep session fragment env answer later) : later.limits = session.limits := by
  cases step with
  | hit _ keeps => exact keeps.limits
  | failed _ _ _ limits => exact limits
  | built _ _ _ _ _ limits => exact limits

/-- A step for a solution keeps the limits. -/
theorem SolutionStep.limits {session later : Session family} {built : BuiltGraph}
    {key : family.Key} {answer : Except Failure (FoundSolution family key)}
    (step : SolutionStep session built key answer later) : later.limits = session.limits := by
  cases step with
  | hit _ _ _ keeps => exact keeps.limits
  | failed _ keeps => exact keeps.limits
  | unkept _ _ keeps => exact keeps.limits
  | solved _ _ _ _ keeps => exact keeps.limits

/-- A step for a solution answers with that of the graph. -/
theorem SolutionStep.content {session later : Session family} {built : BuiltGraph}
    {key : family.Key} {answer : Except Failure (FoundSolution family key)}
    (sound : session.Sound) (identifies : session.Identifies built)
    (step : SolutionStep session built key answer later) :
    answer.map FoundSolution.solution =
      (family.analysis key).solve session.limits built.graph := by
  cases step with
  | hit bound member =>
      obtain ⟨resident, present, same⟩ := Option.map_eq_some_iff.1 (sound.bound.symm.trans bound)
      obtain ⟨owner, isOwner, -, found, ⟨result, -⟩, solved⟩ := sound.slots _ member
      cases present.symm.trans isOwner
      rw [← identifies resident present same, FoundSolution.erase_inj (Option.some.inj result)]
      exact solved.symm
  | failed solved => exact solved.symm
  | unkept _ solved => exact solved.symm
  | solved _ _ solved => exact solved.symm

/-- A step for a result answers with that of the fragment. -/
theorem ResultStep.content {session later : Session family} {fragment : Fragment}
    {env : Environment} {key : family.Key} {answer : Except Failure (FragmentResult family key)}
    (sound : session.Sound) (trusts : session.Trusts fragment env)
    (step : ResultStep session fragment env key answer later) :
    answer.map FragmentResult.content =
      Query.direct.analysed session.limits fragment env key := by
  unfold Query.direct.analysed
  cases step with
  | undrawn drawn =>
      rw [← drawn.content trusts]
      rfl
  | unsolved drawn solved =>
      have same := solved.content (sound.graphStep drawn) drawn.identifies
      rw [drawn.limits] at same
      rw [← drawn.content trusts]
      simp only [Except.map, bind, Except.bind, ← same]
  | solved drawn solved =>
      have same := solved.content (sound.graphStep drawn) drawn.identifies
      rw [drawn.limits] at same
      rw [← drawn.content trusts]
      simp only [Except.map, bind, Except.bind, ← same]
      rfl

/-- A query at a position answers with the result of the fragment there. -/
theorem resultFor_content {session : Session family} {position : Tree.Path} {env : Environment}
    {key : family.Key} (sound : session.Sound)
    (trusts : ∀ fragment, Query.located? position = some fragment →
      session.Trusts fragment env) :
    (session.resultFor position env key).1.map (Option.map FragmentResult.content) =
      Query.direct.analysedAt session.limits position env key := by
  rw [resultFor_eq, Query.direct.analysedAt]
  cases found : Query.located? position with
  | none => rfl
  | some fragment =>
      have content := (fragmentResult_step sound.filled fragment env key).content sound
        (trusts fragment found)
      dsimp only
      rw [← content]
      cases (session.fragmentResult fragment env key).1 with
      | error failure => rfl
      | ok result => rfl

/-- A session that is sound and trusted answers as the question alone demands. -/
theorem ask_content {session : Session family} {query : Query family} (sound : session.Sound)
    (trusts : ∀ fragment env, query.request? = some (fragment, env) →
      session.Trusts fragment env)
    (identifies : ∀ built key, query = .solution built key → session.Identifies built) :
    (session.ask query).1.map query.content = query.direct session.limits := by
  cases query with
  | graph fragment env =>
      exact (session.graphFor_step fragment env).content (trusts fragment env rfl)
  | solution built key =>
      exact (solutionFor_step sound.filled built key).content sound (identifies built key rfl)
  | result fragment env key =>
      exact (fragmentResult_step sound.filled fragment env key).content sound
        (trusts fragment env rfl)
  | resultAt position env key =>
      refine resultFor_content sound fun fragment found => trusts fragment env ?_
      rw [Query.request?, found, Option.map_some]
  | valueAt position env key =>
      unfold ask Query.direct valueOf
      dsimp only
      split
      · rename_i isExpression
        rw [← resultFor_content sound fun fragment found => trusts fragment env (by
          rw [Query.request?, if_pos isExpression, found, Option.map_some])]
        cases (session.resultFor position env key).1 with
        | error failure => rfl
        | ok result =>
            cases result with
            | none => rfl
            | some result => rfl
      · rfl

/-- Fragments of trees with serial numbers of their own are told apart by their keys. -/
theorem eq_of_same_inTrees {units : Nat → Source.CompilationUnit} {fragment other : Fragment}
    (member : ∃ serial, fragment ∈ (Tree.ofUnit (units serial) serial).fragments)
    (found : ∃ serial, other ∈ (Tree.ofUnit (units serial) serial).fragments)
    (same : fragment.same other = true) : fragment = other := by
  obtain ⟨serial, inTree⟩ := member
  obtain ⟨otherSerial, inOther⟩ := found
  have serials : fragment.path.tree.serial = other.path.tree.serial := by
    rw [Fragment.same, Tree.Path.same, Bool.and_eq_true, Bool.and_eq_true, beq_iff_eq] at same
    exact same.1.1
  rw [Fragment.tree_of_mem_fragments inTree, Fragment.tree_of_mem_fragments inOther] at serials
  cases (serials : serial = otherSerial)
  exact Fragment.eq_of_same inTree inOther same

/-- Whatever a session was asked before, its answer to a question says what the answer
of a new session with the same limits says: a value or the same failure. -/
theorem ask_transparent {limits : Limits} (units : Nat → Source.CompilationUnit)
    {queries : List (Query family)} {graphs : List BuiltGraph} {session : Session family}
    (run : Run limits queries graphs session) (query : Query family)
    (supplied : query.Supplied graphs) (inTrees : ∀ asked ∈ queries ++ [query], asked.InTrees units)
    (alike : ∀ asked ∈ queries, ∀ fragment env other,
      asked.request? = some (fragment, env) → query.request? = some (fragment, other) →
      ∀ ty ∈ fragment.typeNames, env.resolves ty = other.resolves ty) :
    (session.ask query).1.map query.content =
      (({ limits } : Session family).ask query).1.map query.content := by
  have traced := run.traced
  have trusts : ∀ fragment env, query.request? = some (fragment, env) →
      session.Trusts fragment env := by
    intro fragment env request resident present same
    obtain ⟨asked, member, before, requested, drawn⟩ := traced.origin resident present
    have equal : resident.fragment = fragment := eq_of_same_inTrees
      ((inTrees asked (List.mem_append_left _ member)).fragment requested)
      ((inTrees query (List.mem_append_right _ List.mem_cons_self)).fragment request) same
    rw [equal] at requested drawn
    rw [← drawn]
    exact (Graph.ofFragment_congr (alike asked member fragment before env requested request)).symm
  have kept := ask_content traced.sound trusts fun built key isSolution => by
    rw [isSolution] at supplied
    exact traced.identifies supplied
  have new : (({ limits } : Session family).ask query).1.map query.content =
      query.direct limits :=
    ask_content Traced.start.sound (fun fragment env _ resident absent => nomatch absent)
      fun built key _ resident absent => nomatch absent
  rw [kept, new, traced.settled]

end Session

/-- After its graph was given up for one that cannot be built, and built again, the
quotient is analysed as in a new session, on either graph. -/
theorem quotientField_transparent : ∃ graphs, ∃ session : Session Family.standard,
    Session.Run {} [.graph quotientField .builtins, .graph lostField .builtins,
      .graph quotientField .builtins] graphs session ∧
    graphs.map BuiltGraph.serial = [0, 1] ∧ ∀ built ∈ graphs,
      ∀ query ∈ [.solution built (AnalysisKey.constants true), quotientConstants true],
        (session.ask query).1.map query.content =
          (({} : Session Family.standard).ask query).1.map query.content := by
  have new : Session.Run {} [] [] ({} : Session Family.standard) := .start
  have run := ((new.ask (.graph quotientField .builtins) trivial).ask
    (.graph lostField .builtins) trivial).ask (.graph quotientField .builtins) trivial
  refine ⟨_, _, run, ?_, fun built member query isQuery => ?_⟩
  · decide +kernel
  · have half : ∃ serial, quotientField ∈ (Tree.ofUnit quotients serial).fragments :=
      ⟨0, List.head_mem _⟩
    have lost : ∃ serial, lostField ∈ (Tree.ofUnit quotients serial).fragments :=
      ⟨0, List.getLast_mem _⟩
    simp only [List.mem_cons, List.not_mem_nil, or_false] at isQuery
    refine Session.ask_transparent (fun _ => quotients) run query ?_ (fun asked isAsked => ?_)
      fun asked isAsked fragment env other requested request => ?_
    · rcases isQuery with rfl | rfl
      · exact Or.inl member
      · trivial
    · simp only [List.nil_append, List.cons_append, List.mem_cons, List.not_mem_nil,
        or_false] at isAsked
      rcases isAsked with rfl | rfl | rfl | rfl
      · exact half
      · exact lost
      · exact half
      · rcases isQuery with rfl | rfl
        · trivial
        · exact half
    · -- all questions are asked in the same environment
      simp only [List.nil_append, List.cons_append, List.mem_cons, List.not_mem_nil,
        or_false] at isAsked
      have given : env = .builtins := by
        rcases isAsked with rfl | rfl | rfl <;>
          exact (Prod.mk.inj (Option.some.inj requested)).2.symm
      rcases isQuery with rfl | rfl
      · cases request
      · rw [given, ← (Prod.mk.inj (Option.some.inj request)).2]
        simp

end FragmentFlow
