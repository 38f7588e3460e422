import FragmentFlow.Session.Basic
import Mathlib.Data.List.Nodup

/-!
# Runs of a session

A session is asked one question after another.  What it keeps is then always of one
piece: the bound serial number is that of the resident graph, the resident graph was
built for its fragment when a question asked for it, and every slot holds the solution
that solving its analysis on the resident graph gives.  An analysis has an empty slot
while it runs, and none after it has failed.
-/

namespace FragmentFlow

variable {family : Family}

/-- Giving a solution up its types loses nothing. -/
theorem FoundSolution.restore_erase {key : family.Key} (found : FoundSolution family key) :
    found.erase.restore key = .ok found :=
  dif_pos rfl

/-- A stored result is the one that was found. -/
theorem FoundSolution.erase_inj {key : family.Key} {found other : FoundSolution family key}
    (same : found.erase = other.erase) : found = other := by
  have restored := found.restore_erase
  rw [same, other.restore_erase] at restored
  exact (Except.ok.inj restored).symm

theorem Slot.isFor_iff {slot : Slot family} {key : family.Key} {serial : Nat} :
    slot.isFor key serial = true ↔ slot.key = key ∧ slot.graphSerial = serial := by
  rw [isFor, Bool.and_eq_true, decide_eq_true_iff, decide_eq_true_iff]

/-- A slot with a solution of its analysis on its graph. -/
def Slot.Holds (slot : Slot family) (found : FoundSolution family slot.key) : Prop :=
  slot.result = some found.erase ∧ found.graphSerial = slot.graphSerial

namespace Session

/-! ### Questions -/

/-- A question to a session. -/
inductive Query (family : Family) where
  | graph (fragment : Fragment) (env : Environment)
  /-- On a graph that the caller holds, wherever it is from. -/
  | solution (built : BuiltGraph) (key : family.Key)
  | result (fragment : Fragment) (env : Environment) (key : family.Key)
  | resultAt (position : Tree.Path) (env : Environment) (key : family.Key)
  | valueAt (position : Tree.Path) (env : Environment) (key : family.Key)

namespace Query

/-- What a question is answered with. -/
def Answer : Query family → Type
  | graph .. => BuiltGraph
  | solution _ key => FoundSolution family key
  | result _ _ key => FragmentResult family key
  | resultAt _ _ key => Option (FragmentResult family key)
  | valueAt _ _ key => Option (family.Value key)

/-- The fragment with a body around a position. -/
def located? (position : Tree.Path) : Option Fragment :=
  (Fragment.locate position).filter Fragment.hasBody

/-- The fragment whose graph a question needs, and the types it may name. -/
def request? : Query family → Option (Fragment × Environment)
  | graph fragment env | result fragment env _ => some (fragment, env)
  | solution .. => none
  | resultAt position env _ => (located? position).map fun fragment => (fragment, env)
  | valueAt position env _ =>
    if position.leaf.isExpression then
      (located? position).map fun fragment => (fragment, env)
    else none

/-- A graph that the caller holds is one of those that the session gave out, or has a
serial number that the session did not give out. -/
def Supplied (graphs : List BuiltGraph) : Query family → Prop
  | solution built _ => built ∈ graphs ∨ ∀ other ∈ graphs, other.serial ≠ built.serial
  | _ => True

end Query

/-- Answers a question. -/
def ask (session : Session family) :
    (query : Query family) → Except Failure query.Answer × Session family
  | .graph fragment env => session.graphFor fragment env
  | .solution built key => session.solutionFor built key
  | .result fragment env key => session.fragmentResult fragment env key
  | .resultAt position env key => session.resultFor position env key
  | .valueAt position env key => session.valueOf position env key

/-- The graph that a session can give out. -/
def held (session : Session family) : List BuiltGraph :=
  (session.resident.map Resident.graph).toList

/-- The questions that a new session was asked, the graphs that it gave out, and the
session after them. -/
inductive Run (limits : Limits) :
    List (Query family) → List BuiltGraph → Session family → Prop where
  | start : Run limits [] [] { limits }
  | ask {queries : List (Query family)} {graphs : List BuiltGraph} {session : Session family}
      (query : Query family) : Run limits queries graphs session → query.Supplied graphs →
      Run limits (queries ++ [query]) (graphs ++ (session.ask query).2.held) (session.ask query).2

/-! ### What a question changes -/

/-- A later session keeps what a session keeps; only the counters and the next serial
number may have moved on. -/
structure Keeps (session later : Session family) : Prop where
  limits : later.limits = session.limits
  resident : later.resident = session.resident
  bound : later.bound = session.bound
  slots : later.slots = session.slots
  serial : session.nextSerial ≤ later.nextSerial

/-- A session keeps nothing. -/
structure Empty (session : Session family) : Prop where
  resident : session.resident = none
  bound : session.bound = none
  slots : session.slots = []

/-- Every slot of a session holds a solution. -/
def Filled (session : Session family) : Prop :=
  ∀ slot ∈ session.slots, ∃ found, slot.Holds found

/-- The answer to a question for a graph and the session after it. -/
inductive GraphStep (session : Session family) (fragment : Fragment) (env : Environment) :
    Except Failure BuiltGraph → Session family → Prop where
  | hit {built : BuiltGraph} {later : Session family} :
      session.residentGraph? fragment = some built → session.Keeps later →
      GraphStep session fragment env (.ok built) later
  | failed {failure : Failure} {later : Session family} :
      session.residentGraph? fragment = none →
      Graph.ofFragment fragment env = .error failure → later.Empty →
      later.limits = session.limits → later.nextSerial = session.nextSerial →
      GraphStep session fragment env (.error failure) later
  | built {graph : Graph} {later : Session family} :
      session.residentGraph? fragment = none → Graph.ofFragment fragment env = .ok graph →
      later.resident = some ⟨fragment, ⟨session.nextSerial, graph⟩⟩ →
      later.bound = some session.nextSerial → later.slots = [] →
      later.limits = session.limits → later.nextSerial = session.nextSerial + 1 →
      GraphStep session fragment env (.ok ⟨session.nextSerial, graph⟩) later

/-- The answer to a question for a solution and the session after it. -/
inductive SolutionStep (session : Session family) (built : BuiltGraph) (key : family.Key) :
    Except Failure (FoundSolution family key) → Session family → Prop where
  | hit {found : FoundSolution family key} {later : Session family} :
      session.bound = some built.serial →
      { key, graphSerial := built.serial, result := some found.erase } ∈ session.slots →
      found.graphSerial = built.serial → session.Keeps later →
      SolutionStep session built key (.ok found) later
  | failed {failure : Failure} {later : Session family} :
      (family.analysis key).solve session.limits built.graph = .error failure →
      session.Keeps later → SolutionStep session built key (.error failure) later
  | unkept {found : FoundSolution family key} {later : Session family} :
      session.bound ≠ some built.serial →
      (family.analysis key).solve session.limits built.graph = .ok found.solution →
      session.Keeps later → SolutionStep session built key (.ok found) later
  | solved {found : FoundSolution family key} {later : Session family} :
      session.bound = some built.serial →
      (∀ slot ∈ session.slots, slot.isFor key built.serial = false) →
      (family.analysis key).solve session.limits built.graph = .ok found.solution →
      found.graphSerial = built.serial → session.Keeps { later with slots := session.slots } →
      later.slots =
        { key, graphSerial := built.serial, result := some found.erase } :: session.slots →
      SolutionStep session built key (.ok found) later

/-- A session that gave up what it kept and has built the graph of a fragment. -/
def opened (session : Session family) (fragment : Fragment) (graph : Graph) : Session family :=
  { session.clear with
    resident := some ⟨fragment, ⟨session.nextSerial, graph⟩⟩
    bound := some session.nextSerial
    counters := { session.clear.counters with graphBuilds := session.counters.graphBuilds + 1 }
    nextSerial := session.nextSerial + 1 }

/-- The answer to a request for a graph and the session after it, counters included. -/
inductive GraphCount (session : Session family) (fragment : Fragment) (env : Environment) :
    Except Failure BuiltGraph → Session family → Prop where
  | hit {built : BuiltGraph} : session.residentGraph? fragment = some built →
      GraphCount session fragment env (.ok built)
        { session with counters :=
          { session.counters with graphHits := session.counters.graphHits + 1 } }
  | failed {failure : Failure} : session.residentGraph? fragment = none →
      Graph.ofFragment fragment env = .error failure →
      GraphCount session fragment env (.error failure)
        { session.clear with counters :=
          { session.clear.counters with buildFailures := session.counters.buildFailures + 1 } }
  | built {graph : Graph} : session.residentGraph? fragment = none →
      Graph.ofFragment fragment env = .ok graph →
      GraphCount session fragment env (.ok ⟨session.nextSerial, graph⟩)
        (session.opened fragment graph)

/-- Asking for a graph counts as a hit or as a built graph. -/
theorem graphFor_count (session : Session family) (fragment : Fragment) (env : Environment) :
    GraphCount session fragment env (session.graphFor fragment env).1
      (session.graphFor fragment env).2 := by
  unfold graphFor
  cases resident : session.residentGraph? fragment with
  | some built => exact .hit resident
  | none =>
      dsimp only
      unfold buildGraph
      cases drawn : Graph.ofFragment fragment env with
      | error failure => exact .failed resident drawn
      | ok graph => exact .built resident drawn

/-- What a request for a graph does, counters aside. -/
theorem GraphCount.step {session later : Session family} {fragment : Fragment}
    {env : Environment} {answer : Except Failure BuiltGraph}
    (count : GraphCount session fragment env answer later) :
    GraphStep session fragment env answer later := by
  cases count with
  | hit resident => exact .hit resident ⟨rfl, rfl, rfl, rfl, Nat.le_refl _⟩
  | failed absent undrawn => exact .failed absent undrawn ⟨rfl, rfl, rfl⟩ rfl rfl
  | built absent drawn => exact .built absent drawn rfl rfl rfl rfl rfl

/-- Asking for a graph is one of the steps for graphs. -/
theorem graphFor_step (session : Session family) (fragment : Fragment) (env : Environment) :
    GraphStep session fragment env (session.graphFor fragment env).1
      (session.graphFor fragment env).2 :=
  (session.graphFor_count fragment env).step

/-! ### Slots -/

section Slots

variable {session : Session family} {key : family.Key} {serial : Nat}

/-- A slot that is there stays as it is. -/
theorem openSlot_of_mem {slot : Slot family} (member : slot ∈ session.slots)
    (isFor : slot.isFor key serial = true) : session.openSlot key serial = session :=
  if_pos (List.any_eq_true.2 ⟨slot, member, isFor⟩)

/-- A slot that is missing is made, and it is empty. -/
theorem openSlot_of_absent (absent : ∀ slot ∈ session.slots, slot.isFor key serial = false) :
    session.openSlot key serial =
      { session with slots := { key, graphSerial := serial } :: session.slots } :=
  if_neg fun there => by
    obtain ⟨slot, member, isFor⟩ := List.any_eq_true.1 there
    rw [absent slot member] at isFor
    cases isFor

/-- In a session with filled slots a slot has a solution with the types of its analysis. -/
theorem Filled.slotResult? (filled : session.Filled) {slot : Slot family}
    (member : slot ∈ session.slots) (isFor : slot.isFor key serial = true) :
    ∃ found : FoundSolution family key,
      { key, graphSerial := serial, result := some found.erase } ∈ session.slots ∧
        found.graphSerial = serial ∧ session.slotResult? key serial = some found.erase := by
  have there : (session.slots.find? (·.isFor key serial)).isSome :=
    List.find?_isSome.2 ⟨slot, member, isFor⟩
  obtain ⟨first, isFirst⟩ := Option.isSome_iff_exists.1 there
  have inSlots := List.mem_of_find?_eq_some isFirst
  obtain ⟨found, holds, belongs⟩ := filled first inSlots
  have firstIsFor := List.find?_some isFirst
  obtain ⟨sameKey, sameSerial⟩ := Slot.isFor_iff.1 firstIsFor
  subst sameKey sameSerial
  refine ⟨found, holds ▸ inSlots, belongs, ?_⟩
  rw [Session.slotResult?, isFirst]
  exact holds

variable {slots : List (Slot family)}

/-- A slot that has just been made is the one that is found. -/
theorem slotResult?_of_new (made : session.slots = { key, graphSerial := serial } :: slots) :
    session.slotResult? key serial = none := by
  rw [Session.slotResult?, made, List.find?_cons, Slot.isFor_iff.2 ⟨rfl, rfl⟩]
  rfl

/-- Forgetting a slot that has just been made leaves the others. -/
theorem forgetSlot_of_new (made : session.slots = { key, graphSerial := serial } :: slots)
    (absent : ∀ slot ∈ slots, slot.isFor key serial = false) :
    session.forgetSlot key serial = { session with slots } := by
  have others : slots.filter (fun slot => !(slot.isFor key serial && slot.result.isNone)) = slots :=
    List.filter_eq_self.2 fun slot member => by rw [absent slot member]; rfl
  rw [forgetSlot, made, List.filter_cons, Slot.isFor_iff.2 ⟨rfl, rfl⟩, others]
  rfl

/-- Filling a slot that has just been made leaves the others. -/
theorem fillSlot_of_new (made : session.slots = { key, graphSerial := serial } :: slots)
    (absent : ∀ slot ∈ slots, slot.isFor key serial = false) (erased : ErasedSolution family) :
    session.fillSlot key serial erased =
      { session with
        slots := { key, graphSerial := serial, result := some erased } :: slots } := by
  have others : slots.map (fun slot =>
      if slot.isFor key serial then { slot with result := some erased } else slot) = slots := by
    refine (List.map_congr_left fun slot member => ?_).trans (List.map_id slots)
    rw [absent slot member]
    rfl
  rw [fillSlot, made, List.map_cons, Slot.isFor_iff.2 ⟨rfl, rfl⟩, others]
  rfl

end Slots

/-- A session with one more run, without a solution. -/
def ran (session : Session family) : Session family :=
  { session with counters :=
    { session.counters with analysisRuns := session.counters.analysisRuns + 1 } }

/-- The answer to a request for a solution and the session after it, counters included. -/
inductive SolutionCount (session : Session family) (built : BuiltGraph) (key : family.Key) :
    Except Failure (FoundSolution family key) → Session family → Prop where
  | hit {found : FoundSolution family key} : session.bound = some built.serial →
      { key, graphSerial := built.serial, result := some found.erase } ∈ session.slots →
      found.graphSerial = built.serial →
      SolutionCount session built key (.ok found)
        { session with counters :=
          { session.counters with analysisHits := session.counters.analysisHits + 1 } }
  | failed {failure : Failure} : (session.bound = some built.serial →
        ∀ slot ∈ session.slots, slot.isFor key built.serial = false) →
      (family.analysis key).solve session.limits built.graph = .error failure →
      SolutionCount session built key (.error failure) session.ran
  | unkept {solution : family.Solution key} : session.bound ≠ some built.serial →
      (family.analysis key).solve session.limits built.graph = .ok solution →
      SolutionCount session built key (.ok ⟨session.nextSerial, built.serial, solution⟩)
        { session.ran with nextSerial := session.nextSerial + 1 }
  | kept {found : FoundSolution family key} : session.bound = some built.serial →
      (∀ slot ∈ session.slots, slot.isFor key built.serial = false) →
      (family.analysis key).solve session.limits built.graph = .ok found.solution →
      found.graphSerial = built.serial →
      SolutionCount session built key (.ok found)
        { session.ran with
          slots :=
            { key, graphSerial := built.serial, result := some found.erase } :: session.slots
          nextSerial := session.nextSerial + 1 }

/-- What a session with filled slots answers to a question for a solution, and what becomes
of it.  The slot that is made for an analysis has gone again when the analysis fails. -/
theorem solutionFor_count {session : Session family} (filled : session.Filled)
    (built : BuiltGraph) (key : family.Key) :
    SolutionCount session built key (session.solutionFor built key).1
      (session.solutionFor built key).2 := by
  unfold solutionFor
  by_cases bound : session.bound = some built.serial
  · rw [if_pos bound]
    by_cases known : ∃ slot ∈ session.slots, slot.isFor key built.serial = true
    · obtain ⟨slot, member, isFor⟩ := known
      obtain ⟨found, inSlots, belongs, result⟩ := filled.slotResult? member isFor
      rw [openSlot_of_mem member isFor]
      dsimp only
      rw [result]
      dsimp only
      rw [found.restore_erase]
      exact .hit bound inSlots belongs
    · have absent : ∀ slot ∈ session.slots, slot.isFor key built.serial = false := by
        intro slot member
        exact Bool.eq_false_iff.2 fun isFor => known ⟨slot, member, isFor⟩
      rw [openSlot_of_absent absent]
      dsimp only
      rw [slotResult?_of_new rfl]
      unfold runAnalysis
      dsimp only
      cases solved : (family.analysis key).solve session.limits built.graph with
      | error failure =>
          dsimp only
          rw [forgetSlot_of_new rfl absent]
          exact .failed (fun _ => absent) solved
      | ok solution =>
          dsimp only
          rw [fillSlot_of_new rfl absent]
          exact .kept bound absent solved rfl
  · rw [if_neg bound]
    unfold runAnalysis
    dsimp only
    cases solved : (family.analysis key).solve session.limits built.graph with
    | error failure => exact .failed (fun isBound => absurd isBound bound) solved
    | ok solution => exact .unkept bound solved

/-- What a request for a solution does, counters aside. -/
theorem SolutionCount.step {session later : Session family} {built : BuiltGraph}
    {key : family.Key} {answer : Except Failure (FoundSolution family key)}
    (count : SolutionCount session built key answer later) :
    SolutionStep session built key answer later := by
  cases count with
  | hit bound member belongs => exact .hit bound member belongs ⟨rfl, rfl, rfl, rfl, Nat.le_refl _⟩
  | failed _ unsolved => exact .failed unsolved ⟨rfl, rfl, rfl, rfl, Nat.le_refl _⟩
  | unkept unbound solved => exact .unkept unbound solved ⟨rfl, rfl, rfl, rfl, Nat.le_succ _⟩
  | kept bound absent solved belongs =>
      exact .solved bound absent solved belongs ⟨rfl, rfl, rfl, rfl, Nat.le_succ _⟩ rfl

/-- Asking for a solution is one of the steps for solutions. -/
theorem solutionFor_step {session : Session family} (filled : session.Filled)
    (built : BuiltGraph) (key : family.Key) :
    SolutionStep session built key (session.solutionFor built key).1
      (session.solutionFor built key).2 :=
  (solutionFor_count filled built key).step

/-- A question for a graph leaves the slots as they are or removes all of them. -/
theorem GraphStep.filled {session later : Session family} {fragment : Fragment}
    {env : Environment} {answer : Except Failure BuiltGraph}
    (step : GraphStep session fragment env answer later) (filled : session.Filled) :
    later.Filled := by
  cases step with
  | hit _ keeps => exact fun slot member => filled slot (keeps.slots ▸ member)
  | failed _ _ empty => simp [Filled, empty.slots]
  | built _ _ _ _ slots => simp [Filled, slots]

/-- The answer to a question for an analysis of a fragment and the session after it. -/
inductive ResultStep (session : Session family) (fragment : Fragment) (env : Environment)
    (key : family.Key) : Except Failure (FragmentResult family key) → Session family → Prop where
  | undrawn {failure : Failure} {later : Session family} :
      GraphStep session fragment env (.error failure) later →
      ResultStep session fragment env key (.error failure) later
  | unsolved {built : BuiltGraph} {failure : Failure} {between later : Session family} :
      GraphStep session fragment env (.ok built) between →
      SolutionStep between built key (.error failure) later →
      ResultStep session fragment env key (.error failure) later
  | solved {built : BuiltGraph} {found : FoundSolution family key}
      {between later : Session family} :
      GraphStep session fragment env (.ok built) between →
      SolutionStep between built key (.ok found) later →
      ResultStep session fragment env key (.ok ⟨built, found⟩) later

/-- Asking for a result takes a step for the graph and one for the solution. -/
theorem fragmentResult_step {session : Session family} (filled : session.Filled)
    (fragment : Fragment) (env : Environment) (key : family.Key) :
    ResultStep session fragment env key (session.fragmentResult fragment env key).1
      (session.fragmentResult fragment env key).2 := by
  have drawn := session.graphFor_step fragment env
  unfold fragmentResult
  cases outcome : session.graphFor fragment env with
  | mk answer between =>
      rw [outcome] at drawn
      cases answer with
      | error failure => exact .undrawn drawn
      | ok built =>
          have solved := solutionFor_step (drawn.filled filled) built key
          dsimp only
          cases ending : between.solutionFor built key with
          | mk answer later =>
              rw [ending] at solved
              cases answer with
              | error failure => exact .unsolved drawn solved
              | ok found => exact .solved drawn solved

theorem resultFor_eq (session : Session family) (position : Tree.Path) (env : Environment)
    (key : family.Key) :
    session.resultFor position env key =
      match Query.located? position with
      | none => (.ok none, session)
      | some fragment =>
        ((session.fragmentResult fragment env key).1.map some,
          (session.fragmentResult fragment env key).2) := by
  unfold resultFor Query.located?
  cases Fragment.locate position with
  | none => rfl
  | some fragment =>
      rw [Option.filter_some]
      dsimp only
      split <;> rfl

/-! ### What a session keeps is of one piece -/

/-- The slots of a session hold the solutions on the graph that it keeps. -/
structure Sound (session : Session family) : Prop where
  bound : session.bound = session.resident.map fun resident => resident.graph.serial
  slots : ∀ slot ∈ session.slots, ∃ resident, session.resident = some resident ∧
    slot.graphSerial = resident.graph.serial ∧ ∃ found, slot.Holds found ∧
      (family.analysis slot.key).solve session.limits resident.graph.graph = .ok found.solution
  distinct : (session.slots.map Slot.key).Nodup

/-- No slot of a sound session is empty. -/
theorem Sound.filled {session : Session family} (sound : session.Sound) : session.Filled := by
  intro slot member
  obtain ⟨_, -, -, found, holds, -⟩ := sound.slots slot member
  exact ⟨found, holds⟩

/-- A session without graphs and slots is sound. -/
theorem Empty.sound {session : Session family} (empty : session.Empty) : session.Sound where
  bound := by rw [empty.bound, empty.resident, Option.map_none]
  slots := by simp [empty.slots]
  distinct := by simp [empty.slots]

/-- A session that keeps its contents stays sound. -/
theorem Sound.keep {session later : Session family} (sound : session.Sound)
    (keeps : session.Keeps later) : later.Sound where
  bound := by rw [keeps.bound, keeps.resident, sound.bound]
  slots := by
    rw [keeps.slots, keeps.resident, keeps.limits]
    exact sound.slots
  distinct := keeps.slots ▸ sound.distinct

/-- A step for a graph keeps a session sound. -/
theorem Sound.graphStep {session later : Session family} {fragment : Fragment} {env : Environment}
    {answer : Except Failure BuiltGraph} (sound : session.Sound)
    (step : GraphStep session fragment env answer later) : later.Sound := by
  cases step with
  | hit _ keeps => exact sound.keep keeps
  | failed _ _ empty => exact empty.sound
  | built _ _ resident bound slots =>
      exact ⟨by rw [bound, resident, Option.map_some], by simp [slots], by simp [slots]⟩

/-- A graph with the serial number of the resident one is the resident one. -/
def Identifies (session : Session family) (built : BuiltGraph) : Prop :=
  ∀ resident, session.resident = some resident → resident.graph.serial = built.serial →
    resident.graph = built

/-- A step for a solution keeps a session sound. -/
theorem Sound.solutionStep {session later : Session family} {built : BuiltGraph}
    {key : family.Key} {answer : Except Failure (FoundSolution family key)}
    (sound : session.Sound) (identifies : session.Identifies built)
    (step : SolutionStep session built key answer later) : later.Sound := by
  cases step with
  | hit _ _ _ keeps => exact sound.keep keeps
  | failed _ keeps => exact sound.keep keeps
  | unkept _ _ keeps => exact sound.keep keeps
  | solved bound new solved serial keeps slots =>
      obtain ⟨resident, present, sameSerial⟩ :=
        Option.map_eq_some_iff.1 (sound.bound.symm.trans bound)
      have same : resident.graph = built := identifies resident present sameSerial
      have stillSound : ({ later with slots := session.slots } : Session family).Sound :=
        sound.keep keeps
      refine ⟨stillSound.bound, fun other member => ?_, ?_⟩
      · rw [slots] at member
        rcases List.mem_cons.1 member with rfl | old
        · refine ⟨resident, keeps.resident.trans present, sameSerial.symm, _, ⟨rfl, serial⟩, ?_⟩
          rw [keeps.limits, same]
          exact solved
        · exact stillSound.slots other old
      · rw [slots, List.map_cons, List.nodup_cons]
        refine ⟨fun member => ?_, sound.distinct⟩
        -- all slots belong to the bound graph, for which the analysis has none yet
        obtain ⟨other, old, sameKey⟩ := List.mem_map.1 member
        obtain ⟨owner, isOwner, belongs, -⟩ := sound.slots other old
        cases present.symm.trans isOwner
        have isFor := Slot.isFor_iff.2 ⟨sameKey, belongs.trans sameSerial⟩
        rw [new other old] at isFor
        cases isFor

/-! ### What holds after a run -/

theorem mem_held {session : Session family} {built : BuiltGraph} :
    built ∈ session.held ↔
      ∃ resident, session.resident = some resident ∧ resident.graph = built := by
  rw [held, Option.mem_toList, Option.map_eq_some_iff]

/-- A session that keeps its contents holds the same graph. -/
theorem Keeps.held {session later : Session family} (keeps : session.Keeps later) :
    later.held = session.held := by
  rw [Session.held, keeps.resident, Session.held]

/-- A graph that is asked for is resident afterwards. -/
theorem GraphStep.mem_held {session later : Session family} {fragment : Fragment}
    {env : Environment} {built : BuiltGraph}
    (step : GraphStep session fragment env (.ok built) later) : built ∈ later.held := by
  cases step with
  | hit found keeps =>
      obtain ⟨resident, present, kept⟩ := Option.bind_eq_some_iff.1 found
      split at kept
      · cases kept
        exact Session.mem_held.2 ⟨resident, keeps.resident.trans present, rfl⟩
      · cases kept
  | built _ _ resident => exact Session.mem_held.2 ⟨_, resident, rfl⟩

/-- A step for a solution leaves the resident graph alone. -/
theorem SolutionStep.resident {session later : Session family} {built : BuiltGraph}
    {key : family.Key} {answer : Except Failure (FoundSolution family key)}
    (step : SolutionStep session built key answer later) : later.resident = session.resident := by
  cases step with
  | hit _ _ _ keeps => exact keeps.resident
  | failed _ keeps => exact keeps.resident
  | unkept _ _ keeps => exact keeps.resident
  | solved _ _ _ _ keeps => exact keeps.resident

/-- A step for a solution holds the same graph. -/
theorem SolutionStep.held {session later : Session family} {built : BuiltGraph}
    {key : family.Key} {answer : Except Failure (FoundSolution family key)}
    (step : SolutionStep session built key answer later) : later.held = session.held := by
  rw [Session.held, step.resident, Session.held]

/-- What holds of a session after some questions, on which it gave out some graphs. -/
structure Traced (limits : Limits) (queries : List (Query family)) (graphs : List BuiltGraph)
    (session : Session family) : Prop where
  settled : session.limits = limits
  sound : session.Sound
  origin : ∀ resident, session.resident = some resident → ∃ query ∈ queries, ∃ env,
    query.request? = some (resident.fragment, env) ∧
    Graph.ofFragment resident.fragment env = .ok resident.graph.graph
  held : ∀ built ∈ session.held, built ∈ graphs
  fresh : ∀ built ∈ graphs, built.serial < session.nextSerial
  unique : ∀ built ∈ graphs, ∀ other ∈ graphs, built.serial = other.serial → built = other

namespace Traced

variable {limits : Limits} {queries : List (Query family)} {graphs : List BuiltGraph}
  {session later : Session family}

/-- Nothing has been asked at the start. -/
theorem start : Traced limits [] [] ({ limits } : Session family) where
  settled := rfl
  sound := Empty.sound ⟨rfl, rfl, rfl⟩
  origin := by simp
  held := by simp [Session.held]
  fresh := by simp
  unique := by simp

/-- A session that keeps its contents keeps its trace. -/
theorem keep (traced : Traced limits queries graphs session) (keeps : session.Keeps later) :
    Traced limits queries graphs later where
  settled := keeps.limits.trans traced.settled
  sound := traced.sound.keep keeps
  origin := keeps.resident ▸ traced.origin
  held := keeps.held ▸ traced.held
  fresh built member := Nat.lt_of_lt_of_le (traced.fresh built member) keeps.serial
  unique := traced.unique

/-- A question that changes nothing. -/
theorem idle (traced : Traced limits queries graphs session) (query : Query family) :
    Traced limits (queries ++ [query]) (graphs ++ session.held) session := by
  have known : ∀ built ∈ graphs ++ session.held, built ∈ graphs := by
    intro built member
    exact (List.mem_append.1 member).elim id (traced.held built)
  refine ⟨traced.settled, traced.sound, fun resident present => ?_,
    fun built => List.mem_append_right _,
    fun built member => traced.fresh built (known built member),
    fun built member other found =>
      traced.unique built (known built member) other (known other found)⟩
  obtain ⟨asked, member, found⟩ := traced.origin resident present
  exact ⟨asked, List.mem_append_left _ member, found⟩

/-- A step for a graph adds a query to the trace. -/
theorem graphStep (traced : Traced limits queries graphs session) {query : Query family}
    {fragment : Fragment} {env : Environment} {answer : Except Failure BuiltGraph}
    (request : query.request? = some (fragment, env))
    (step : GraphStep session fragment env answer later) :
    Traced limits (queries ++ [query]) (graphs ++ later.held) later := by
  have sound := traced.sound.graphStep step
  cases step with
  | hit _ keeps => exact (traced.keep keeps).idle query
  | failed _ _ empty limits serial =>
      have nothing : later.held = [] := by rw [Session.held, empty.resident]; rfl
      rw [nothing, List.append_nil]
      exact ⟨limits.trans traced.settled, sound, by simp [empty.resident], by simp [nothing],
        serial ▸ traced.fresh, traced.unique⟩
  | @built graph _ _ drawn resident bound slots limits serial =>
      have holds : later.held = [⟨session.nextSerial, graph⟩] := by rw [Session.held, resident]; rfl
      refine ⟨limits.trans traced.settled, sound, fun other present => ?_,
        fun built => List.mem_append_right _, fun built member => ?_,
        fun built member other found same => ?_⟩
      · cases resident.symm.trans present
        exact ⟨query, List.mem_append_right _ List.mem_cons_self, env, request, drawn⟩
      · rw [holds] at member
        rw [serial]
        rcases List.mem_append.1 member with old | new
        · exact Nat.lt_succ_of_lt (traced.fresh built old)
        · cases List.mem_singleton.1 new
          exact Nat.lt_succ_self _
      · -- the new graph has a serial number that no older one has
        rw [holds] at member found
        rcases List.mem_append.1 member with old | new <;>
          rcases List.mem_append.1 found with otherOld | otherNew
        · exact traced.unique built old other otherOld same
        · cases List.mem_singleton.1 otherNew
          exact absurd same (Nat.ne_of_lt (traced.fresh built old))
        · cases List.mem_singleton.1 new
          exact absurd same.symm (Nat.ne_of_lt (traced.fresh other otherOld))
        · exact (List.mem_singleton.1 new).trans (List.mem_singleton.1 otherNew).symm

/-- A graph that the caller holds is told apart from the resident one. -/
theorem identifies (traced : Traced limits queries graphs session) {built : BuiltGraph}
    (supplied : built ∈ graphs ∨ ∀ other ∈ graphs, other.serial ≠ built.serial) :
    session.Identifies built := by
  intro resident present same
  have given : resident.graph ∈ graphs := traced.held _ (mem_held.2 ⟨resident, present, rfl⟩)
  rcases supplied with member | foreign
  · exact traced.unique _ given built member same
  · exact absurd same (foreign _ given)

/-- A step for a solution keeps the trace. -/
theorem solutionStep (traced : Traced limits queries graphs session) {built : BuiltGraph}
    {key : family.Key} {answer : Except Failure (FoundSolution family key)}
    (identifies : session.Identifies built) (step : SolutionStep session built key answer later) :
    Traced limits queries graphs later := by
  have sound := traced.sound.solutionStep identifies step
  cases step with
  | hit _ _ _ keeps => exact traced.keep keeps
  | failed _ keeps => exact traced.keep keeps
  | unkept _ _ keeps => exact traced.keep keeps
  | solved _ _ _ _ keeps =>
      have others := traced.keep keeps
      exact ⟨others.settled, sound, others.origin, others.held, others.fresh, others.unique⟩

/-- A step for a result adds a query to the trace. -/
theorem resultStep (traced : Traced limits queries graphs session) {query : Query family}
    {fragment : Fragment} {env : Environment} {key : family.Key}
    {answer : Except Failure (FragmentResult family key)}
    (request : query.request? = some (fragment, env))
    (step : ResultStep session fragment env key answer later) :
    Traced limits (queries ++ [query]) (graphs ++ later.held) later := by
  cases step with
  | undrawn drawn => exact traced.graphStep request drawn
  | unsolved drawn solved =>
      have between := traced.graphStep request drawn
      rw [solved.held]
      exact between.solutionStep
        (between.identifies (Or.inl (List.mem_append_right _ drawn.mem_held))) solved
  | solved drawn solved =>
      have between := traced.graphStep request drawn
      rw [solved.held]
      exact between.solutionStep
        (between.identifies (Or.inl (List.mem_append_right _ drawn.mem_held))) solved

/-- A query at a position adds it to the trace. -/
theorem resultAt (traced : Traced limits queries graphs session) {query : Query family}
    {position : Tree.Path} {env : Environment} (key : family.Key)
    (request : query.request? =
      (Query.located? position).map fun fragment => (fragment, env)) :
    Traced limits (queries ++ [query])
      (graphs ++ (session.resultFor position env key).2.held)
      (session.resultFor position env key).2 := by
  rw [resultFor_eq]
  cases found : Query.located? position with
  | none => exact traced.idle query
  | some fragment =>
      rw [found] at request
      exact traced.resultStep request (fragmentResult_step traced.sound.filled fragment env key)

/-- Every query is added to the trace. -/
theorem ask (traced : Traced limits queries graphs session) {query : Query family}
    (supplied : query.Supplied graphs) :
    Traced limits (queries ++ [query]) (graphs ++ (session.ask query).2.held)
      (session.ask query).2 := by
  cases query with
  | graph fragment env => exact traced.graphStep rfl (session.graphFor_step fragment env)
  | solution built key =>
      exact (traced.solutionStep (traced.identifies supplied)
        (solutionFor_step traced.sound.filled built key)).idle _
  | result fragment env key =>
      exact traced.resultStep rfl (fragmentResult_step traced.sound.filled fragment env key)
  | resultAt position env key => exact traced.resultAt key rfl
  | valueAt position env key =>
      unfold Session.ask
      dsimp only
      unfold Session.valueOf
      split
      · rename_i isExpression
        exact traced.resultAt key (if_pos isExpression)
      · exact traced.idle _

end Traced

/-- What a run preserves. -/
theorem Run.traced {limits : Limits} {queries : List (Query family)} {graphs : List BuiltGraph}
    {session : Session family} (run : Run limits queries graphs session) :
    Traced limits queries graphs session := by
  induction run with
  | start => exact .start
  | ask query _ supplied ih => exact ih.ask supplied

end Session

end FragmentFlow
