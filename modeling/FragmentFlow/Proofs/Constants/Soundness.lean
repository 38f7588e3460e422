import FragmentFlow.Analysis.Result
import FragmentFlow.Proofs.Constants.Arrival
import FragmentFlow.Proofs.Constants.Proper

/-!
# Constant propagation is sound

Every value that a run of a fragment without loops produces is described by the constant
that is recorded for it, and so are the variables before and after each node.  The proof
follows a run: a node is evaluated with operands that are described, to a value and an
environment that are described, and what a store describes at one end of an edge the
store at its other end describes too.
-/

namespace FragmentFlow

namespace Graph

variable {graph : Graph} {env after : Env} {store other : Store}

/-- A store describes the variables in an environment. -/
def Describes (graph : Graph) (store : Store) (env : Env) : Prop :=
  ∀ name ∈ graph.variableNames.names, (env name).constant ≤ store.get name

namespace Describes

/-- A larger store describes what a smaller one describes. -/
theorem mono (describes : graph.Describes store env) (below : store ≤ other) :
    graph.Describes other env := fun name member =>
  le_trans (describes name member) (Store.le_iff_get.1 below name)

/-- A changed variable is described by a constant above its new value. -/
theorem update (describes : graph.Describes store env) (target : String) {value : Datum}
    {described : Constant} (below : value.constant ≤ described) :
    graph.Describes (store.set target described) (Function.update env target value) := by
  intro name member
  rw [Store.get_set]
  by_cases same : name = target
  · subst same
    simpa using below
  · simpa [same] using describes name member

/-- A store without the free names describes whatever happened to them. -/
theorem forget (describes : graph.Describes store env)
    (kept : ∀ name, name ∉ graph.freeNames.names → after name = env name) :
    graph.Describes (graph.forgetFree store) after := by
  intro name member
  rw [forgetFree, Store.get_setAll]
  split
  · exact Constant.le_top _
  · rename_i notFree
    rw [kept name notFree]
    exact describes name member

end Describes

/-- A store in which all variables are unknown describes everything. -/
theorem describes_topFor (graph : Graph) (env : Env) :
    graph.Describes (.topFor graph.variableNames.names) env := by
  intro name member
  rw [Store.get_topFor, if_pos member]
  exact Constant.le_top _

/-! ### One node -/

section Evaluation

variable {action : Action} {operands : List Nat} {value : Option Datum}
  {latest : Nat → Option Datum} {constants : Nat → Constant}

/-- A node makes something that is described of operands that are. -/
theorem Evaluates.sound (folding : Bool)
    (evaluates : graph.Evaluates env action (operands.map latest) value after)
    (below : ∀ operand known, latest operand = some known → known.constant ≤ constants operand)
    (named : ∀ name, action.used? = some name → name ∈ graph.variableNames.names)
    (ready : action.usesOperands = true → Ready latest action operands)
    (describes : graph.Describes store env) :
    graph.Describes
      (Constants.transferAction folding graph action store (operands.map constants)).2 after ∧
    ∀ known, value = some known → ∃ described,
      (Constants.transferAction folding graph action store (operands.map constants)).1 =
        some described ∧ known.constant ≤ described := by
  generalize given : operands.map latest = values at evaluates
  cases evaluates with
  | param => exact ⟨describes.update _ (Constant.le_top _), nofun⟩
  | caught => exact ⟨describes.update _ (Constant.le_top _), nofun⟩
  | declared =>
      cases List.map_eq_nil_iff.1 given
      exact ⟨describes, nofun⟩
  | initialized agrees =>
      cases ready rfl with
      | bare => cases given
      | one _ present =>
          cases given
          rw [present] at agrees
          rw [Datum.agrees_some agrees]
          exact ⟨describes.update _ (below _ _ present), nofun⟩
  | literal =>
      refine ⟨describes, ?_⟩
      rintro _ ⟨⟩
      exact ⟨_, rfl, le_of_eq (Datum.constant_ofLiteral _)⟩
  | @ident name =>
      refine ⟨describes, ?_⟩
      rintro _ ⟨⟩
      exact ⟨_, rfl, describes name (named name rfl)⟩
  | assign agrees =>
      cases ready rfl with
      | one _ present =>
          cases given
          change Datum.Agrees (latest _) _ at agrees
          rw [present] at agrees
          cases Datum.agrees_some agrees
          refine ⟨describes.update _ (below _ _ present), ?_⟩
          rintro _ ⟨⟩
          exact ⟨_, rfl, below _ _ present⟩
  | strict isStrict agrees =>
      refine ⟨describes, ?_⟩
      rintro _ ⟨⟩
      refine ⟨_, rfl, ?_⟩
      cases ready rfl with
      | one uses _ => cases uses
      | strict _ atLeft atRight =>
          cases given
          exact Constant.binary_strict_sound isStrict (below _ _ atLeft) (below _ _ atRight)
            (agrees _ _ atLeft atRight)
      | skipped isShort _ _ => cases isStrict.symm.trans isShort
      | evaluated isShort _ _ _ => cases isStrict.symm.trans isShort
  | shortCircuit isShort agrees =>
      refine ⟨describes, ?_⟩
      rintro _ ⟨⟩
      refine ⟨_, rfl, ?_⟩
      cases ready rfl with
      | one uses _ => cases uses
      | strict isStrict _ _ => cases isStrict.symm.trans isShort
      | skipped _ atLeft permits =>
          cases given
          change Datum.Agrees (Datum.shortCircuit? _ (latest _) (latest _)) _ at agrees
          rw [atLeft] at agrees
          exact Constant.binary_shortCircuit_sound isShort (below _ _ atLeft)
            (Or.inl permits) agrees
      | evaluated _ atLeft permits atRight =>
          cases given
          change Datum.Agrees (Datum.shortCircuit? _ (latest _) (latest _)) _ at agrees
          rw [atLeft] at agrees
          exact Constant.binary_shortCircuit_sound isShort (below _ _ atLeft)
            (Or.inr ⟨_, atRight, below _ _ atRight, permits⟩) agrees
  | unary agrees =>
      refine ⟨describes, ?_⟩
      rintro _ ⟨⟩
      refine ⟨_, rfl, ?_⟩
      cases ready rfl with
      | one _ present =>
          cases given
          exact Constant.unary_sound (below _ _ present) (agrees _ present)
  | conditional onTrue onFalse undecided =>
      refine ⟨describes, ?_⟩
      rintro _ ⟨⟩
      refine ⟨_, rfl, ?_⟩
      cases ready rfl with
      | one uses _ => cases uses
      | whenTrue atTest permits atFirst =>
          cases given
          refine Constant.conditional_sound (below _ _ atTest) (below _) (below _)
            (Or.inl ⟨by rw [atFirst]; rfl, permits⟩) ?_ ?_ ?_
          · exact fun isTrue => onTrue (isTrue ▸ atTest)
          · exact fun isFalse => onFalse (isFalse ▸ atTest)
          · exact fun notTruth => undecided fun truth same =>
              notTruth truth (Option.some.inj (atTest.symm.trans same))
      | whenFalse atTest permits atSecond =>
          cases given
          refine Constant.conditional_sound (below _ _ atTest) (below _) (below _)
            (Or.inr ⟨by rw [atSecond]; rfl, permits⟩) ?_ ?_ ?_
          · exact fun isTrue => onTrue (isTrue ▸ atTest)
          · exact fun isFalse => onFalse (isFalse ▸ atTest)
          · exact fun notTruth => undecided fun truth same =>
              notTruth truth (Option.some.inj (atTest.symm.trans same))
  | outside leaves kept =>
      cases action <;> cases leaves <;> refine ⟨describes.forget kept, ?_⟩ <;> rintro _ ⟨⟩ <;>
        exact ⟨_, rfl, Constant.le_top _⟩
  | lambda =>
      refine ⟨describes, ?_⟩
      rintro _ ⟨⟩
      exact ⟨_, rfl, Constant.le_top _⟩
  | passed member =>
      simp only [List.mem_cons, List.not_mem_nil, or_false] at member
      rcases member with rfl | rfl | rfl | rfl | rfl | rfl | rfl <;> exact ⟨describes, nofun⟩

end Evaluation

/-! ### Runs -/

section Runs

variable {folding : Bool} {initial : Store} {solution : Solution Constant Store}
  {state next : State}

/-- A solution describes what a run has. -/
structure Sound (graph : Graph) (solution : Solution Constant Store) (state : State) : Prop where
  before : ∃ facts, solution.facts? state.node = some facts ∧
    graph.Describes facts.input state.env
  latest : ∀ id known, state.latest id = some known →
    known.constant ≤ (solution.recorded id).getD .bottom

/-- What a store at one end of an edge describes, the store at the other end does. -/
theorem Describes.along (well : graph.WellDrawn)
    (solves : Analysis.Solves (Constants.analysis folding) graph initial solution) {edge : Edge}
    (drawn : edge ∈ graph.edges) {facts : Analysis.Facts Constant Store}
    (present : solution.facts? edge.source = some facts)
    (describes : graph.Describes (Constants.onEdge graph edge
      (if edge.kind = .exception then facts.input else facts.output)) env) :
    ∃ later, solution.facts? edge.target = some later ∧ graph.Describes later.input env := by
  have reaches := (solves.reached edge.source).1 (by rw [present]; rfl)
  have target := reaches.step (well.mem_successors.2 ⟨drawn, rfl⟩)
  obtain ⟨later, found⟩ := Option.isSome_iff_exists.1 ((solves.reached edge.target).2 target)
  refine ⟨later, found, describes.mono ?_⟩
  have joined := solves.input edge.target later (well.target_ne_entry drawn) found
  apply (Analysis.isLUB_joinAll? (fun _ _ => isLUB_pair) joined).1
  refine List.mem_filterMap.2 ⟨edge, well.mem_predecessors.2 ⟨drawn, rfl⟩, ?_⟩
  rw [Analysis.arriving, present]
  rfl

/-- At a node of a run the constants of its operands describe their values. -/
theorem Sound.evaluates (well : graph.WellDrawn)
    (solves : Analysis.Solves (Constants.analysis folding) graph initial solution)
    (run : graph.Runs state) (sound : Sound graph solution state) {node : Node}
    (found : graph.nodes[state.node]? = some node) {facts : Analysis.Facts Constant Store}
    (present : solution.facts? state.node = some facts) {value : Option Datum}
    (evaluates : graph.Evaluates state.env node.action (state.operands node) value after) :
    graph.Describes facts.output after ∧
      ∀ known, value = some known → ∃ described, facts.value = some described ∧
        known.constant ≤ described := by
  obtain ⟨stored, same, describes⟩ := sound.before
  cases present.symm.trans same
  by_cases isEntry : state.node = Graph.entry
  · rw [well.entry_plain (isEntry ▸ found)] at evaluates
    obtain ⟨entry, atEntry, input, output⟩ := solves.entry
    rw [isEntry, atEntry] at present
    cases present
    cases evaluates with
    | outside leaves _ => cases leaves
    | passed _ => exact ⟨output ▸ input ▸ describes, nofun⟩
  · have transferred := Constants.transferAction_recorded solves isEntry present found
    have result := evaluates.sound folding sound.latest
      (fun _ uses => mem_variableNames found (Or.inr uses))
      (run.ready well found) describes
    rw [transferred] at result
    exact result

/-- What the variables are behind an exception is described by the input of the node. -/
theorem Raises.describes {action : Action} (raises : graph.Raises env action after)
    (describes : graph.Describes store env) :
    graph.Describes (if action.leavesFragment then graph.forgetFree store else store) after := by
  obtain ⟨-, kept⟩ := raises
  split
  · exact describes.forget fun name free => kept name (Or.inr free)
  · rename_i stays
    intro name member
    rw [kept name (Or.inl (Bool.eq_false_iff.2 stays))]
    exact describes name member

/-- One step of a run keeps the solution sound. -/
theorem Sound.step (well : graph.WellDrawn)
    (solves : Analysis.Solves (Constants.analysis folding) graph initial solution)
    (run : graph.Runs state) (sound : Sound graph solution state) (step : Step graph state next) :
    Sound graph solution next := by
  obtain ⟨facts, present, describes⟩ := sound.before
  cases step with
  | @completes node value env edge found evaluates leaving unexceptional permits =>
      obtain ⟨drawn, source⟩ := well.mem_successors.1 leaving
      obtain ⟨output, produced⟩ := sound.evaluates well solves run found present evaluates
      refine ⟨?_, fun id known latest => ?_⟩
      · apply Describes.along well solves drawn (source ▸ present)
        rw [Constants.onEdge, if_neg fun both => unexceptional both.1, if_neg unexceptional]
        exact output
      · change Function.update state.latest state.node value id = some known at latest
        by_cases same : id = state.node
        · subst same
          rw [Function.update_self] at latest
          obtain ⟨described, recorded, below⟩ := produced known latest
          rw [Solution.recorded, present, Option.bind_some, recorded]
          exact below
        · rw [Function.update_of_ne same] at latest
          exact sound.latest id known latest
  | @raises node env edge found raises leaving exceptional =>
      obtain ⟨drawn, source⟩ := well.mem_successors.1 leaving
      refine ⟨?_, sound.latest⟩
      apply Describes.along well solves drawn (source ▸ present)
      rw [Constants.onEdge, if_pos exceptional, source, found]
      simpa [exceptional] using raises.describes describes

/-- A solution is sound for every run. -/
theorem Runs.sound (well : graph.WellDrawn)
    (solves : Analysis.Solves (Constants.analysis folding) graph
      (.topFor graph.variableNames.names) solution)
    (run : graph.Runs state) : Sound graph solution state := by
  induction run with
  | start env =>
      obtain ⟨facts, present, input, -⟩ := solves.entry
      exact ⟨⟨facts, present, input ▸ describes_topFor graph env⟩, nofun⟩
  | step run step ih => exact ih.step well solves run step

end Runs

/-! ### What is known holds -/

/-- A constant that is known is the value. -/
def Tells (constant : Constant) (value : Datum) : Prop :=
  constant.isKnown = true → value.constant = constant

/-- The variables whose constants are known have them as values. -/
def TellsAll (store : Store) (env : Env) : Prop :=
  ∀ name, Tells (store.get name) (env name)

/-- A store that describes the variables and binds them tells all of them. -/
theorem Describes.tellsAll (describes : graph.Describes store env) (binds : graph.Binds store) :
    TellsAll store env := by
  intro name isKnown
  have bound : store.get name ≠ .bottom := by
    intro isBottom
    rw [isBottom] at isKnown
    cases isKnown
  exact Datum.constant_eq_of_isKnown (describes name ((binds name).1 bound)) isKnown

/-- What is recorded for a node counts for its part of the tree. -/
theorem le_valueAt (well : graph.WellDrawn) {folding : Bool} {solution : Solution Constant Store}
    {id tree : Nat} {node : Node} (found : graph.nodes[id]? = some node)
    (isTree : node.tree = some tree)
    {facts : Analysis.Facts Constant Store} (present : solution.facts? id = some facts)
    {recorded reported : Constant} (value : facts.value = some recorded)
    (report : (Constants.analysis folding).valueAt graph solution tree = some reported) :
    recorded ≤ reported := by
  apply (Analysis.isLUB_joinAll? (fun _ _ => isLUB_pair) report).1
  refine List.mem_filterMap.2 ⟨id, ?_, by rw [present, Option.bind_some, value]⟩
  exact well.mem_nodesFor.2 ⟨node, found, isTree⟩

/-- What the variables are behind an exception is described by the output of the node. -/
theorem Raises.output {action : Action} (raises : graph.Raises env action after)
    (describes : graph.Describes store env) (folding : Bool) (operands : List Constant) :
    graph.Describes (Constants.transferAction folding graph action store operands).2 after := by
  have described := raises.describes describes
  cases action <;> first | exact described | cases raises.1

/-- In code without loops, whatever a run comes to is reached by the analysis.  Before
and after every node the variables have the values that are known there, also if the
node raises, and an expression has the value that is reported for it. -/
theorem constants_hold_in_runs {fragment : Fragment} {env : Environment} {folding : Bool}
    {limits : Limits} {solution : Solution Constant Store} {state : State}
    (built : ofFragment fragment env = .ok graph) (loopFree : fragment.loopFree = true)
    (solved : (Constants.analysis folding).solve limits graph = .ok solution)
    (run : graph.Runs state) :
    ∃ node facts, graph.nodes[state.node]? = some node ∧
      solution.facts? state.node = some facts ∧ TellsAll facts.input state.env ∧
      (∀ value after, graph.Evaluates state.env node.action (state.operands node) value after →
        TellsAll facts.output after ∧
        ∀ known tree reported, value = some known → node.tree = some tree →
          (Constants.analysis folding).valueAt graph solution tree = some reported →
            Tells reported known) ∧
      ∀ after, graph.Raises state.env node.action after → TellsAll facts.output after := by
  have well := wellDrawn_of_ofFragment built
  have solves := Constants.solves_of_loopFree (loopFree_of_ofFragment built loopFree) well solved
  have sound := run.sound well solves
  obtain ⟨facts, present, describes⟩ := sound.before
  obtain ⟨bindsInput, bindsOutput⟩ :=
    Constants.binds_of_solveFrom well (.topFor graph) solved present
  have reaches := (solves.reached state.node).1 (by rw [present]; rfl)
  obtain ⟨node, found⟩ : ∃ node, graph.nodes[state.node]? = some node :=
    ⟨_, Array.getElem?_eq_getElem (reaches.lt_size well)⟩
  refine ⟨node, facts, found, present, describes.tellsAll bindsInput, ?_, ?_⟩
  · intro value after evaluates
    obtain ⟨output, produced⟩ := sound.evaluates well solves run found present evaluates
    refine ⟨output.tellsAll bindsOutput, ?_⟩
    intro known tree reported isKnown isTree report
    obtain ⟨recorded, isRecorded, below⟩ := produced known isKnown
    apply Datum.constant_eq_of_isKnown
    exact le_trans below (le_valueAt well found isTree present isRecorded report)
  · intro after raises
    by_cases isEntry : state.node = Graph.entry
    · have canThrow := raises.1
      rw [well.entry_plain (isEntry ▸ found)] at canThrow
      cases canThrow
    · have transferred := Constants.transferAction_recorded solves isEntry present found
      have output := raises.output describes folding
        (node.operands.map fun operand => (solution.recorded operand).getD .bottom)
      rw [transferred] at output
      exact output.tellsAll bindsOutput

/-- A branch with the same value on both sides: `int x = 2; y = flag ? x : 2;`. -/
def sameBranches : Fragment :=
  .initializerOf "Same"
    [.localDecl "x" "int" (some (.literal (.int 2))),
      .exprStmt (.assign "y" (.conditional (.ident "flag") (.ident "x") (.literal (.int 2))))]

/-- There is a graph for the branches. -/
theorem sameBranches_built : ofFragment sameBranches .builtins =
    .ok ((draw sameBranches).finish sameBranches.name) := by
  decide +kernel

/-- A run takes the second branch. -/
theorem sameBranches_run : ∃ state, ((draw sameBranches).finish sameBranches.name).Runs state ∧
    state.node = 6 ∧ state.env "x" = .int 2 ∧
      [3, 4, 5].map state.latest = [some (.bool false), none, some (.int 2)] := by
  have well := wellDrawn_of_ofFragment sameBranches_built
  have entry : ((draw sameBranches).finish sameBranches.name).nodes[0]? =
      some ⟨.entry, none, false, [], [0], []⟩ := by
    decide +kernel
  have given : ((draw sameBranches).finish sameBranches.name).nodes[1]? =
      some ⟨.literal (.int 2), some 0, false, [], [1], [0]⟩ := by
    decide +kernel
  have decl : ((draw sameBranches).finish sameBranches.name).nodes[2]? =
      some ⟨.decl "x", some 1, false, [1], [2], [1]⟩ := by
    decide +kernel
  have test : ((draw sameBranches).finish sameBranches.name).nodes[3]? =
      some ⟨.ident "flag", some 2, false, [], [3, 4], [2]⟩ := by
    decide +kernel
  have branch : ((draw sameBranches).finish sameBranches.name).nodes[5]? =
      some ⟨.literal (.int 2), some 4, false, [], [6], [4]⟩ := by
    decide +kernel
  have edges : ((draw sameBranches).finish sameBranches.name).edges.toList =
      [⟨0, 1, .normal⟩, ⟨1, 2, .normal⟩, ⟨2, 3, .normal⟩, ⟨3, 4, .onTrue⟩, ⟨3, 5, .onFalse⟩,
        ⟨4, 6, .normal⟩, ⟨5, 6, .normal⟩, ⟨6, 7, .normal⟩, ⟨7, 8, .normal⟩] := by
    decide +kernel
  generalize (draw sameBranches).finish sameBranches.name = graph at *
  have leaving : ∀ source target kind, ⟨source, target, kind⟩ ∈ graph.edges.toList →
      ⟨source, target, kind⟩ ∈ graph.successors source := fun source target kind member =>
    well.mem_successors.2 ⟨Array.mem_toList_iff.1 member, rfl⟩
  rw [edges] at leaving
  have atGiven := (Runs.start fun _ => .bool false).step (.completes entry (.passed (by decide))
    (leaving 0 1 .normal (by decide)) (by decide) (by rintro _ ⟨⟩))
  have atDecl := atGiven.step (.completes given .literal (leaving 1 2 .normal (by decide))
    (by decide) fun _ _ => trivial)
  have atTest := atDecl.step (.completes decl (.initialized fun _ same => Option.some.inj same)
    (leaving 2 3 .normal (by decide)) (by decide) (by rintro _ ⟨⟩))
  have permits : (Datum.bool false).Permits .onFalse := by
    rintro ⟨⟩
  have atBranch := atTest.step (.completes test .ident (leaving 3 5 .onFalse (by decide))
    (by decide) fun _ same => Option.some.inj same ▸ permits)
  have atEnd := atBranch.step (.completes branch .literal (leaving 5 6 .normal (by decide))
    (by decide) fun _ _ => trivial)
  exact ⟨_, atEnd, rfl, rfl, rfl⟩

/-- Whatever the conditional gives on its second branch is the constant that it was found to be. -/
theorem sameBranches_hold : ∃ graph solution state facts,
    ofFragment sameBranches .builtins = .ok graph ∧ sameBranches.loopFree = true ∧
      (Constants.analysis false).solve {} graph = .ok solution ∧ graph.Runs state ∧
      solution.facts? state.node = some facts ∧ TellsAll facts.input state.env ∧
      (Constants.analysis false).valueAt graph solution 5 = some (.int 2) ∧
      ∀ value after, graph.Evaluates state.env .conditional
        [some (.bool false), none, some (.int 2)] (some value) after → value.constant = .int 2 := by
  have reported : ((Constants.analysis false).solve {}
      ((draw sameBranches).finish sameBranches.name)).toOption.bind
        (fun solution => (Constants.analysis false).valueAt
          ((draw sameBranches).finish sameBranches.name) solution 5) = some (.int 2) := by
    decide +kernel
  have conditional : ((draw sameBranches).finish sameBranches.name).nodes[6]? =
      some ⟨.conditional, some 5, false, [3, 4, 5], [7], [5, 6]⟩ := by
    decide +kernel
  have loopFree : sameBranches.loopFree = true := by
    decide +kernel
  obtain ⟨state, run, atNode, -, operands⟩ := sameBranches_run
  have built := sameBranches_built
  generalize (draw sameBranches).finish sameBranches.name = graph at *
  cases solved : (Constants.analysis false).solve {} graph with
  | error failure =>
      rw [solved] at reported
      cases reported
  | ok solution =>
      rw [solved] at reported
      obtain ⟨node, facts, found, present, before, after, -⟩ :=
        constants_hold_in_runs built loopFree solved run
      rw [atNode, conditional] at found
      cases found
      refine ⟨graph, solution, state, facts, built, loopFree, solved, run, present, before,
        reported, fun value last evaluates => ?_⟩
      rw [← operands] at evaluates
      obtain ⟨-, produced⟩ := after (some value) last evaluates
      exact produced value 5 (.int 2) rfl rfl reported rfl

end Graph

end FragmentFlow
