import FragmentFlow.Proofs.Constants.Runs
import FragmentFlow.Proofs.Graph.Operands

/-!
# What a run has evaluated

When a run comes to a node, it has the values of the operands that count: those of a
strict operator, the left operand of `and` and `or` and the right one unless it was
skipped, and the condition and the taken branch of a conditional.  In a sealed interval
the value at its source is known and permits the edge into the interval.
-/

namespace FragmentFlow.Graph

variable {graph : Graph} {state next : State}

/-- A run has a value of a node that permits an edge behind it. -/
def State.Leaves (state : State) (source : Nat) (kind : EdgeKind) : Prop :=
  ∃ known, state.latest source = some known ∧ known.Permits kind

/-- Behind a node of a sealed interval, a run has a value of the source of the interval
that permits the edge into it. -/
def State.Within (graph : Graph) (state : State) (id : Nat) : Prop :=
  ∀ low high source kind, graph.toBuilder.Sealed low high source kind →
    graph.toBuilder.Valued source → kind ≠ .exception → source ≤ low → low < id → id ≤ high →
      state.Leaves source kind

/-- A run has come to its node from another one, unless it is at the entry. -/
def Arrives (graph : Graph) (state : State) : Prop :=
  state.node = Graph.entry ∨ ∃ source kind, ⟨source, state.node, kind⟩ ∈ graph.edges ∧
    (kind ≠ .exception → graph.toBuilder.Valued source → state.Leaves source kind) ∧
      state.Within graph source

/-- A state that arrives at a node is within its bounds. -/
theorem Arrives.within (arrives : Arrives graph state) : state.Within graph state.node := by
  intro low high origin kind isSealed valued notException before above below
  rcases arrives with isEntry | ⟨source, last, drawn, left, within⟩
  · rw [isEntry] at above
    exact absurd above (Nat.not_lt_zero low)
  · rcases isSealed.entered _ drawn above below with ⟨inside, stays⟩ | ⟨rfl, rfl⟩
    · exact within low high origin kind isSealed valued notException before inside stays
    · exact left notException valued

/-- An action with a value gives one. -/
theorem Evaluates.isSome_of_isValued {env after : Env} {action : Action}
    {operands : List (Option Datum)} {value : Option Datum}
    (evaluates : graph.Evaluates env action operands value after)
    (valued : action.isValued = true) : ∃ known, value = some known := by
  cases evaluates with
  | passed member =>
      simp only [List.mem_cons, List.not_mem_nil, or_false] at member
      rcases member with rfl | rfl | rfl | rfl | rfl | rfl | rfl <;> cases valued
  | param => cases valued
  | caught => cases valued
  | declared => cases valued
  | initialized => cases valued
  | _ => exact ⟨_, rfl⟩

/-- The action of a node with a value is one with a value. -/
theorem action_isValued {id : Nat} {node : Node} (found : graph.nodes[id]? = some node)
    (valued : graph.toBuilder.Valued id) : node.action.isValued = true := by
  obtain ⟨bare, present, isValued⟩ := valued
  rw [Builder.bare?, toBuilder, found] at present
  cases present
  exact isValued

/-- One step of a run arrives where it leads. -/
theorem Arrives.step (well : graph.WellDrawn) (arrives : Arrives graph state)
    (step : Step graph state next) : Arrives graph next := by
  cases step with
  | @completes node value env edge found evaluates leaving unexceptional permits =>
      obtain ⟨drawn, source⟩ := well.mem_successors.1 leaving
      refine Or.inr ⟨state.node, edge.kind, source ▸ drawn, fun _ valued => ?_, ?_⟩
      · obtain ⟨known, rfl⟩ := evaluates.isSome_of_isValued (action_isValued found valued)
        exact ⟨known, Function.update_self .., permits known rfl⟩
      · intro low high origin kind isSealed valued notException before above below
        obtain ⟨known, present, permitted⟩ :=
          arrives.within low high origin kind isSealed valued notException before above below
        have different : origin ≠ state.node := by omega
        exact ⟨known, (Function.update_of_ne different ..).trans present, permitted⟩
  | @raises node env edge found raises leaving exceptional =>
      obtain ⟨drawn, source⟩ := well.mem_successors.1 leaving
      refine Or.inr ⟨state.node, edge.kind, source ▸ drawn, fun normal => ?_, arrives.within⟩
      exact absurd exceptional normal

/-- A run arrives at its node. -/
theorem Runs.arrives (well : graph.WellDrawn) (run : graph.Runs state) : Arrives graph state := by
  induction run with
  | start env => exact Or.inl rfl
  | step _ step ih => exact ih.step well step

/-- The operands of an action that count have values. -/
inductive Ready (latest : Nat → Option Datum) : Action → List Nat → Prop
  | bare {name : String} : Ready latest (.decl name) []
  | one {action : Action} {operand : Nat} {value : Datum} :
      action.usesOne = true → latest operand = some value → Ready latest action [operand]
  | strict {op : BinaryOp} {left right : Nat} {lhs rhs : Datum} :
      op.isShortCircuit = false → latest left = some lhs → latest right = some rhs →
        Ready latest (.binary op) [left, right]
  | skipped {op : BinaryOp} {left right : Nat} {lhs : Datum} :
      op.isShortCircuit = true → latest left = some lhs → lhs.Permits (.skipping op) →
        Ready latest (.binary op) [left, right]
  | evaluated {op : BinaryOp} {left right : Nat} {lhs rhs : Datum} :
      op.isShortCircuit = true → latest left = some lhs → lhs.Permits (.evaluating op) →
        latest right = some rhs → Ready latest (.binary op) [left, right]
  | whenTrue {test first second : Nat} {decided value : Datum} :
      latest test = some decided → decided.Permits .onTrue → latest first = some value →
        Ready latest .conditional [test, first, second]
  | whenFalse {test first second : Nat} {decided value : Datum} :
      latest test = some decided → decided.Permits .onFalse → latest second = some value →
        Ready latest .conditional [test, first, second]

/-- An edge on which a second operand is evaluated is no exception. -/
theorem EdgeKind.evaluating_ne_exception (op : BinaryOp) : evaluating op ≠ .exception := by
  unfold evaluating
  split <;> nofun

/-- An edge on which a second operand is skipped is no exception. -/
theorem EdgeKind.skipping_ne_exception (op : BinaryOp) : skipping op ≠ .exception := by
  unfold skipping
  split <;> nofun

/-- When a run comes to a node, the operands of the node are ready. -/
theorem Runs.ready (well : graph.WellDrawn) (run : graph.Runs state) {node : Node}
    (found : graph.nodes[state.node]? = some node) (uses : node.action.usesOperands = true) :
    Ready state.latest node.action node.operands := by
  obtain ⟨tips, shape, entered⟩ := well.shaped found uses
  have last : ∃ source kind, ⟨source, kind⟩ ∈ tips ∧
      (kind ≠ .exception → graph.toBuilder.Valued source → state.Leaves source kind) ∧
        state.Within graph source := by
    rcases run.arrives well with isEntry | ⟨source, kind, drawn, left⟩
    · rw [well.entry_plain (isEntry ▸ found)] at uses
      cases uses
    · exact ⟨source, kind, (entered source kind).1 drawn, left⟩
  obtain ⟨source, kind, tip, left, within⟩ := last
  generalize node.action = action, node.operands = operands at shape uses ⊢
  cases shape with
  | plain unused =>
      rw [unused] at uses
      cases uses
  | bare => exact .bare
  | one usesOne valued =>
      cases List.mem_singleton.1 tip
      obtain ⟨value, present, -⟩ := left nofun valued
      exact .one usesOne present
  | @strict op lhs rhs isStrict less valued isSealed =>
      cases List.mem_singleton.1 tip
      obtain ⟨right, atRight, -⟩ := left nofun (isSealed.valued _ less (Nat.le_refl _))
      obtain ⟨first, atLeft, -⟩ := within _ _ lhs _ isSealed valued nofun (Nat.le_refl _) less
        (Nat.le_refl _)
      exact .strict isStrict atLeft atRight
  | @shortCircuit op lhs rhs isShort less valued isSealed =>
      rcases List.mem_cons.1 tip with isRight | isLeft
      · cases isRight
        obtain ⟨right, atRight, -⟩ := left nofun (isSealed.valued _ less (Nat.le_refl _))
        obtain ⟨first, atLeft, permits⟩ := within _ _ lhs _ isSealed valued
          (EdgeKind.evaluating_ne_exception op) (Nat.le_refl _) less (Nat.le_refl _)
        exact .evaluated isShort atLeft permits atRight
      · cases List.mem_singleton.1 isLeft
        obtain ⟨first, atLeft, permits⟩ := left (EdgeKind.skipping_ne_exception op) valued
        exact .skipped isShort atLeft permits
  | @conditional test first second less more valued whenTrue whenFalse =>
      rcases List.mem_cons.1 tip with isFirst | isSecond
      · cases isFirst
        obtain ⟨value, atFirst, -⟩ := left nofun (whenTrue.valued _ less (Nat.le_refl _))
        obtain ⟨decided, atTest, permits⟩ := within _ _ test _ whenTrue valued nofun
          (Nat.le_refl _) less (Nat.le_refl _)
        exact .whenTrue atTest permits atFirst
      · cases List.mem_singleton.1 isSecond
        obtain ⟨value, atSecond, -⟩ := left nofun (whenFalse.valued _ more (Nat.le_refl _))
        obtain ⟨decided, atTest, permits⟩ := within _ _ test _ whenFalse valued nofun
          (Nat.le_of_lt less) more (Nat.le_refl _)
        exact .whenFalse atTest permits atSecond

end FragmentFlow.Graph
