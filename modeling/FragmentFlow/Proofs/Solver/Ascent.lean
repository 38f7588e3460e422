import FragmentFlow.Proofs.Solver.Equations

/-!
# Monotone analyses only rise

When a monotone analysis evaluates a node again, the new facts are at or above the old
ones.  Every search keeps the reason: what a node was evaluated with is below what it
would be evaluated with now.
-/

namespace FragmentFlow.Analysis

variable {Value Store : Type} [PartialOrder Value] [PartialOrder Store]
  {analysis : Analysis Value Store} {graph : Graph} {initial : Store}
  {search middle next later : Search Value Store} {node : Nat} {facts : Facts Value Store}

/-- A value that may be missing is below another one. -/
def Rises (value later : Option Value) : Prop :=
  ∀ old, value = some old → ∃ new, later = some new ∧ old ≤ new

theorem Rises.refl (value : Option Value) : Rises value value :=
  fun old found => ⟨old, found, le_refl old⟩

theorem Rises.trans {first second third : Option Value} (rises : Rises first second)
    (further : Rises second third) : Rises first third := by
  intro old found
  obtain ⟨new, present, le⟩ := rises old found
  obtain ⟨newest, last, more⟩ := further new present
  exact ⟨newest, last, le.trans more⟩

/-- Larger stores and values give larger facts, and joins are least upper bounds. -/
structure Monotonic (analysis : Analysis Value Store) (graph : Graph) : Prop where
  join : ∀ a b, IsLUB {a, b} (analysis.join a b)
  onEdge : ∀ edge, Monotone (analysis.onEdge graph edge)
  value : ∀ node {store larger values others}, store ≤ larger →
    (∀ other, Rises (values other) (others other)) →
      Rises (analysis.transfer graph node store values).1
        (analysis.transfer graph node larger others).1
  output : ∀ node {store larger values others}, store ≤ larger →
    (∀ other, Rises (values other) (others other)) →
      (analysis.transfer graph node store values).2 ≤
        (analysis.transfer graph node larger others).2

/-- The facts of a node are below others. -/
structure Facts.Below (facts more : Facts Value Store) : Prop where
  value : Rises facts.value more.value
  input : facts.input ≤ more.input
  output : facts.output ≤ more.output

theorem Facts.Below.refl (facts : Facts Value Store) : facts.Below facts :=
  ⟨.refl _, le_refl _, le_refl _⟩

theorem Facts.Below.trans {first second third : Facts Value Store} (below : first.Below second)
    (further : second.Below third) : first.Below third :=
  ⟨below.value.trans further.value, below.input.trans further.input,
    below.output.trans further.output⟩

/-- All facts of a search are below those of another. -/
def Ascends (search later : Search Value Store) : Prop :=
  ∀ node facts, search.facts? node = some facts →
    ∃ more, later.facts? node = some more ∧ facts.Below more

namespace Ascends

theorem refl (search : Search Value Store) : Ascends search search :=
  fun _ facts found => ⟨facts, found, .refl facts⟩

theorem trans (ascends : Ascends search middle) (further : Ascends middle later) :
    Ascends search later := by
  intro node facts found
  obtain ⟨more, present, below⟩ := ascends node facts found
  obtain ⟨most, last, above⟩ := further node more present
  exact ⟨most, last, below.trans above⟩

/-- Along an ascent every value rises. -/
theorem valueOf (ascends : Ascends search later) (node : Nat) :
    Rises (search.valueOf node) (later.valueOf node) := by
  intro value known
  obtain ⟨facts, found, isValue⟩ := Option.bind_eq_some_iff.1 known
  obtain ⟨more, present, below⟩ := ascends node facts found
  rw [Search.valueOf, present]
  exact below.value value isValue

/-- Along an ascent every input rises. -/
theorem inputAt (monotonic : Monotonic analysis graph) (ascends : Ascends search later)
    {input : Store} (found : analysis.inputAt graph search.toSolution node = some input) :
    ∃ more, analysis.inputAt graph later.toSolution node = some more ∧ input ≤ more := by
  refine inputAt_le monotonic.join (fun edge _ store => ?_) found
  refine arriving_le (monotonic.onEdge edge) fun facts present => ?_
  obtain ⟨more, there, below⟩ := ascends edge.source facts present
  exact ⟨more, there, below.input, below.output⟩

end Ascends

/-- What the nodes of a search were evaluated with is below what they would be evaluated
with now. -/
def Ascending (analysis : Analysis Value Store) (graph : Graph) (search : Search Value Store) :
    Prop :=
  ∀ node facts, node ≠ Graph.entry → search.facts? node = some facts →
    ∃ input values, analysis.inputAt graph search.toSolution node = some input ∧
      facts.input ≤ input ∧
      analysis.transfer graph node facts.input values = (facts.value, facts.output) ∧
      ∀ other, Rises (values other) (search.valueOf other)

/-- A search is ascending at its start. -/
theorem Ascending.start (well : graph.WellDrawn) (initial : Store) :
    Ascending analysis graph (start graph graph.ranks initial) := by
  intro node facts notEntry found
  rw [facts?_start well, if_neg notEntry] at found
  cases found

variable [BEq Value] [BEq Store] [LawfulBEq Value] [LawfulBEq Store]

/-- The new facts of a node are above its old ones. -/
theorem Updated.below (monotonic : Monotonic analysis graph) (notEntry : node ≠ Graph.entry)
    (ascending : Ascending analysis graph search)
    (updated : Updated analysis graph search next node facts) {old : Facts Value Store}
    (found : search.facts? node = some old) : old.Below facts := by
  obtain ⟨input, values, current, le, transferred, rises⟩ := ascending node old notEntry found
  cases updated.input.symm.trans current
  have value := monotonic.value node le rises
  have output := monotonic.output node le rises
  rw [transferred, updated.transfer] at value output
  exact ⟨value, le, output⟩

/-- An evaluation of an ascending search is an ascent. -/
theorem Updated.ascends (monotonic : Monotonic analysis graph) (notEntry : node ≠ Graph.entry)
    (ascending : Ascending analysis graph search)
    (updated : Updated analysis graph search next node facts) : Ascends search next := by
  intro other old found
  by_cases same : other = node
  · subst same
    exact ⟨facts, updated.self, updated.below monotonic notEntry ascending found⟩
  · exact ⟨old, (updated.other same).trans found, .refl old⟩

/-- An evaluation keeps a search ascending. -/
theorem Ascending.update (monotonic : Monotonic analysis graph) (notEntry : node ≠ Graph.entry)
    (ascending : Ascending analysis graph search)
    (updated : Updated analysis graph search next node facts) : Ascending analysis graph next := by
  have ascends := updated.ascends monotonic notEntry ascending
  intro other stored different found
  by_cases same : other = node
  · subst same
    cases updated.self.symm.trans found
    obtain ⟨input, current, le⟩ := ascends.inputAt monotonic updated.input
    exact ⟨input, search.valueOf, current, le, updated.transfer, ascends.valueOf⟩
  · rw [updated.other same] at found
    obtain ⟨input, values, current, le, transferred, rises⟩ :=
      ascending other stored different found
    obtain ⟨more, now, further⟩ := ascends.inputAt monotonic current
    exact ⟨more, values, now, le.trans further, transferred, fun place =>
      (rises place).trans (ascends.valueOf place)⟩

/-- Along the runs of a monotone analysis facts only rise. -/
theorem Run.ascends (monotonic : Monotonic analysis graph) (well : graph.WellDrawn)
    (consistent : Consistent analysis graph initial search)
    (ascending : Ascending analysis graph search) (run : Run analysis graph search later) :
    Ascending analysis graph later ∧ Ascends search later := by
  induction run with
  | refl => exact ⟨ascending, .refl search⟩
  | step run updated ih =>
      obtain ⟨before, ascends⟩ := ih
      obtain ⟨notEntry, -⟩ :=
        (run.consistent well consistent).exists_input well updated.waiting
      exact ⟨before.update monotonic notEntry updated,
        ascends.trans (updated.ascends monotonic notEntry before)⟩

end FragmentFlow.Analysis
