import FragmentFlow.Proofs.Constants.Monotone
import FragmentFlow.Proofs.Graph.Names
import FragmentFlow.Proofs.Solver.Budget
import Mathlib.Algebra.Order.BigOperators.Group.List
import Mathlib.Algebra.Order.Group.Nat

/-!
# Constant propagation converges

A constant can rise twice, from bottom to a known value and from there to top.  A search
binds no names but those of its graph and of the store at the entry, so that the facts of a
node can rise only so often: twice for each of these names in both stores, and twice for
the value.
-/

namespace FragmentFlow

/-! ### Heights -/

namespace Constant

/-- How often a constant can have risen. -/
def height : Constant → Nat
  | bottom => 0
  | top => 2
  | _ => 1

/-- A constant can rise twice. -/
theorem height_le (a : Constant) : a.height ≤ 2 := by
  cases a <;> simp [height]

/-- A larger constant is higher. -/
theorem height_lt {a b : Constant} (below : a ≤ b) (different : a ≠ b) : a.height < b.height := by
  rcases le_iff.1 below with rfl | rfl | same
  · cases b <;> first | exact absurd rfl different | exact Nat.zero_lt_succ _
  · cases a <;> first | exact absurd rfl different | simp [height]
  · exact absurd same different

theorem height_mono : Monotone height := by
  intro a b below
  by_cases same : a = b
  · rw [same]
  · exact Nat.le_of_lt (height_lt below same)

end Constant

namespace Store

variable {store larger : Store} {names : List String}

/-- All names that a store binds are in a list. -/
def Within (names : List String) (store : Store) : Prop :=
  ∀ name, store.get name ≠ .bottom → name ∈ names

/-- How often the constants of some names can have risen. -/
def height (names : List String) (store : Store) : Nat :=
  (names.map fun name => (store.get name).height).sum

/-- A store can rise twice for each of its names. -/
theorem height_le (names : List String) (store : Store) :
    store.height names ≤ 2 * names.length := by
  have each : ∀ height ∈ names.map fun name => (store.get name).height, height ≤ 2 := by
    intro height member
    obtain ⟨name, -, rfl⟩ := List.mem_map.1 member
    exact Constant.height_le _
  have total := List.sum_le_card_nsmul _ 2 each
  rw [List.length_map, smul_eq_mul, Nat.mul_comm] at total
  exact total

theorem height_mono (names : List String) : Monotone (height names) := by
  intro store larger below
  exact List.sum_le_sum fun name _ => Constant.height_mono (le_iff_get.1 below name)

/-- A larger store is higher if all that it binds is counted. -/
theorem height_lt (within : larger.Within names) (below : store ≤ larger)
    (different : store ≠ larger) : store.height names < larger.height names := by
  obtain ⟨name, differs⟩ : ∃ name, store.get name ≠ larger.get name := by
    by_contra none
    push Not at none
    exact different (ext_get none)
  have rises := le_iff_get.1 below
  have bound : larger.get name ≠ .bottom := by
    intro isBottom
    exact differs ((Constant.le_bottom (isBottom ▸ rises name)).trans isBottom.symm)
  exact List.sum_lt_sum _ _ (fun other _ => Constant.height_mono (rises other))
    ⟨name, within name bound, Constant.height_lt (rises name) differs⟩

/-- Setting one of the names stays within them. -/
theorem Within.set (within : store.Within names) {target : String} (member : target ∈ names)
    (value : Constant) : (store.set target value).Within names := by
  intro name bound
  rw [get_set] at bound
  split at bound
  · rename_i same
    exact same ▸ member
  · exact within name bound

/-- Setting some of the names stays within them. -/
theorem Within.setAll (within : store.Within names) {targets : List String}
    (members : ∀ target ∈ targets, target ∈ names) (value : Constant) :
    (store.setAll targets value).Within names := by
  intro name bound
  rw [get_setAll] at bound
  split at bound
  · rename_i isTarget
    exact members name isTarget
  · exact within name bound

/-- A join of stores within some names is within them. -/
theorem Within.join (within : store.Within names) (alike : larger.Within names) :
    (store.join larger).Within names := by
  intro name bound
  by_cases unbound : store.get name = .bottom
  · rw [get_join, unbound, Constant.bottom_join] at bound
    exact alike name bound
  · exact within name unbound

end Store

namespace Constants

variable {folding : Bool} {graph : Graph} {id : Nat} {initial store : Store} {names : List String}
  {search next : Analysis.Search Constant Store} {facts old : Analysis.Facts Constant Store}

/-- The names of a graph and those that a store binds. -/
def namesFrom (graph : Graph) (initial : Store) : NameSet :=
  graph.variableNames.insertAll (initial.entries.map Prod.fst)

/-- The store at the entry is within the names that are counted. -/
theorem within_namesFrom (graph : Graph) (initial : Store) :
    initial.Within (namesFrom graph initial).names := by
  intro name bound
  refine NameSet.mem_insertAll.2 (Or.inr ?_)
  cases found : initial.entries.lookup name with
  | none =>
      rw [Store.get, found] at bound
      exact absurd rfl bound
  | some value => exact List.mem_map.2 ⟨_, Store.mem_of_lookup found, rfl⟩

/-! ### Stores of a search -/

/-- Forgetting the free names stays within the names of the graph. -/
theorem forgetFree_within (well : graph.WellDrawn) (within : store.Within names)
    (mentioned : ∀ name ∈ graph.variableNames.names, name ∈ names) :
    (graph.forgetFree store).Within names :=
  within.setAll (fun name free =>
    mentioned name (Graph.variableNames_of_freeNames well free)) _

/-- Following an edge stays within the names of the graph. -/
theorem onEdge_within (well : graph.WellDrawn) (edge : Graph.Edge) (within : store.Within names)
    (mentioned : ∀ name ∈ graph.variableNames.names, name ∈ names) :
    (onEdge graph edge store).Within names := by
  unfold onEdge
  dsimp only
  split
  · exact forgetFree_within well within mentioned
  · exact within

/-- The transfer function stays within the names of the graph. -/
theorem transfer_within (well : graph.WellDrawn) (within : store.Within names)
    (mentioned : ∀ name ∈ graph.variableNames.names, name ∈ names)
    (values : Nat → Option Constant) :
    (transfer folding graph id store values).2.Within names := by
  cases found : graph.nodes[id]? with
  | none =>
      rw [transfer, found]
      exact within
  | some node =>
      have named : ∀ {name}, node.action.declared? = some name ∨ node.action.used? = some name →
          name ∈ names := fun mentions => mentioned _ (Graph.mem_variableNames found mentions)
      rw [transfer_eq found]
      cases action : node.action <;> rw [action] at named
      case param name => exact within.set (named (Or.inl rfl)) _
      case catchParam name _ => exact within.set (named (Or.inl rfl)) _
      case decl name =>
        dsimp only [transferAction]
        split
        · exact within
        · exact within.set (named (Or.inl rfl)) _
      case assign name => exact within.set (named (Or.inr rfl)) _
      case call => exact forgetFree_within well within mentioned
      case new => exact forgetFree_within well within mentioned
      all_goals exact within

/-- All stores of a run are within the names that are counted. -/
theorem within_of_run (well : graph.WellDrawn)
    (run : Analysis.Run (analysis folding) graph (Analysis.start graph graph.ranks initial) search)
    (found : search.facts? id = some facts) :
    facts.input.Within (namesFrom graph initial).names ∧
      facts.output.Within (namesFrom graph initial).names := by
  have mentioned : ∀ name ∈ graph.variableNames.names, name ∈ (namesFrom graph initial).names :=
    fun name member => NameSet.mem_insertAll.2 (Or.inl member)
  exact run.stores_keep (Store.Within _) well (fun _ _ within alike => within.join alike)
    (fun edge _ within => onEdge_within well edge within mentioned)
    (fun _ _ values within => transfer_within well within mentioned values)
    (within_namesFrom graph initial) id facts found

/-! ### Facts of a search -/

/-- Whether a node has a value is told by its action. -/
theorem isSome_transfer (folding : Bool) (graph : Graph) (id : Nat) (store other : Store)
    (values others : Nat → Option Constant) :
    (transfer folding graph id store values).1.isSome =
      (transfer folding graph id other others).1.isSome := by
  cases found : graph.nodes[id]? with
  | none => rw [transfer, transfer, found]
  | some node =>
      rw [transfer_eq found, transfer_eq found]
      cases node.action <;> rfl

theorem eq_of_getD_eq {value other : Option Constant} (alike : value.isSome = other.isSome)
    (same : value.getD .bottom = other.getD .bottom) : value = other := by
  cases value with
  | none =>
      cases other with
      | none => rfl
      | some _ => cases alike
  | some _ =>
      cases other with
      | none => cases alike
      | some _ => exact congrArg some same

/-- How often the facts of a node can have risen. -/
def factsHeight (names : List String) (facts : Analysis.Facts Constant Store) : Nat :=
  (facts.value.getD .bottom).height + facts.input.height names + facts.output.height names

/-- Facts can rise a bounded number of times. -/
theorem factsHeight_lt (names : List String) (facts : Analysis.Facts Constant Store) :
    factsHeight names facts < 4 * names.length + 3 := by
  have value := (facts.value.getD .bottom).height_le
  have input := facts.input.height_le names
  have output := facts.output.height_le names
  unfold factsHeight
  omega

/-- Larger facts are higher. -/
theorem factsHeight_lt_of_below (input : facts.input.Within names)
    (output : facts.output.Within names) (below : old.Below facts)
    (alike : old.value.isSome = facts.value.isSome) (different : old ≠ facts) :
    factsHeight names old < factsHeight names facts := by
  have values := Constant.height_mono (getD_le_of_rises below.value)
  have inputs := Store.height_mono names below.input
  have outputs := Store.height_mono names below.output
  unfold factsHeight
  by_cases sameInput : old.input = facts.input
  · by_cases sameOutput : old.output = facts.output
    · have higher : (old.value.getD .bottom).height < (facts.value.getD .bottom).height := by
        refine Constant.height_lt (getD_le_of_rises below.value) fun same => different ?_
        have sameValue := eq_of_getD_eq alike same
        cases old
        cases facts
        cases sameValue
        cases sameInput
        cases sameOutput
        rfl
      omega
    · have higher := Store.height_lt output below.output sameOutput
      omega
  · have higher := Store.height_lt input below.input sameInput
    omega

/-- Every evaluation gives the facts that were there or higher ones. -/
theorem climbs_of_run (well : graph.WellDrawn)
    (run : Analysis.Run (analysis folding) graph (Analysis.start graph graph.ranks initial) search)
    (updated : Analysis.Updated (analysis folding) graph search next id facts) :
    Analysis.Climbs (factsHeight (namesFrom graph initial).names)
      (4 * (namesFrom graph initial).size + 3) (search.facts? id) facts := by
  refine ⟨factsHeight_lt _ _, fun earlier found => or_iff_not_imp_left.2 fun different => ?_⟩
  have consistent := run.consistent well (.start well initial)
  obtain ⟨notEntry, -⟩ := consistent.exists_input well updated.waiting
  obtain ⟨ascending, -⟩ := run.ascends (monotonic folding graph) well (.start well initial)
    (.start well initial)
  obtain ⟨input, output⟩ := within_of_run well (run.step updated) updated.self
  obtain ⟨_, values, -, -, transferred, -⟩ := ascending id earlier notEntry found
  have alike := isSome_transfer folding graph id earlier.input facts.input values search.valueOf
  have first : transfer folding graph id earlier.input values = _ := transferred
  have second : transfer folding graph id facts.input search.valueOf = _ := updated.transfer
  rw [first, second] at alike
  exact factsHeight_lt_of_below input output
    (updated.below (monotonic folding graph) notEntry ascending found) alike different

/-- Facts only rise, and every limit that leaves four visits along each edge for every name
that the graph mentions or the store at the entry binds, and three more, suffices. -/
theorem solveFrom_within_budget {fragment : Fragment} {types : Environment}
    (built : Graph.ofFragment fragment types = .ok graph) (folding : Bool) (initial : Store) :
    (∀ steps more, steps ≤ more →
      Analysis.Ascends (Analysis.searchAfter (analysis folding) graph initial steps)
        (Analysis.searchAfter (analysis folding) graph initial more)) ∧
    ∀ limits : Limits,
      graph.edges.size * (4 * (namesFrom graph initial).size + 3) ≤ limits.visitLimit graph.size →
        ∃ solution, (analysis folding).solveFrom limits graph initial = .ok solution ∧
          solution.visits ≤ graph.edges.size * (4 * (namesFrom graph initial).size + 3) := by
  have well := Graph.wellDrawn_of_ofFragment built
  refine ⟨fun steps more le => ?_, fun limits enough => ?_⟩
  · have before := Analysis.run_searchAfter well (analysis folding) initial steps
    have first := before.consistent well (.start well initial)
    obtain ⟨ascending, -⟩ := before.ascends (monotonic folding graph) well (.start well initial)
      (.start well initial)
    exact ((Analysis.run_searchAfter_of_le well le).ascends (monotonic folding graph) well first
      ascending).2
  · exact Analysis.solveFrom_of_climbs well (factsHeight_lt _ _)
      (fun _ _ _ _ run updated => climbs_of_run well run updated) enough

/-- Six edges and three names, one of them only in the store at the entry, need no more than
ninety visits. -/
theorem repeatedLoop_within_budget : ∃ graph solution,
    Graph.ofFragment Analysis.repeatedLoop .builtins = .ok graph ∧ graph.edges.size = 6 ∧
      (namesFrom graph (.ofList [("seen", .bool false), ("other", .int 1)])).size = 3 ∧
      (analysis true).solveFrom ⟨0, 90⟩ graph
        (.ofList [("seen", .bool false), ("other", .int 1)]) = .ok solution ∧
      solution.visits ≤ 90 := by
  have built : Graph.ofFragment Analysis.repeatedLoop .builtins =
      .ok ((Graph.draw Analysis.repeatedLoop).finish Analysis.repeatedLoop.name) := by
    decide +kernel
  have edges : ((Graph.draw Analysis.repeatedLoop).finish
      Analysis.repeatedLoop.name).edges.size = 6 := by
    decide +kernel
  have names : (namesFrom ((Graph.draw Analysis.repeatedLoop).finish Analysis.repeatedLoop.name)
      (.ofList [("seen", .bool false), ("other", .int 1)])).size = 3 := by
    decide +kernel
  generalize (Graph.draw Analysis.repeatedLoop).finish Analysis.repeatedLoop.name = graph
    at built edges names
  obtain ⟨-, converges⟩ := solveFrom_within_budget built true
    (.ofList [("seen", .bool false), ("other", .int 1)])
  rw [edges, names] at converges
  obtain ⟨solution, solved, visits⟩ := converges ⟨0, 90⟩ (Nat.le_max_right _ _)
  exact ⟨graph, solution, built, edges, names, solved, visits⟩

end Constants

end FragmentFlow
