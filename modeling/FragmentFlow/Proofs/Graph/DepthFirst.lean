import FragmentFlow.Proofs.Drawing.TypeNames
import FragmentFlow.Proofs.Graph.Order
import Mathlib.Algebra.GroupWithZero.Nat
import Mathlib.Data.Finset.Card

/-!
# The walk is depth-first

The walk keeps its visits on a stack and marks a node as soon as it is found.  A recursive walk
visits the targets of a node one after the other and finishes the node behind them.  Both finish
the same nodes in the same order: the turns of the loop that look at the targets of a visit are
those of the recursion over these targets, whatever lies below the visit on the stack.
-/

namespace FragmentFlow.Graph

/-- The nodes that a recursive walk finishes from some targets when certain nodes are known, in
the order in which it finishes them.  A target is finished behind all that is found from it,
and the targets after it know both. -/
def depthFirst (graph : Graph) (known : Finset Nat) (list : List Nat) : List Nat :=
  match list with
  | [] => []
  | next :: later =>
    if next < graph.size ∧ next ∉ known then
      let found := depthFirst graph (insert next known) (graph.targets next)
      found ++ next :: depthFirst graph (insert next known ∪ found.toFinset) later
    else depthFirst graph known later
termination_by ((Finset.range graph.size \ known).card, list.length)
decreasing_by
  · rename_i fresh
    refine Prod.Lex.left _ _ (Finset.card_lt_card ?_)
    rw [Finset.sdiff_insert]
    exact Finset.erase_ssubset (Finset.mem_sdiff.2 ⟨Finset.mem_range.2 fresh.1, fresh.2⟩)
  · refine Prod.Lex.right' _ (Finset.card_le_card ?_) (Nat.lt_succ_self _)
    apply Finset.sdiff_subset_sdiff (Finset.Subset.refl _)
    exact (Finset.subset_insert _ _).trans Finset.subset_union_left
  · exact Prod.Lex.right _ (Nat.lt_succ_self _)

/-! ### Turns of the loop -/

/-- A walk under way: the visits, innermost first, which nodes have been entered, and the
finished nodes, last one first. -/
structure Stage where
  stack : List Visit
  entered : Array Bool
  finished : List Nat

/-- One turn of the loop, which looks at the next target of the innermost visit or finishes
it. -/
def advance (graph : Graph) (stage : Stage) : Stage :=
  match stage.stack with
  | [] => stage
  | (node, []) :: outer => ⟨outer, stage.entered, node :: stage.finished⟩
  | (node, next :: later) :: outer =>
    if stage.entered[next]? = some false then
      ⟨(next, graph.targets next) :: (node, later) :: outer,
        stage.entered.setIfInBounds next true, stage.finished⟩
    else ⟨(node, later) :: outer, stage.entered, stage.finished⟩

/-- What the walk finishes from a stage on. -/
def Stage.outcome (graph : Graph) (stage : Stage) : List Nat :=
  graph.walk stage.stack stage.entered stage.finished

/-- The stage at which the walk starts. -/
def outset (graph : Graph) : Stage :=
  ⟨[(Graph.entry, graph.targets Graph.entry)],
    (Array.replicate graph.size false).setIfInBounds Graph.entry true, []⟩

/-- The turns that go to some nodes: one for each of their edges and one to finish each. -/
def effort (graph : Graph) (nodes : List Nat) : Nat :=
  (nodes.map fun node => (graph.targets node).length + 1).sum

/-- An array says which nodes are known. -/
def Marks (graph : Graph) (entered : Array Bool) (known : Finset Nat) : Prop :=
  ∀ node, entered[node]? = some false ↔ node < graph.size ∧ node ∉ known

variable {graph : Graph}

section Turns

variable {node next : Nat} {later : List Nat} {outer : List Visit} {entered : Array Bool}
  {finished : List Nat}

theorem advance_finish :
    graph.advance ⟨(node, []) :: outer, entered, finished⟩ = ⟨outer, entered, node :: finished⟩ :=
  rfl

theorem advance_enter (fresh : entered[next]? = some false) :
    graph.advance ⟨(node, next :: later) :: outer, entered, finished⟩ =
      ⟨(next, graph.targets next) :: (node, later) :: outer, entered.setIfInBounds next true,
        finished⟩ :=
  if_pos fresh

theorem advance_pass (known : ¬ entered[next]? = some false) :
    graph.advance ⟨(node, next :: later) :: outer, entered, finished⟩ =
      ⟨(node, later) :: outer, entered, finished⟩ :=
  if_neg known

end Turns

/-- A turn takes the walk one step further. -/
theorem outcome_advance (graph : Graph) (stage : Stage) :
    (graph.advance stage).outcome graph = stage.outcome graph := by
  obtain ⟨stack, entered, finished⟩ := stage
  rcases stack with _ | ⟨⟨node, _ | ⟨next, later⟩⟩, outer⟩
  · rfl
  · rw [advance_finish, Stage.outcome, Stage.outcome, walk]
  · by_cases fresh : entered[next]? = some false
    · have bound := (Array.getElem?_eq_some_iff.1 fresh).1
      rw [advance_enter fresh, Stage.outcome, Stage.outcome, Array.setIfInBounds, dif_pos bound]
      symm
      rw [walk, dif_pos fresh]
    · rw [advance_pass fresh, Stage.outcome, Stage.outcome]
      symm
      rw [walk, dif_neg fresh]

/-- Turns of the loop do not change what the walk finishes. -/
theorem outcome_iterate (graph : Graph) (stage : Stage) (count : Nat) :
    (graph.advance^[count] stage).outcome graph = stage.outcome graph := by
  induction count with
  | zero => rfl
  | succ count ih => rw [Function.iterate_succ_apply', outcome_advance, ih]

/-- Entering a node makes it known. -/
theorem Marks.insert {entered : Array Bool} {known : Finset Nat} (marks : graph.Marks entered known)
    (next : Nat) : graph.Marks (entered.setIfInBounds next true) (insert next known) := by
  intro node
  rw [Array.getElem?_setIfInBounds, Finset.mem_insert, not_or]
  split
  · rename_i same
    refine iff_of_false (fun found => ?_) (fun absent => absent.2.1 same.symm)
    split at found <;> cases found
  · rename_i different
    rw [marks, and_iff_right (Ne.symm different)]

/-- The turns of some nodes are those of each of them. -/
theorem effort_found (nodes others : List Nat) (node : Nat) :
    graph.effort (nodes ++ node :: others) =
      graph.effort nodes + ((graph.targets node).length + 1) + graph.effort others := by
  simp only [effort, List.map_append, List.map_cons, List.sum_append, List.sum_cons, Nat.add_assoc]

/-- Up to the end of a visit, the loop finishes what the recursion finishes from the targets
that the visit has not looked at. -/
theorem exists_turns {known : Finset Nat} {entered : Array Bool} (marks : graph.Marks entered known)
    (list : List Nat) (node : Nat) (outer : List Visit) (finished : List Nat) :
    ∃ later, graph.Marks later (known ∪ (graph.depthFirst known list).toFinset) ∧
      graph.advance^[list.length + graph.effort (graph.depthFirst known list)]
          ⟨(node, list) :: outer, entered, finished⟩ =
        ⟨(node, []) :: outer, later, (graph.depthFirst known list).reverse ++ finished⟩ := by
  induction known, list using depthFirst.induct graph generalizing node outer entered finished with
  | case1 known =>
      rw [depthFirst, List.toFinset_nil, Finset.union_empty]
      exact ⟨entered, marks, rfl⟩
  | case2 known next later fresh found inner =>
      -- the visit to `next` comes to its end before the rest of this one goes on
      rename_i rest
      have isFound : graph.depthFirst (insert next known) (graph.targets next) = found := rfl
      rw [depthFirst, if_pos fresh]
      dsimp only
      rw [isFound] at inner ⊢
      obtain ⟨below, belowMarks, visited⟩ :=
        inner (marks.insert next) next ((node, later) :: outer) finished
      obtain ⟨last, lastMarks, passed⟩ :=
        rest belowMarks node outer (next :: (found.reverse ++ finished))
      generalize graph.depthFirst (insert next known ∪ found.toFinset) later = others at *
      refine ⟨last, ?_, ?_⟩
      · convert lastMarks using 1
        simp only [List.toFinset_append, List.toFinset_cons, Finset.insert_union,
          Finset.union_insert, Finset.union_assoc]
      · have count : (next :: later).length + graph.effort (found ++ next :: others) =
            (later.length + graph.effort others) + 1 +
              ((graph.targets next).length + graph.effort found) + 1 := by
          rw [effort_found, List.length_cons]
          omega
        rw [count, Function.iterate_succ_apply, advance_enter ((marks next).2 fresh),
          Function.iterate_add_apply, visited, Function.iterate_succ_apply, advance_finish, passed,
          List.reverse_append, List.reverse_cons]
        simp only [List.append_assoc, List.cons_append, List.nil_append]
  | case3 known next later seen ih =>
      rw [depthFirst, if_neg seen, List.length_cons, Nat.add_right_comm,
        Function.iterate_succ_apply, advance_pass (mt (marks next).1 seen)]
      exact ih marks node outer finished

/-- The recursion from the entry finishes it last. -/
theorem depthFirst_entry (nonempty : Graph.entry < graph.size) :
    graph.depthFirst ∅ [Graph.entry] =
      graph.depthFirst {Graph.entry} (graph.targets Graph.entry) ++ [Graph.entry] := by
  rw [depthFirst, if_pos ⟨nonempty, Finset.notMem_empty _⟩]
  dsimp only
  rw [depthFirst, insert_empty_eq]

/-- The loop ends with what the recursion finishes from the entry. -/
theorem exists_turns_outset (nonempty : Graph.entry < graph.size) :
    ∃ entered, graph.advance^[graph.effort (graph.depthFirst ∅ [Graph.entry])] graph.outset =
      ⟨[], entered, (graph.depthFirst ∅ [Graph.entry]).reverse⟩ := by
  have unmarked : graph.Marks (Array.replicate graph.size false) ∅ := by
    intro node
    rw [Array.getElem?_replicate, Option.ite_none_right_eq_some]
    simp
  have marks := unmarked.insert Graph.entry
  rw [insert_empty_eq] at marks
  obtain ⟨entered, -, visited⟩ := exists_turns marks (graph.targets Graph.entry) Graph.entry [] []
  refine ⟨entered, ?_⟩
  have count : graph.effort (graph.depthFirst ∅ [Graph.entry]) =
      (graph.targets Graph.entry).length +
        graph.effort (graph.depthFirst {Graph.entry} (graph.targets Graph.entry)) + 1 := by
    have nothing : graph.effort [] = 0 := rfl
    rw [depthFirst_entry nonempty, effort_found, nothing]
    omega
  rw [count, Function.iterate_succ_apply', outset, visited, advance_finish,
    depthFirst_entry nonempty, List.reverse_append, List.append_nil]
  rfl

theorem reversePostorder_eq (nonempty : Graph.entry < graph.size) :
    graph.reversePostorder = (graph.depthFirst ∅ [Graph.entry]).reverse := by
  obtain ⟨entered, ends⟩ := exists_turns_outset nonempty
  have outcome := outcome_iterate graph graph.outset
    (graph.effort (graph.depthFirst ∅ [Graph.entry]))
  rw [ends, Stage.outcome, walk] at outcome
  exact outcome.symm

/-- The walk from the entry is the recursive one. -/
theorem postorder_eq (nonempty : Graph.entry < graph.size) :
    graph.postorder = graph.depthFirst ∅ [Graph.entry] := by
  rw [postorder, reversePostorder_eq nonempty, List.reverse_reverse]

/-! ### Ranks -/

/-- A node with a rank is at that place in reverse postorder. -/
theorem idxOf_of_ranks {node place : Nat} (found : graph.ranks[node]? = some (some place)) :
    node ∈ graph.reversePostorder ∧ graph.reversePostorder.idxOf node = place := by
  have bound : node < graph.size := by
    have inside := (Array.getElem?_eq_some_iff.1 found).1
    rwa [ranks, Array.size_ofFn] at inside
  rw [getElem?_ranks bound] at found
  have isPlace := Option.some.inj found
  refine ⟨List.isSome_idxOf?.1 (isPlace ▸ rfl), ?_⟩
  rw [List.idxOf_eq_getD_idxOf?, isPlace]
  rfl

/-- An edge to a node that does not come later leads back to a visit under way. -/
theorem WellFormed.exists_path_back (well : graph.WellFormed) {edge : Edge}
    (drawn : edge ∈ graph.edges) (member : edge.source ∈ graph.reversePostorder)
    (le : graph.reversePostorder.idxOf edge.target ≤ graph.reversePostorder.idxOf edge.source) :
    ∃ nodes, graph.Path edge.target nodes edge.source := by
  obtain ⟨all, walking⟩ := walking_reversePostorder well
  have leaving := well.mem_successors.2 ⟨drawn, rfl⟩
  have placed := (walking.placed _ member _ (List.mem_map.2 ⟨edge, leaving, rfl⟩)).2
  obtain ⟨nodes, path, -, onPath⟩ := placed.resolve_left fun precedes =>
    Nat.not_lt.2 le (precedes.idxOf_lt walking.nodup)
  obtain ⟨-, rest, -, -, back⟩ := path.split onPath
  exact ⟨rest, back⟩

/-- The order in which a graph is walked and the ranks that it gives to the nodes. -/
structure DepthFirstOrder (graph : Graph) : Prop where
  /-- The loop ends, after one turn for each node that is reached and one for each edge that
  leaves such a node. -/
  ends : ∃ entered, graph.advance^[graph.effort graph.postorder] graph.outset =
    ⟨[], entered, graph.reversePostorder⟩
  recursive : graph.postorder = graph.depthFirst ∅ [Graph.entry]
  reached : ∀ node, node ∈ graph.postorder ↔ graph.Reaches node
  once : graph.postorder.Nodup
  last : graph.postorder.getLast? = some Graph.entry
  first : graph.ranks[Graph.entry]? = some (some 0)
  unranked : ∀ node < graph.size, graph.ranks[node]? = some none ↔ ¬ graph.Reaches node
  injective : ∀ node other place : Nat, graph.ranks[node]? = some (some place) →
    graph.ranks[other]? = some (some place) → node = other
  /-- An edge that does not lead on to a later node lies on a cycle. -/
  retreating : ∀ edge ∈ graph.edges, ∀ place next, graph.ranks[edge.source]? = some (some place) →
    graph.ranks[edge.target]? = some (some next) → next ≤ place →
      ∃ nodes, graph.Path edge.target nodes edge.source

/-- A well-formed graph is walked depth-first, and its ranks follow the walk. -/
theorem depthFirstOrder_of_wellFormed (well : graph.WellFormed) : graph.DepthFirstOrder := by
  obtain ⟨all, walking⟩ := walking_reversePostorder well
  have recursive := postorder_eq well.nonempty
  have reversed := reversePostorder_eq well.nonempty
  refine ⟨?_, recursive, fun node => ?_, ?_, ?_, ?_, fun node bound => ?_, ?_, ?_⟩
  · rw [recursive, reversed]
    exact exists_turns_outset well.nonempty
  · rw [postorder, List.mem_reverse]
    exact walking.mem_iff_reaches
  · exact List.nodup_reverse.2 walking.nodup
  · rw [recursive, depthFirst_entry well.nonempty, List.getLast?_concat]
  · rw [getElem?_ranks well.nonempty, reversed, depthFirst_entry well.nonempty,
      List.reverse_append]
    rfl
  · rw [getElem?_ranks bound, Option.some_inj, List.idxOf?_eq_none_iff]
    exact not_congr walking.mem_iff_reaches
  · intro node other place atNode atOther
    obtain ⟨member, isPlace⟩ := idxOf_of_ranks atNode
    exact (List.idxOf_inj member).1 (isPlace.trans (idxOf_of_ranks atOther).2.symm)
  · intro edge drawn place next atSource atTarget le
    obtain ⟨member, rfl⟩ := idxOf_of_ranks atSource
    obtain ⟨-, rfl⟩ := idxOf_of_ranks atTarget
    exact well.exists_path_back drawn member le

/-- A test without an effect, a loop that waits, and a loop that goes on for ever:
`if (ready) {} while (busy) {} for (;;) {}`. -/
def idling : Fragment :=
  .initializerOf "Idle"
    [.ifElse (.ident "ready") [] none, .whileLoop (.ident "busy") [], .forLoop [] none [] []]

/-- Two edges lead from the test to the first loop, and the second one leads only to itself, so
that neither exit has a rank. -/
theorem idling_ordered : ∃ graph, ofFragment idling .builtins = .ok graph ∧
    graph.edges = #[⟨0, 1, .normal⟩, ⟨1, 2, .onTrue⟩, ⟨1, 2, .onFalse⟩, ⟨2, 3, .normal⟩,
      ⟨3, 2, .onTrue⟩, ⟨3, 4, .onFalse⟩, ⟨4, 4, .normal⟩] ∧
    graph.ranks = #[some 0, some 1, some 2, some 3, some 4, none, none] ∧
    graph.DepthFirstOrder := by
  have built : ofFragment idling .builtins = .ok ((draw idling).finish idling.name) := by
    decide +kernel
  exact ⟨_, built, by decide +kernel, by decide +kernel,
    depthFirstOrder_of_wellFormed (wellDrawn_of_ofFragment built).wellFormed⟩

end FragmentFlow.Graph
