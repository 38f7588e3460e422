import FragmentFlow.Proofs.Drawing.Exits
import FragmentFlow.Proofs.Drawing.Numbering
import FragmentFlow.Proofs.Drawing.TypeNames
import FragmentFlow.Proofs.Graph.Names

/-!
# The numbers in a graph

Edges, operands and exits name nodes by their numbers, and nodes name their edges by numbers
again.  A built graph can follow all of them: whatever is named exists, every edge is listed
exactly where it belongs, and none is there twice.  Each step of drawing keeps this, because
an edge is looked up at its source before it is added.
-/

namespace FragmentFlow.Graph

namespace Builder

variable {b : Builder} {edge : Edge}

/-- The numbers of some edges are listed once each. -/
theorem count_numbers (b : Builder) (test : Edge → Bool) (number : Nat) :
    (b.numbers test).count number = if b.edges[number]?.any test then 1 else 0 := by
  have distinct : (b.numbers test).Nodup := List.nodup_range.filter _
  have listed : number ∈ b.numbers test ↔ b.edges[number]?.any test = true := by
    rw [numbers, List.mem_filter, List.mem_range]
    apply and_iff_right_of_imp
    intro holds
    obtain ⟨edge, found, -⟩ := (Option.any_eq_true ..).1 holds
    exact (Array.getElem?_eq_some_iff.1 found).1
  rw [distinct.count]
  exact if_congr listed rfl rfl

theorem increasing_numbers (b : Builder) (test : Edge → Bool) :
    (b.numbers test).Pairwise (· < ·) :=
  List.pairwise_lt_range.filter _

/-- Looking at the source of an edge finds it among all edges. -/
theorem Indexed.hasEdge_of_mem (indexed : b.Indexed) (bound : edge.source < b.nodes.size)
    (member : edge ∈ b.edges) : b.hasEdge edge = true := by
  obtain ⟨number, found⟩ := Array.mem_iff_getElem?.1 member
  have present := Array.getElem?_eq_getElem bound
  have listed : number ∈ b.nodes[edge.source].outgoing := by
    rw [indexed.outgoing _ _ present, ← List.count_pos_iff, count_numbers, found]
    simp
  rw [Canvas.hasEdge, present]
  exact List.any_eq_true.2 ⟨number, listed, by rw [found, beq_self_eq_true]⟩

theorem Indexed.nodup_addEdge (indexed : b.Indexed) (bound : edge.source < b.nodes.size)
    (distinct : b.edges.toList.Nodup) : (b.addEdge edge).edges.toList.Nodup := by
  unfold Builder.addEdge Canvas.addEdge
  split
  · exact distinct
  · rename_i absent
    rw [Array.toList_push, List.nodup_append_comm]
    refine List.nodup_cons.2 ⟨fun member => absent ?_, distinct⟩
    exact indexed.hasEdge_of_mem bound (Array.mem_toList_iff.1 member)

theorem Indexed.nodup_connect (indexed : b.Indexed) {tips : List Tip} (target : Nat)
    (bounds : ∀ tip ∈ tips, tip.source < b.nodes.size) (distinct : b.edges.toList.Nodup) :
    (b.connect tips target).edges.toList.Nodup := by
  induction tips generalizing b with
  | nil => exact distinct
  | cons tip tips ih =>
      apply ih (indexed.addEdge _)
      · intro other member
        rw [size_addEdge]
        exact bounds other (List.mem_cons_of_mem _ member)
      · exact indexed.nodup_addEdge (bounds tip List.mem_cons_self) distinct

namespace Drawn

/-- No edge is drawn twice. -/
theorem nodup_edges (drawn : Drawn b) : b.edges.toList.Nodup := by
  induction drawn with
  | refl => exact List.nodup_nil
  | moved _ _ edges _ ih => exact edges ▸ ih
  | @grown b node tips draws isBare bounds _ ih =>
      refine ((Drawn.indexed draws).addNode draws isBare).nodup_connect _ (fun tip member => ?_) ih
      exact Nat.lt_of_lt_of_le (bounds tip member) (Grows.addNode b node).size_le
  | linked draws bound _ ih => exact (Drawn.indexed draws).nodup_addEdge bound ih

/-- A node stays at the number that it is given when it is added. -/
theorem exists_added (drawn : Drawn b) {id : Nat} {node : Node} (found : b.bare? id = some node) :
    ∃ earlier, Drawn earlier ∧ (earlier.addNode node).1 = id ∧
      Grows (earlier.addNode node).2 b := by
  induction drawn with
  | refl => cases found
  | moved _ nodes edges _ ih =>
      obtain ⟨earlier, before, given, grows⟩ := ih ((bare?_of_eq nodes id).symm.trans found)
      exact ⟨earlier, before, given, grows.trans (.of_eq nodes edges)⟩
  | @grown b new tips draws isBare _ _ ih =>
      rw [bare?_connect, bare?_addNode] at found
      split at found
      · rename_i isNew
        cases found
        rw [isBare]
        exact ⟨b, draws, isNew.symm, .connect _ _ _⟩
      · obtain ⟨earlier, before, given, grows⟩ := ih found
        exact ⟨earlier, before, given, (grows.trans (.addNode _ _)).trans (.connect _ _ _)⟩
  | linked _ _ _ ih =>
      rw [bare?_addEdge] at found
      obtain ⟨earlier, before, given, grows⟩ := ih found
      exact ⟨earlier, before, given, grows.trans (.addEdges _ [_])⟩

end Drawn

theorem size_finish (b : Builder) (label : String) :
    (b.finish label).size = b.nodes.size + 2 := by
  change b.ended.nodes.size = b.nodes.size + 2
  rw [ended, size_endAt, size_endAt]

end Builder

/-- All numbers in a graph are right. -/
structure Coherent (graph : Graph) : Prop where
  /-- A node stands at the number that it was given when it was added. -/
  placed : ∀ (id : Nat) (node : Node), graph.nodes[id]? = some node →
    ∃ b : Builder, b.Drawn ∧ (b.addNode node.bare).1 = id ∧
      Builder.Grows (b.addNode node.bare).2 graph.toBuilder
  /-- Edges connect nodes. -/
  connected : ∀ edge ∈ graph.edges, edge.source < graph.size ∧ edge.target < graph.size
  /-- A node lists the edges that start at it in order, each one once and no others. -/
  outgoing : ∀ (id : Nat) (node : Node), graph.nodes[id]? = some node →
    node.outgoing.Pairwise (· < ·) ∧ ∀ number, node.outgoing.count number =
      if graph.edges[number]?.any (·.source == id) then 1 else 0
  /-- A node lists the edges that end at it in order, each one once and no others. -/
  incoming : ∀ (id : Nat) (node : Node), graph.nodes[id]? = some node →
    node.incoming.Pairwise (· < ·) ∧ ∀ number, node.incoming.count number =
      if graph.edges[number]?.any (·.target == id) then 1 else 0
  /-- No two edges have the same source, target and kind. -/
  distinct : graph.edges.toList.Nodup
  entry : Graph.entry = 0 ∧ graph.action? Graph.entry = some .entry
  /-- The exits are the last two nodes. -/
  exits : graph.exit + 2 = graph.size ∧ graph.action? graph.exit = some .exit ∧
    graph.exceptionalExit + 1 = graph.size ∧
      graph.action? graph.exceptionalExit = some .exceptionalExit
  /-- Operands have smaller numbers than the nodes that use them. -/
  operands : ∀ (id : Nat) (node : Node), graph.nodes[id]? = some node →
    ∀ operand ∈ node.operands, operand < id
  /-- The free names are those that some node uses and none declares. -/
  free : ∀ name, name ∈ graph.freeNames.names ↔
    (∃ (id : Nat) (node : Node), graph.nodes[id]? = some node ∧
      node.action.used? = some name) ∧
      ¬ ∃ (id : Nat) (node : Node), graph.nodes[id]? = some node ∧
        node.action.declared? = some name
  /-- The free names are variables of the graph, in order and without repetition. -/
  named : (∀ name ∈ graph.freeNames.names, name ∈ graph.variableNames.names) ∧
    graph.freeNames.names.Pairwise (· < ·)

theorem action?_eq (graph : Graph) (id : Nat) :
    graph.action? id = (graph.toBuilder.bare? id).map Node.action := by
  rw [Builder.bare?, Option.map_map]
  rfl

/-- The two exits are the last nodes. -/
theorem exits_finish (b : Builder) (label : String) :
    (b.finish label).exit + 2 = (b.finish label).size ∧
      (b.finish label).action? (b.finish label).exit = some .exit ∧
      (b.finish label).exceptionalExit + 1 = (b.finish label).size ∧
      (b.finish label).action? (b.finish label).exceptionalExit = some .exceptionalExit := by
  have exit : (b.finish label).exit = b.nodes.size := rfl
  rw [Builder.size_finish, Builder.exceptionalExit_finish, exit, action?_eq, action?_eq,
    Builder.bare?_finish, Builder.bare?_finish, if_neg (Nat.ne_of_lt (Nat.lt_succ_self _)),
    if_pos rfl, if_pos rfl]
  exact ⟨rfl, rfl, rfl, rfl⟩

/-- All numbers in a built graph are right. -/
theorem coherent_of_ofFragment {fragment : Fragment} {env : Environment} {graph : Graph}
    (built : ofFragment fragment env = .ok graph) : graph.Coherent := by
  have well := wellDrawn_of_ofFragment built
  have indexed := Builder.Drawn.indexed well.drawn
  refine
    { placed := fun id node found => Builder.Drawn.exists_added well.drawn (bare?_toBuilder found)
      connected := fun edge member => Builder.Drawn.edge_bounds well.drawn member
      outgoing := fun id node found => ?_
      incoming := fun id node found => ?_
      distinct := Builder.Drawn.nodup_edges well.drawn
      entry := ⟨rfl, by rw [action?_eq, well.entry]; rfl⟩
      exits := ?_
      operands := fun id node found operand member =>
        Builder.Drawn.operand_lt well.drawn (bare?_toBuilder found) operand member
      free := fun name => mem_freeNames well
      named := ⟨fun name => variableNames_of_freeNames well, graph.freeNames.increasing⟩ }
  · rw [indexed.outgoing id node found]
    exact ⟨Builder.increasing_numbers _ _, Builder.count_numbers _ _⟩
  · rw [indexed.incoming id node found]
    exact ⟨Builder.increasing_numbers _ _, Builder.count_numbers _ _⟩
  · obtain ⟨-, rfl⟩ := eq_finish_of_ofFragment built
    exact exits_finish _ _

/-- A quotient that is logged on every way out:
`try { int share = total / count; return; } catch (Exception e) { total = 0; }
finally { log(total); }`. -/
def loggedShare : Fragment :=
  .initializerOf "Share"
    [.tryCatch
      [.localDecl "share" "int" (some (.binary .div (.ident "total") (.ident "count"))),
        .returnValue none]
      [.mk "e" "Exception" [.exprStmt (.assign "total" (.literal (.int 0)))]]
      (some [.exprStmt (.call "log" [.ident "total"])])]

/-- The two edges of the quotient lead on to the declaration and to the catch clause. -/
theorem loggedShare_coherent : ∃ graph, ofFragment loggedShare .builtins = .ok graph ∧
    graph.successors 4 = [⟨4, 1, .exception⟩, ⟨4, 5, .normal⟩] ∧
    graph.freeNames.names = ["count", "total"] ∧ graph.Coherent := by
  have built : ofFragment loggedShare .builtins =
      .ok ((draw loggedShare).finish loggedShare.name) := by
    decide +kernel
  exact ⟨_, built, by decide +kernel, by decide +kernel, coherent_of_ofFragment built⟩

end FragmentFlow.Graph
