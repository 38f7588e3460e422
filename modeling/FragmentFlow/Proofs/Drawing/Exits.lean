import FragmentFlow.Proofs.Drawing.Census
import FragmentFlow.Proofs.Drawing.Fragments

/-!
# The exits of a graph

The two exits are drawn last.  What is open behind the code or parked for a return ends
at the first one, and what no catch clause stops ends at the second.
-/

namespace FragmentFlow.Graph.Builder

section EndAt

variable (b : Builder) (action : Action) (tips : List Tip)

theorem size_endAt : (b.endAt action tips).nodes.size = b.nodes.size + 1 := by
  rw [endAt, size_connect]
  exact Array.size_push ..

theorem bare?_endAt (id : Nat) : (b.endAt action tips).bare? id =
    if id = b.nodes.size then some (.implicit action []) else b.bare? id := by
  rw [endAt, bare?_connect, bare?_addNode]
  rfl

/-- An exit lets the drawing grow. -/
theorem grows_endAt : Grows b (b.endAt action tips) :=
  (Grows.addNode b _).trans (.connect _ _ _)

theorem length_nodesWhere_endAt (test : Node → Bool) :
    ((b.endAt action tips).nodesWhere test).length =
      (b.nodesWhere test).length + (test (.implicit action [])).toNat := by
  rw [endAt, nodesWhere_congr (size_connect ..) (bare?_connect _ _ _), length_nodesWhere_addNode]
  rfl

end EndAt

variable {b : Builder} {label : String}

/-- The exceptional exit is the last node. -/
theorem exceptionalExit_finish : (b.finish label).exceptionalExit = b.nodes.size + 1 :=
  b.size_endAt .exit (b.tips ++ b.parkedUnder .returns)

/-- The exits let the drawing grow. -/
theorem grows_finish : Grows b (b.finish label).toBuilder :=
  ((b.grows_endAt _ _).trans (grows_endAt _ _ _)).trans (.of_eq rfl rfl)

theorem mem_edges_finish {edge : Edge} : edge ∈ (b.finish label).edges ↔ edge ∈ b.edges ∨
    (⟨edge.source, edge.kind⟩ ∈ b.tips ++ b.parkedUnder .returns ∧ edge.target = b.nodes.size) ∨
      (⟨edge.source, edge.kind⟩ ∈ b.parkedUnder .uncaught ∧ edge.target = b.nodes.size + 1) := by
  change edge ∈ b.ended.edges ↔ _
  rw [ended, endAt, mem_edges_connect, size_endAt, edges_addNode, endAt, mem_edges_connect,
    edges_addNode, or_assoc]

theorem bare?_finish (id : Nat) : (b.finish label).toBuilder.bare? id =
    if id = b.nodes.size + 1 then some (.implicit .exceptionalExit [])
    else if id = b.nodes.size then some (.implicit .exit []) else b.bare? id := by
  change b.ended.bare? id = _
  rw [ended, bare?_endAt, size_endAt, bare?_endAt]

/-- A test that the exits fail holds of the same nodes as before. -/
theorem nodesWhere_finish {test : Node → Bool}
    (fails : ∀ action, test (.implicit action []) = false) :
    (b.finish label).toBuilder.nodesWhere test = b.nodesWhere test := by
  apply nodesWhere_eq_of_length grows_finish
  change (b.ended.nodesWhere test).length = _
  rw [ended, length_nodesWhere_endAt, length_nodesWhere_endAt, fails, fails]
  rfl

end FragmentFlow.Graph.Builder
