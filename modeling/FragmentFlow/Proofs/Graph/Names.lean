import FragmentFlow.Proofs.Drawing.Fragments

/-!
# The names of a graph

Which names are in the sets of a graph, in terms of its nodes.
-/

namespace FragmentFlow

namespace NameSet

variable {set other : NameSet} {names : List String} {name : String}

theorem mem_insertAll : name ∈ (set.insertAll names).names ↔ name ∈ set.names ∨ name ∈ names := by
  unfold insertAll
  induction names generalizing set with
  | nil => simp
  | cons head tail ih =>
      rw [List.foldl_cons, ih, insert, mem_insertName, List.mem_cons, or_assoc, or_left_comm]

@[simp] theorem mem_ofList : name ∈ (NameSet.ofList names).names ↔ name ∈ names := by
  rw [ofList, mem_insertAll]
  simp [empty]

@[simp] theorem mem_diff :
    name ∈ (set.diff other).names ↔ name ∈ set.names ∧ name ∉ other.names := by
  simp [diff, filter, contains]

end NameSet

namespace Graph

variable {graph : Graph} {name : String}

theorem mem_names {nodes : Array Node} (part : Action → Option String) :
    name ∈ (NameSet.ofList (nodes.toList.filterMap fun node => part node.action)).names ↔
      ∃ (id : Nat) (node : Node), nodes[id]? = some node ∧ part node.action = some name := by
  rw [NameSet.mem_ofList, List.mem_filterMap]
  constructor
  · rintro ⟨node, member, isName⟩
    obtain ⟨id, found⟩ := Array.mem_iff_getElem?.1 (Array.mem_toList_iff.1 member)
    exact ⟨id, node, found, isName⟩
  · rintro ⟨id, node, found, isName⟩
    exact ⟨node, Array.mem_toList_iff.2 (Array.mem_of_getElem? found), isName⟩

theorem mem_variableNames {id : Nat} {node : Node} (found : graph.nodes[id]? = some node)
    (mentions : node.action.declared? = some name ∨ node.action.used? = some name) :
    name ∈ graph.variableNames.names := by
  refine (mem_names fun action => action.declared? <|> action.used?).2 ⟨id, node, found, ?_⟩
  rcases mentions with declares | uses
  · simp [declares]
  · cases action : node.action <;> simp_all [Action.used?, Action.declared?]

/-- The free names are the ones that are used and nowhere declared. -/
theorem mem_freeNames (well : graph.WellDrawn) : name ∈ graph.freeNames.names ↔
    (∃ (id : Nat) (node : Node), graph.nodes[id]? = some node ∧ node.action.used? = some name) ∧
      ¬ ∃ (id : Nat) (node : Node), graph.nodes[id]? = some node ∧
        node.action.declared? = some name := by
  rw [well.free, NameSet.mem_diff, usedNames, declaredNames, mem_names Action.used?,
    mem_names Action.declared?]

/-- Free names are variables. -/
theorem variableNames_of_freeNames (well : graph.WellDrawn) (free : name ∈ graph.freeNames.names) :
    name ∈ graph.variableNames.names := by
  obtain ⟨⟨id, node, found, uses⟩, -⟩ := (mem_freeNames well).1 free
  exact mem_variableNames found (Or.inr uses)

end Graph

end FragmentFlow
