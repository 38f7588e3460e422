import FragmentFlow.Graph.Order
import FragmentFlow.Proofs.Drawing.LoopFree
import FragmentFlow.Proofs.Graph.Paths
import Mathlib.Data.List.Nodup

/-!
# What reverse postorder orders

The walk finishes exactly the nodes that control can reach.  An edge leads on to a
later node unless its target lies on a path to its source that meets no node twice:
the visits under way are such a path, and a target is finished before its source unless
it is one of them.  The edges along a path are numbered in increasing order except
where one returns to a loop head, so that without loop heads no edge retreats.
-/

namespace FragmentFlow.Graph

/-- Some path from the entry meets no node twice and passes a node on the way to
another, or at its end. -/
def Retreats (graph : Graph) (source target : Nat) : Prop :=
  ∃ nodes, graph.Path Graph.entry nodes source ∧ (Graph.entry :: nodes).Nodup ∧
    target ∈ Graph.entry :: nodes

/-- One element of a list comes before another. -/
def Precedes (list : List Nat) (first second : Nat) : Prop :=
  ∃ before after, list = before ++ first :: after ∧ second ∈ after

theorem Precedes.cons {list : List Nat} {first second : Nat} (precedes : Precedes list first second)
    (head : Nat) : Precedes (head :: list) first second := by
  obtain ⟨before, after, rfl, member⟩ := precedes
  exact ⟨head :: before, after, rfl, member⟩

/-- What precedes in a list without repetition has a smaller index. -/
theorem Precedes.idxOf_lt {list : List Nat} {first second : Nat} (distinct : list.Nodup)
    (precedes : Precedes list first second) : list.idxOf first < list.idxOf second := by
  obtain ⟨before, after, rfl, member⟩ := precedes
  obtain ⟨-, tail, apart⟩ := List.nodup_append.1 distinct
  have notBefore : ∀ {node : Nat}, node ∈ first :: after → node ∉ before :=
    fun later earlier => apart _ earlier _ later rfl
  have different : first ≠ second := fun same => (List.nodup_cons.1 tail).1 (same ▸ member)
  rw [List.idxOf_append_of_notMem (notBefore List.mem_cons_self), List.idxOf_cons_self,
    List.idxOf_append_of_notMem (notBefore (List.mem_cons_of_mem _ member)),
    List.idxOf_cons_ne _ different]
  omega

/-- Nodes each of which is a target of the next one, down to the entry. -/
inductive Chain (graph : Graph) : List Nat → Prop
  | entry : Chain graph [Graph.entry]
  | step {node next : Nat} {outer : List Nat} :
      Chain graph (node :: outer) → next ∈ graph.targets node → Chain graph (next :: node :: outer)

/-- The nodes on the stack make up a path from the entry. -/
theorem Chain.path {graph : Graph} {node : Nat} {outer : List Nat}
    (chain : graph.Chain (node :: outer)) :
    ∃ nodes, graph.Path Graph.entry nodes node ∧
      Graph.entry :: nodes = (node :: outer).reverse := by
  generalize shape : node :: outer = stack at chain
  induction chain generalizing node outer with
  | entry =>
      cases shape
      exact ⟨[], .stay, rfl⟩
  | @step parent next rest chain target ih =>
      cases shape
      obtain ⟨nodes, path, same⟩ := ih rfl
      obtain ⟨edge, leaving, rfl⟩ := List.mem_map.1 target
      refine ⟨nodes ++ [edge.target], .step path leaving, ?_⟩
      rw [List.reverse_cons, ← same]
      rfl

/-- A walk under way. -/
structure Walking (graph : Graph) (stack : List Visit) (entered : Array Bool)
    (finished : List Nat) : Prop where
  size : entered.size = graph.size
  entered_iff : ∀ node, entered[node]? = some true ↔
    node ∈ stack.map Prod.fst ∨ node ∈ finished
  nodup : (stack.map Prod.fst ++ finished).Nodup
  chain : stack ≠ [] → graph.Chain (stack.map Prod.fst)
  listed : ∀ visit ∈ stack, ∀ target ∈ visit.2, target ∈ graph.targets visit.1
  pending : ∀ visit ∈ stack, ∀ target ∈ graph.targets visit.1,
    target ∈ visit.2 ∨ entered[target]? = some true
  placed : ∀ node ∈ finished, ∀ target ∈ graph.targets node, entered[target]? = some true ∧
    (Precedes finished node target ∨ graph.Retreats node target)
  reached : ∀ node ∈ finished, graph.Reaches node
  started : entered[Graph.entry]? = some true

namespace Walking

variable {graph : Graph} {stack outer : List Visit} {entered : Array Bool} {finished : List Nat}
  {node next : Nat} {later : List Nat}

/-- Finishing the innermost visit keeps the walk on its way. -/
theorem finish (walking : Walking graph ((node, []) :: outer) entered finished) :
    Walking graph outer entered (node :: finished) := by
  obtain ⟨nodes, path, same⟩ := (walking.chain (by simp)).path
  have distinct : (Graph.entry :: nodes).Nodup := by
    rw [same]
    exact List.nodup_reverse.2 (List.nodup_append.1 walking.nodup).1
  have known : ∀ target ∈ graph.targets node, entered[target]? = some true := fun target member =>
    (walking.pending (node, []) List.mem_cons_self target member).resolve_left List.not_mem_nil
  refine ⟨walking.size, fun other => ?_, ?_, fun left => ?_, fun visit member =>
    walking.listed visit (List.mem_cons_of_mem _ member), fun visit member =>
    walking.pending visit (List.mem_cons_of_mem _ member), fun other member target leads => ?_,
    fun other member => ?_, walking.started⟩
  · rw [walking.entered_iff, List.map_cons, List.mem_cons, List.mem_cons, or_assoc, or_left_comm]
  · exact List.nodup_middle.2 walking.nodup
  · have whole := walking.chain (by simp)
    cases outer with
    | nil => exact absurd rfl left
    | cons visit outer =>
        rw [List.map_cons, List.map_cons] at whole
        cases whole with
        | step chain _ => exact chain
  · rcases List.mem_cons.1 member with rfl | old
    · refine ⟨known target leads, ?_⟩
      rcases (walking.entered_iff target).1 (known target leads) with onStack | done
      · refine Or.inr ⟨nodes, path, distinct, ?_⟩
        rw [same, List.mem_reverse]
        exact onStack
      · exact Or.inl ⟨[], finished, rfl, done⟩
    · obtain ⟨isEntered, place⟩ := walking.placed other old target leads
      exact ⟨isEntered, place.imp_left fun precedes => precedes.cons node⟩
  · rcases List.mem_cons.1 member with rfl | old
    · exact ⟨nodes, path⟩
    · exact walking.reached other old

/-- The next target of a visit is one of its node. -/
theorem next_target (walking : Walking graph ((node, next :: later) :: outer) entered finished) :
    next ∈ graph.targets node :=
  walking.listed _ List.mem_cons_self next List.mem_cons_self

/-- The targets that are left are targets of their nodes. -/
theorem listed_later (walking : Walking graph ((node, next :: later) :: outer) entered finished) :
    ∀ visit ∈ (node, later) :: outer, ∀ target ∈ visit.2, target ∈ graph.targets visit.1 := by
  intro visit member target listed
  rcases List.mem_cons.1 member with rfl | below
  · exact walking.listed _ List.mem_cons_self target (List.mem_cons_of_mem _ listed)
  · exact walking.listed visit (List.mem_cons_of_mem _ below) target listed

theorem enter (walking : Walking graph ((node, next :: later) :: outer) entered finished)
    (fresh : entered[next]? = some false) :
    Walking graph ((next, graph.targets next) :: (node, later) :: outer)
      (entered.set next true (Array.getElem?_eq_some_iff.1 fresh).1) finished := by
  have lookup : ∀ other, (entered.set next true (Array.getElem?_eq_some_iff.1 fresh).1)[other]? =
      if next = other then some true else entered[other]? := by
    intro other
    rw [Array.getElem?_set]
  have kept : ∀ other : Nat, entered[other]? = some true →
      (entered.set next true (Array.getElem?_eq_some_iff.1 fresh).1)[other]? = some true := by
    intro other isEntered
    rw [lookup]
    split
    · rfl
    · exact isEntered
  have new : ¬ (next ∈ ((node, next :: later) :: outer).map Prod.fst ∨ next ∈ finished) := by
    rw [← walking.entered_iff, fresh]
    decide
  refine ⟨(Array.size_set ..).trans walking.size, fun other => ?_, ?_, fun _ => ?_,
    fun visit member other listed => ?_, fun visit member other leads => ?_,
    fun other member other' leads => ?_, walking.reached, kept _ walking.started⟩
  · rw [lookup]
    split
    · rename_i same
      exact ⟨fun _ => Or.inl (same ▸ List.mem_cons_self), fun _ => rfl⟩
    · rename_i different
      rw [walking.entered_iff]
      simp only [List.map_cons, List.mem_cons, or_iff_right (Ne.symm different)]
  · exact List.nodup_cons.2 ⟨fun member => new (List.mem_append.1 member), walking.nodup⟩
  · exact .step (walking.chain (by simp)) walking.next_target
  · rcases List.mem_cons.1 member with rfl | below
    · exact listed
    · exact walking.listed_later visit below other listed
  · rcases List.mem_cons.1 member with rfl | member
    · exact Or.inl leads
    · rcases List.mem_cons.1 member with rfl | below
      · rcases walking.pending _ List.mem_cons_self other leads with waits | isEntered
        · rcases List.mem_cons.1 waits with rfl | waits
          · exact Or.inr ((lookup other).trans (if_pos rfl))
          · exact Or.inl waits
        · exact Or.inr (kept _ isEntered)
      · exact (walking.pending visit (List.mem_cons_of_mem _ below) other leads).imp_right (kept _)
  · obtain ⟨isEntered, place⟩ := walking.placed other member other' leads
    exact ⟨kept _ isEntered, place⟩

/-- Passing a known node keeps the walk on its way. -/
theorem pass (well : graph.WellFormed)
    (walking : Walking graph ((node, next :: later) :: outer) entered finished)
    (known : ¬ entered[next]? = some false) :
    Walking graph ((node, later) :: outer) entered finished := by
  have isEntered : entered[next]? = some true := by
    obtain ⟨edge, leaving, rfl⟩ := List.mem_map.1 walking.next_target
    have bound : edge.target < entered.size :=
      walking.size ▸ (well.connected edge (well.mem_successors.1 leaving).1).2
    rw [Array.getElem?_eq_getElem bound] at known ⊢
    cases value : entered[edge.target] with
    | false => exact absurd (congrArg some value) known
    | true => rfl
  refine ⟨walking.size, walking.entered_iff, walking.nodup, fun _ => walking.chain (by simp),
    walking.listed_later, fun visit member other leads => ?_, walking.placed,
    walking.reached, walking.started⟩
  rcases List.mem_cons.1 member with rfl | below
  · rcases walking.pending _ List.mem_cons_self other leads with waits | done
    · rcases List.mem_cons.1 waits with rfl | waits
      · exact Or.inr isEntered
      · exact Or.inl waits
    · exact Or.inr done
  · exact walking.pending visit (List.mem_cons_of_mem _ below) other leads

/-- A walk that is over has finished exactly the nodes that control can reach. -/
theorem mem_iff_reaches (walking : Walking graph [] entered finished) :
    node ∈ finished ↔ graph.Reaches node := by
  have isFinished : ∀ {node : Nat}, entered[node]? = some true → node ∈ finished :=
    fun isEntered => ((walking.entered_iff _).1 isEntered).resolve_left List.not_mem_nil
  refine ⟨walking.reached node, ?_⟩
  rintro ⟨nodes, path⟩
  induction path with
  | stay => exact isFinished walking.started
  | step path leaving ih =>
      exact isFinished (walking.placed _ ih _ (List.mem_map.2 ⟨_, leaving, rfl⟩)).1

end Walking

/-- A walk on its way comes to an end with nothing on the stack. -/
theorem walking_walk {graph : Graph} (well : graph.WellFormed) {stack : List Visit}
    {entered : Array Bool} {finished : List Nat}
    (walking : Walking graph stack entered finished) :
    ∃ all, Walking graph [] all (graph.walk stack entered finished) := by
  induction stack, entered, finished using walk.induct graph with
  | case1 entered finished =>
      rw [walk]
      exact ⟨entered, walking⟩
  | case2 entered finished node outer ih =>
      rw [walk]
      exact ih walking.finish
  | case3 entered finished node next later outer fresh ih =>
      rw [walk, dif_pos fresh]
      exact ih (walking.enter fresh)
  | case4 entered finished node next later outer known ih =>
      rw [walk, dif_neg known]
      exact ih (walking.pass well known)

/-- The walk from the entry ends with nothing left to visit. -/
theorem walking_reversePostorder {graph : Graph} (well : graph.WellFormed) :
    ∃ all, Walking graph [] all graph.reversePostorder := by
  have lookup : ∀ node : Nat, ((Array.replicate graph.size false).setIfInBounds entry true)[node]? =
      some true ↔ node = entry := by
    intro node
    rw [Array.getElem?_setIfInBounds, Array.size_replicate, Array.getElem?_replicate]
    by_cases same : entry = node
    · rw [if_pos same, if_pos (same ▸ well.nonempty)]
      exact ⟨fun _ => same.symm, fun _ => rfl⟩
    · rw [if_neg same]
      refine iff_of_false (fun found => ?_) (Ne.symm same)
      split at found <;> cases found
  refine walking_walk well ⟨?_, fun node => ?_, List.nodup_singleton entry, fun _ => .entry,
    fun visit member target listed => ?_, fun visit member target leads => ?_, nofun, nofun,
    (lookup entry).2 rfl⟩
  · rw [Array.size_setIfInBounds, Array.size_replicate]
  · rw [lookup, List.map_singleton, List.mem_singleton]
    exact (or_iff_left List.not_mem_nil).symm
  · cases List.mem_singleton.1 member
    exact listed
  · cases List.mem_singleton.1 member
    exact Or.inl leads

/-- The order holds exactly the nodes that control can reach. -/
theorem mem_reversePostorder {graph : Graph} (well : graph.WellDrawn) {node : Nat} :
    node ∈ graph.reversePostorder ↔ graph.Reaches node := by
  obtain ⟨all, walking⟩ := walking_reversePostorder well.wellFormed
  exact walking.mem_iff_reaches

theorem nodup_reversePostorder {graph : Graph} (well : graph.WellDrawn) :
    graph.reversePostorder.Nodup := by
  obtain ⟨all, walking⟩ := walking_reversePostorder well.wellFormed
  exact walking.nodup

/-! ### Ranks -/

/-- The rank of a node is looked up in reverse postorder. -/
theorem getElem?_ranks {graph : Graph} {node : Nat} (bound : node < graph.size) :
    graph.ranks[node]? = some (graph.reversePostorder.idxOf? node) := by
  rw [ranks, Array.getElem?_ofFn, dif_pos bound]

/-- The place of a node in reverse postorder, after all others if control cannot
reach it. -/
def rank (graph : Graph) (node : Nat) : Nat :=
  graph.ranks[node]?.join.getD graph.ranks.size

theorem rank_eq {graph : Graph} (well : graph.WellDrawn) {node : Nat}
    (reaches : graph.Reaches node) : graph.rank node = graph.reversePostorder.idxOf node := by
  rw [rank, getElem?_ranks (reaches.lt_size well), List.idxOf_eq_getD_idxOf?]
  cases place : graph.reversePostorder.idxOf? node with
  | none => exact absurd ((mem_reversePostorder well).2 reaches) (List.idxOf?_eq_none_iff.1 place)
  | some index => rfl

/-- An edge leads to a later node or retreats. -/
theorem rank_lt_or_retreats {graph : Graph} (well : graph.WellDrawn) {edge : Edge}
    (drawn : edge ∈ graph.edges) (reaches : graph.Reaches edge.source) :
    graph.rank edge.source < graph.rank edge.target ∨ graph.Retreats edge.source edge.target := by
  obtain ⟨all, walking⟩ := walking_reversePostorder well.wellFormed
  have leaving := well.mem_successors.2 ⟨drawn, rfl⟩
  refine (walking.placed _ ((mem_reversePostorder well).2 reaches) _
    (List.mem_map.2 ⟨edge, leaving, rfl⟩)).2.imp_left fun precedes => ?_
  rw [rank_eq well reaches, rank_eq well (reaches.step leaving)]
  exact precedes.idxOf_lt (nodup_reversePostorder well)

/-- Nodes that control can reach have different ranks. -/
theorem eq_of_rank_eq {graph : Graph} (well : graph.WellDrawn) {node other : Nat}
    (reaches : graph.Reaches node) (others : graph.Reaches other)
    (same : graph.rank node = graph.rank other) : node = other := by
  rw [rank_eq well reaches, rank_eq well others] at same
  exact (List.idxOf_inj ((mem_reversePostorder well).2 reaches)).1 same

/-! ### Edges that return to loop heads -/

/-- Before an edge that leaves the end of a path an edge leaves its start, unless the path
takes an edge that returns to a loop head. -/
theorem Path.numbered {graph : Graph} (well : graph.WellDrawn) {start last : Nat}
    {nodes : List Nat} (path : graph.Path start nodes last) {number : Nat} {next : Edge}
    (found : graph.edges[number]? = some next) (leaves : next.source = last) :
    (∃ (first : Nat) (edge : Edge), first ≤ number ∧ graph.edges[first]? = some edge ∧
        edge.source = start) ∨
      ∃ edge ∈ graph.edges, graph.toBuilder.Returns edge ∧ ∃ before after,
        nodes = before ++ edge.target :: after ∧ graph.Path start before edge.source := by
  induction path generalizing number next with
  | stay => exact Or.inl ⟨number, next, Nat.le_refl _, found, leaves⟩
  | @step nodes previous edge path leaving ih =>
      obtain ⟨drawn, rfl⟩ := well.mem_successors.1 leaving
      obtain ⟨before, atBefore⟩ := Array.mem_iff_getElem?.1 drawn
      rcases well.drawn.forward before number edge next atBefore found leaves.symm with
        earlier | returns
      · rcases ih atBefore rfl with ⟨first, other, ordered, atFirst, source⟩ |
          ⟨other, isDrawn, returns, front, behind, rfl, toOther⟩
        · exact Or.inl ⟨first, other, by omega, atFirst, source⟩
        · exact Or.inr ⟨other, isDrawn, returns, front, behind ++ [edge.target],
            List.append_assoc .., toOther⟩
      · exact Or.inr ⟨edge, drawn, returns, nodes, [], rfl, path⟩

/-- An edge that closes a cycle returns to a loop head, or the cycle takes another edge
that does. -/
theorem Path.exists_returns {graph : Graph} (well : graph.WellDrawn) {edge : Edge}
    (drawn : edge ∈ graph.edges) {nodes : List Nat}
    (path : graph.Path edge.target nodes edge.source) : graph.toBuilder.Returns edge ∨
      ∃ other ∈ graph.edges, graph.toBuilder.Returns other ∧ ∃ before after,
        nodes = before ++ other.target :: after ∧ graph.Path edge.target before other.source := by
  obtain ⟨number, found⟩ := Array.mem_iff_getElem?.1 drawn
  refine (path.numbered well found rfl).imp_left ?_
  rintro ⟨first, next, ordered, atFirst, source⟩
  have turning := well.drawn.forward number first edge next found atFirst source.symm
  exact turning.resolve_left (Nat.not_lt.2 ordered)

/-- Without loop heads every edge leads to a later node. -/
theorem LoopFree.rank_lt {graph : Graph} (loopFree : graph.LoopFree) (well : graph.WellDrawn)
    {edge : Edge} (drawn : edge ∈ graph.edges) (reaches : graph.Reaches edge.source) :
    graph.rank edge.source < graph.rank edge.target := by
  refine (rank_lt_or_retreats well drawn reaches).resolve_right ?_
  rintro ⟨nodes, path, -, member⟩
  obtain ⟨-, rest, -, -, back⟩ := path.split member
  rcases back.exists_returns well drawn with returns | ⟨other, -, returns, -⟩
  · exact loopFree _ returns.loops
  · exact loopFree _ returns.loops

end FragmentFlow.Graph
