import FragmentFlow.Analysis.Solver
import FragmentFlow.Proofs.Graph.Order

/-!
# The search for a solution

What one step of the search does, and what every search keeps: the nodes with facts
can be reached, what is behind a node with facts has facts or waits, and, if equal stores
are the same, the input of a node is up to date unless the node waits.  When nothing
waits, the facts satisfy the equations of the analysis.
-/

namespace FragmentFlow

/-- The value recorded at a node. -/
def Solution.recorded {Value Store : Type} (solution : Solution Value Store) (node : Nat) :
    Option Value :=
  (solution.facts? node).bind Analysis.Facts.value

namespace Analysis

variable {Value Store : Type}

/-! ### Worklists -/

theorem mem_enqueue {ranks : Array (Option Nat)} {node other : Nat} {worklist : List Nat} :
    other ∈ enqueue ranks node worklist ↔ other = node ∨ other ∈ worklist := by
  induction worklist with
  | nil => simp [enqueue]
  | cons first rest ih =>
      simp only [enqueue]
      split
      · rw [List.mem_cons]
      · split
        · rename_i same
          subst same
          rw [List.mem_cons]
          exact ⟨Or.inr, fun member => member.elim Or.inl id⟩
        · rw [List.mem_cons, ih, List.mem_cons, or_left_comm]

theorem mem_enqueueAll {ranks : Array (Option Nat)} {nodes worklist : List Nat} {other : Nat} :
    other ∈ enqueueAll ranks nodes worklist ↔ other ∈ nodes ∨ other ∈ worklist := by
  induction nodes generalizing worklist with
  | nil => simp [enqueueAll]
  | cons node nodes ih =>
      have unfolded : enqueueAll ranks (node :: nodes) worklist =
          enqueueAll ranks nodes (enqueue ranks node worklist) := rfl
      rw [unfolded, ih, mem_enqueue, List.mem_cons, or_assoc, or_left_comm]

theorem length_enqueue_le (ranks : Array (Option Nat)) (node : Nat) (worklist : List Nat) :
    (enqueue ranks node worklist).length ≤ worklist.length + 1 := by
  induction worklist with
  | nil => exact Nat.le_refl 1
  | cons first rest ih =>
      rw [enqueue]
      split
      · exact Nat.le_refl _
      · split
        · exact Nat.le_succ _
        · exact Nat.succ_le_succ ih

theorem length_enqueueAll_le (ranks : Array (Option Nat)) (nodes worklist : List Nat) :
    (enqueueAll ranks nodes worklist).length ≤ worklist.length + nodes.length := by
  induction nodes generalizing worklist with
  | nil => exact Nat.le_refl _
  | cons node nodes ih =>
      have one := length_enqueue_le ranks node worklist
      have others := ih (enqueue ranks node worklist)
      rw [List.length_cons]
      change (enqueueAll ranks nodes (enqueue ranks node worklist)).length ≤ _
      omega

theorem comesBefore_iff {graph : Graph} (well : graph.WellDrawn) {node other : Nat}
    (reaches : graph.Reaches node) (others : graph.Reaches other) :
    comesBefore graph.ranks node other = true ↔ graph.rank node < graph.rank other := by
  have unfolded : comesBefore graph.ranks node other =
      (decide (graph.rank node < graph.rank other) ||
        (graph.rank node == graph.rank other && decide (node < other))) := rfl
  rw [unfolded, Bool.or_eq_true, Bool.and_eq_true, decide_eq_true_iff, decide_eq_true_iff,
    beq_iff_eq]
  refine or_iff_left fun ⟨same, less⟩ => ?_
  exact Nat.ne_of_lt less (Graph.eq_of_rank_eq well reaches others same)

/-- The nodes on a worklist can be reached and stand in their order. -/
structure Sorted (graph : Graph) (worklist : List Nat) : Prop where
  reached : ∀ node ∈ worklist, graph.Reaches node
  increasing : worklist.Pairwise fun node other => graph.rank node < graph.rank other

namespace Sorted

variable {graph : Graph} {node first : Nat} {nodes rest worklist : List Nat}

theorem nil : Sorted graph [] :=
  ⟨nofun, List.Pairwise.nil⟩

theorem tail (sorted : Sorted graph (first :: rest)) : Sorted graph rest :=
  ⟨fun node member => sorted.reached node (List.mem_cons_of_mem _ member),
    (List.pairwise_cons.1 sorted.increasing).2⟩

/-- The first node of a sorted worklist has the smallest rank. -/
theorem first_lt (sorted : Sorted graph (first :: rest)) {other : Nat} (later : other ∈ rest) :
    graph.rank first < graph.rank other :=
  (List.pairwise_cons.1 sorted.increasing).1 other later

/-- The first node comes before all others. -/
theorem least (sorted : Sorted graph (first :: rest)) {other : Nat}
    (member : other ∈ first :: rest) : graph.rank first ≤ graph.rank other := by
  rcases List.mem_cons.1 member with rfl | later
  · exact Nat.le_refl _
  · exact Nat.le_of_lt (sorted.first_lt later)

/-- A sorted worklist stays sorted when a node is sent to it. -/
theorem enqueue (well : graph.WellDrawn) (sorted : Sorted graph worklist)
    (reaches : graph.Reaches node) : Sorted graph (enqueue graph.ranks node worklist) := by
  refine ⟨fun other member => ?_, ?_⟩
  · rcases mem_enqueue.1 member with rfl | old
    · exact reaches
    · exact sorted.reached other old
  · induction worklist with
    | nil => exact List.pairwise_singleton _ node
    | cons first rest ih =>
        have other := sorted.reached first List.mem_cons_self
        have before := comesBefore_iff well reaches other
        rw [Analysis.enqueue]
        split
        · rename_i isBefore
          have less := before.1 isBefore
          exact List.pairwise_cons.2 ⟨fun later member =>
            Nat.lt_of_lt_of_le less (sorted.least member), sorted.increasing⟩
        · rename_i notBefore
          split
          · exact sorted.increasing
          · rename_i different
            have less : graph.rank first < graph.rank node := by
              have notLess := mt before.2 notBefore
              have apart := mt (Graph.eq_of_rank_eq well reaches other) different
              omega
            refine List.pairwise_cons.2 ⟨fun later member => ?_, ih sorted.tail⟩
            rcases mem_enqueue.1 member with rfl | old
            · exact less
            · exact sorted.first_lt old

/-- A sorted worklist stays sorted when nodes are sent to it. -/
theorem enqueueAll (well : graph.WellDrawn) (sorted : Sorted graph worklist)
    (reaches : ∀ node ∈ nodes, graph.Reaches node) :
    Sorted graph (enqueueAll graph.ranks nodes worklist) := by
  induction nodes generalizing worklist with
  | nil => exact sorted
  | cons node nodes ih =>
      exact ih (sorted.enqueue well (reaches node List.mem_cons_self)) fun later member =>
        reaches later (List.mem_cons_of_mem _ member)

end Sorted

/-- The nodes behind a node that control can reach can be reached. -/
theorem reaches_targets {graph : Graph} {node : Nat} (reaches : graph.Reaches node) :
    ∀ other ∈ graph.targets node, graph.Reaches other := by
  intro other behind
  obtain ⟨edge, leaving, rfl⟩ := List.mem_map.1 behind
  exact reaches.step leaving

/-! ### Inputs -/

/-- The input of a node depends only on its predecessors. -/
theorem inputAt_congr {analysis : Analysis Value Store} {graph : Graph}
    {solution other : Solution Value Store} {node : Nat}
    (same : ∀ edge ∈ graph.predecessors node,
      solution.facts? edge.source = other.facts? edge.source) :
    analysis.inputAt graph solution node = analysis.inputAt graph other node := by
  have arriving : (graph.predecessors node).filterMap (analysis.arriving graph solution) =
      (graph.predecessors node).filterMap (analysis.arriving graph other) := by
    generalize graph.predecessors node = edges at same
    induction edges with
    | nil => rfl
    | cons edge edges ih =>
        have head : analysis.arriving graph solution edge = analysis.arriving graph other edge := by
          rw [Analysis.arriving, same edge List.mem_cons_self, Analysis.arriving]
        rw [List.filterMap_cons, List.filterMap_cons, head,
          ih fun later member => same later (List.mem_cons_of_mem _ member)]
  rw [inputAt, arriving, inputAt]

/-- A node has an input as soon as one of its predecessors has facts. -/
theorem exists_inputAt {analysis : Analysis Value Store} {graph : Graph}
    {solution : Solution Value Store} {node : Nat} {edge : Graph.Edge}
    (member : edge ∈ graph.predecessors node) (reached : (solution.facts? edge.source).isSome) :
    ∃ input, analysis.inputAt graph solution node = some input := by
  obtain ⟨facts, found⟩ := Option.isSome_iff_exists.1 reached
  have arrives : analysis.onEdge graph edge
      (if edge.kind = .exception then facts.input else facts.output) ∈
        (graph.predecessors node).filterMap (analysis.arriving graph solution) :=
    List.mem_filterMap.2 ⟨edge, member, by rw [arriving, found]; rfl⟩
  rw [inputAt]
  cases shape : (graph.predecessors node).filterMap (analysis.arriving graph solution) with
  | nil =>
      rw [shape] at arrives
      cases arrives
  | cons first rest => exact ⟨_, rfl⟩

/-- What holds of all stores that arrive and is kept by joins holds of an input. -/
theorem inputAt_keeps {analysis : Analysis Value Store} {graph : Graph}
    {solution : Solution Value Store} {node : Nat} {input : Store} {property : Store → Prop}
    (joins : ∀ a b, property a → property b → property (analysis.join a b))
    (arrive : ∀ edge ∈ graph.predecessors node, ∀ store,
      analysis.arriving graph solution edge = some store → property store)
    (found : analysis.inputAt graph solution node = some input) : property input := by
  have all : ∀ store ∈ (graph.predecessors node).filterMap (analysis.arriving graph solution),
      property store := by
    intro store member
    obtain ⟨edge, entering, arrives⟩ := List.mem_filterMap.1 member
    exact arrive edge entering store arrives
  rw [inputAt] at found
  generalize (graph.predecessors node).filterMap _ = stores at found all
  cases stores with
  | nil => cases found
  | cons first rest =>
      cases found
      exact List.foldlRecOn rest analysis.join (all first List.mem_cons_self)
        fun joined holds store member =>
          joins joined store holds (all store (List.mem_cons_of_mem _ member))

/-! ### Steps -/

section Steps

variable [BEq Value] [BEq Store]

/-- What one step of a search can do. -/
inductive Stepped (analysis : Analysis Value Store) (graph : Graph)
    (search : Search Value Store) : Search Value Store → Prop
  /-- A node is taken off the worklist to which nothing has come. -/
  | skipped {node : Nat} {rest : List Nat} :
      search.worklist = node :: rest → analysis.inputAt graph search.toSolution node = none →
        Stepped analysis graph search
          { search with worklist := rest, visits := search.visits + 1 }
  /-- A node is evaluated and its facts are no others than before. -/
  | confirmed {node : Nat} {rest : List Nat} {input output : Store} {value : Option Value}
      {old : Facts Value Store} :
      search.worklist = node :: rest →
        analysis.inputAt graph search.toSolution node = some input →
        analysis.transfer graph node input search.valueOf = (value, output) →
        search.facts? node = some old → old.differ { value, input, output } = false →
        Stepped analysis graph search
          { search with
            worklist := rest
            visits := search.visits + 1
            nodeVisits := search.nodeVisits.modify node (· + 1) }
  /-- A node is evaluated and its successors have to wait. -/
  | revised {node : Nat} {rest : List Nat} {input output : Store} {value : Option Value} :
      search.worklist = node :: rest →
        analysis.inputAt graph search.toSolution node = some input →
        analysis.transfer graph node input search.valueOf = (value, output) →
        (∀ old, search.facts? node = some old → old.differ { value, input, output } = true) →
        Stepped analysis graph search
          { search with
            worklist := enqueueAll graph.ranks (graph.targets node) rest
            visits := search.visits + 1
            nodeVisits := search.nodeVisits.modify node (· + 1)
            facts := search.facts.setIfInBounds node (some { value, input, output }) }

end Steps

/-! ### What every search keeps -/

theorem Facts.differ_eq_false [BEq Value] [BEq Store] {facts other : Facts Value Store} :
    facts.differ other = false ↔ (facts.value == other.value) = true ∧
      (facts.output == other.output) = true ∧ (facts.input == other.input) = true := by
  simp only [differ, bne, Bool.or_eq_false_iff, Bool.not_eq_false', and_assoc]

/-- Facts do not differ from themselves. -/
theorem Facts.differ_self [BEq Value] [BEq Store] [ReflBEq Value] [ReflBEq Store]
    (facts : Facts Value Store) : facts.differ facts = false :=
  differ_eq_false.2 ⟨BEq.rfl, BEq.rfl, BEq.rfl⟩

/-- Facts that do not differ have the same stores. -/
theorem Facts.stores_eq [BEq Value] [BEq Store] [LawfulBEq Store] {facts other : Facts Value Store}
    (same : facts.differ other = false) :
    facts.input = other.input ∧ facts.output = other.output := by
  obtain ⟨-, output, input⟩ := differ_eq_false.1 same
  exact ⟨eq_of_beq input, eq_of_beq output⟩

/-- Facts that do not differ are the same. -/
theorem Facts.eq_of_not_differ [BEq Value] [BEq Store] [LawfulBEq Value] [LawfulBEq Store]
    {facts other : Facts Value Store} (same : facts.differ other = false) : facts = other := by
  obtain ⟨value, output, input⟩ := differ_eq_false.1 same
  obtain ⟨_, _, _⟩ := facts
  obtain ⟨_, _, _⟩ := other
  cases eq_of_beq value
  cases eq_of_beq output
  cases eq_of_beq input
  rfl

/-- Recording facts changes those of one node. -/
theorem facts?_set {search : Search Value Store} {node : Nat} {facts : Facts Value Store}
    (bound : node < search.facts.size) (worklist : List Nat) (visits : Nat)
    (nodeVisits : Array UInt32) (other : Nat) :
    { search with
      worklist, visits, nodeVisits
      facts := search.facts.setIfInBounds node (some facts) }.facts? other =
      if other = node then some facts else search.facts? other := by
  rw [Solution.facts?, Array.getElem?_setIfInBounds]
  by_cases same : node = other
  · rw [if_pos same, if_pos (same ▸ bound), if_pos same.symm]
    rfl
  · rw [if_neg same, if_neg (Ne.symm same)]
    rfl

/-- Only the entry has facts at the start. -/
theorem facts?_start {graph : Graph} (well : graph.WellDrawn) (initial : Store) (node : Nat) :
    (start graph graph.ranks initial : Search Value Store).facts? node =
      if node = Graph.entry then some { value := none, input := initial, output := initial }
      else none := by
  rw [Solution.facts?, start, Array.getElem?_setIfInBounds, Array.size_replicate]
  by_cases same : Graph.entry = node
  · rw [if_pos same, if_pos (same ▸ well.size_pos), if_pos same.symm]
    rfl
  · rw [if_neg same, if_neg (Ne.symm same), Array.getElem?_replicate]
    split <;> rfl

/-- No node has been visited at the start. -/
theorem visitsOf_start (graph : Graph) (initial : Store) (node : Nat) :
    (start graph graph.ranks initial : Search Value Store).visitsOf node = 0 := by
  rw [Solution.visitsOf, start, Array.getElem?_replicate]
  split <;> rfl

/-- The nodes with facts can be reached, and what is behind them has facts or waits. -/
structure Consistent (analysis : Analysis Value Store) (graph : Graph) (initial : Store)
    (search : Search Value Store) : Prop where
  size : search.facts.size = graph.size
  visitsSize : search.nodeVisits.size = graph.size
  entry : search.facts? Graph.entry = some { value := none, input := initial, output := initial }
  traced : ∀ node, (search.facts? node).isSome →
    ∃ nodes, graph.Path Graph.entry nodes node ∧
      ∀ other ∈ Graph.entry :: nodes, (search.facts? other).isSome
  waiting : ∀ node ∈ search.worklist, node ≠ Graph.entry ∧
    ∃ edge ∈ graph.predecessors node, (search.facts? edge.source).isSome
  closed : ∀ edge ∈ graph.edges, (search.facts? edge.source).isSome →
    (search.facts? edge.target).isSome ∨ edge.target ∈ search.worklist
  sorted : Sorted graph search.worklist

namespace Consistent

variable {analysis : Analysis Value Store} {graph : Graph} {initial : Store}
  {search next : Search Value Store}

/-- Nodes with facts can be reached. -/
theorem reached (consistent : Consistent analysis graph initial search) (node : Nat)
    (has : (search.facts? node).isSome) : graph.Reaches node := by
  obtain ⟨nodes, path, -⟩ := consistent.traced node has
  exact ⟨nodes, path⟩

/-- A search is consistent when it starts. -/
theorem start (well : graph.WellDrawn) (initial : Store) :
    Consistent analysis graph initial (start graph graph.ranks initial) := by
  have isEntry : ∀ node,
      ((Analysis.start graph graph.ranks initial : Search Value Store).facts? node).isSome →
        node = Graph.entry := by
    intro node reached
    rw [facts?_start well] at reached
    split at reached
    · assumption
    · cases reached
  refine ⟨?_, Array.size_replicate, ?_, ?_, ?_, ?_,
    Sorted.nil.enqueueAll well (reaches_targets (.entry graph))⟩
  · rw [Analysis.start, Array.size_setIfInBounds, Array.size_replicate]
  · rw [facts?_start well, if_pos rfl]
  · intro node reached
    cases isEntry node reached
    refine ⟨[], .stay, fun other member => ?_⟩
    cases List.mem_singleton.1 member
    exact reached
  · intro node member
    rcases mem_enqueueAll.1 member with target | absent
    · obtain ⟨edge, leaves, rfl⟩ := List.mem_map.1 target
      obtain ⟨drawn, source⟩ := well.mem_successors.1 leaves
      refine ⟨well.target_ne_entry drawn, edge, well.mem_predecessors.2 ⟨drawn, rfl⟩, ?_⟩
      rw [facts?_start well, if_pos source]
      rfl
    · cases absent
  · intro edge drawn reached
    have source := isEntry _ reached
    exact Or.inr (mem_enqueueAll.2 (Or.inl (List.mem_map.2
      ⟨edge, well.mem_successors.2 ⟨drawn, source⟩, rfl⟩)))

/-- A node that waits has an input and lies in the graph. -/
theorem exists_input (well : graph.WellDrawn)
    (consistent : Consistent analysis graph initial search)
    {node : Nat} (member : node ∈ search.worklist) :
    node ≠ Graph.entry ∧ node < graph.size ∧ graph.Reaches node ∧
      ∃ input, analysis.inputAt graph search.toSolution node = some input := by
  obtain ⟨different, edge, entering, reached⟩ := consistent.waiting node member
  obtain ⟨drawn, rfl⟩ := well.mem_predecessors.1 entering
  have leaving := well.mem_successors.2 ⟨drawn, rfl⟩
  exact ⟨different, well.target_lt drawn, (consistent.reached _ reached).step leaving,
    exists_inputAt entering reached⟩

end Consistent

variable [BEq Value] [BEq Store]

/-- A node is taken off the worklist and has facts then, new ones or those that it had; if
they are new, its successors wait. -/
structure Updated (analysis : Analysis Value Store) (graph : Graph)
    (search next : Search Value Store) (node : Nat) (facts : Facts Value Store) : Prop where
  evaluated : ∃ computed : Facts Value Store,
    analysis.inputAt graph search.toSolution node = some computed.input ∧
      analysis.transfer graph node computed.input search.valueOf =
        (computed.value, computed.output) ∧
      (facts = computed ∨ search.facts? node = some facts ∧ facts.differ computed = false)
  first : search.worklist.head? = some node
  least : ∀ other ∈ search.worklist, graph.rank node ≤ graph.rank other
  lookup : ∀ other, next.facts? other = if other = node then some facts else search.facts? other
  still : ∀ other ∈ search.worklist, other = node ∨ other ∈ next.worklist
  fresh : ∀ other ∈ next.worklist, other ∈ graph.targets node ∨
    (other ∈ search.worklist ∧ graph.rank node < graph.rank other)
  notified : search.facts? node = some facts ∨
    ∀ other ∈ graph.targets node, other ∈ next.worklist
  queued : search.facts? node = some facts ∧
      next.worklist.length < search.worklist.length ∨
    (∀ old, search.facts? node = some old → old.differ facts = true) ∧
      next.worklist.length < search.worklist.length + (graph.targets node).length
  size : next.facts.size = search.facts.size
  visits : next.visits = search.visits + 1
  nodeVisits : next.nodeVisits = search.nodeVisits.modify node (· + 1)
  sorted : Sorted graph next.worklist

namespace Updated

variable {analysis : Analysis Value Store} {graph : Graph} {search next : Search Value Store}
  {node : Nat} {facts : Facts Value Store}

/-- The evaluated node was waiting. -/
theorem waiting (updated : Updated analysis graph search next node facts) :
    node ∈ search.worklist :=
  List.mem_of_head? updated.first

theorem self (updated : Updated analysis graph search next node facts) :
    next.facts? node = some facts := by
  rw [updated.lookup, if_pos rfl]

/-- Other nodes keep their facts. -/
theorem other (updated : Updated analysis graph search next node facts) {other : Nat}
    (different : other ≠ node) : next.facts? other = search.facts? other := by
  rw [updated.lookup, if_neg different]

/-- Other nodes keep their values. -/
theorem valueOf (updated : Updated analysis graph search next node facts) {other : Nat}
    (different : other ≠ node) : next.valueOf other = search.valueOf other := by
  rw [Search.valueOf, updated.other different]
  rfl

/-- An evaluation is one more visit of its node. -/
theorem visitsOf (updated : Updated analysis graph search next node facts)
    (bound : node < search.nodeVisits.size) (other : Nat) :
    next.visitsOf other = search.visitsOf other + if other = node then 1 else 0 := by
  rw [Solution.visitsOf, updated.nodeVisits, Array.getElem?_modify]
  by_cases same : node = other
  · subst same
    rw [if_pos rfl, if_pos rfl, Array.getElem?_eq_getElem bound, Solution.visitsOf,
      Array.getElem?_eq_getElem bound]
    rfl
  · rw [if_neg same, if_neg (Ne.symm same), UInt32.add_zero]
    rfl

/-- Nodes keep having facts. -/
theorem grows (updated : Updated analysis graph search next node facts) {other : Nat}
    (reached : (search.facts? other).isSome) : (next.facts? other).isSome := by
  by_cases same : other = node
  · rw [same, updated.self]
    rfl
  · rw [updated.other same]
    exact reached

/-- Only the node that is evaluated can get its first facts. -/
theorem of_reached (updated : Updated analysis graph search next node facts) {other : Nat}
    (reached : (next.facts? other).isSome) : other = node ∨ (search.facts? other).isSome := by
  by_cases same : other = node
  · exact Or.inl same
  · rw [updated.other same] at reached
    exact Or.inr reached

/-- The predecessors of a node that does not wait have kept their facts. -/
theorem sources (updated : Updated analysis graph search next node facts)
    (well : graph.WellDrawn) (other : Nat) :
    other ∈ next.worklist ∨ ∀ edge ∈ graph.predecessors other,
      next.facts? edge.source = search.facts? edge.source := by
  rcases updated.notified with same | notified
  · refine Or.inr fun edge _ => ?_
    by_cases isNode : edge.source = node
    · rw [isNode, updated.self, same]
    · exact updated.other isNode
  · by_cases behind : other ∈ graph.targets node
    · exact Or.inl (notified other behind)
    · refine Or.inr fun edge entering => updated.other fun isNode => behind ?_
      obtain ⟨drawn, rfl⟩ := well.mem_predecessors.1 entering
      exact List.mem_map.2 ⟨edge, well.mem_successors.2 ⟨drawn, isNode⟩, rfl⟩

/-- A node without facts gets what is computed. -/
theorem transfer_of_fresh (updated : Updated analysis graph search next node facts)
    (fresh : search.facts? node = none) :
    analysis.transfer graph node facts.input search.valueOf = (facts.value, facts.output) := by
  obtain ⟨computed, -, transfer, rfl | ⟨old, -⟩⟩ := updated.evaluated
  · exact transfer
  · cases fresh.symm.trans old

/-- The facts of a node come from its input. -/
theorem input [LawfulBEq Store] (updated : Updated analysis graph search next node facts) :
    analysis.inputAt graph search.toSolution node = some facts.input := by
  obtain ⟨computed, input, -, rfl | ⟨-, same⟩⟩ := updated.evaluated
  · exact input
  · rw [input, (Facts.stores_eq same).1]

/-- The facts of a node are what is computed. -/
theorem transfer [LawfulBEq Value] [LawfulBEq Store]
    (updated : Updated analysis graph search next node facts) :
    analysis.transfer graph node facts.input search.valueOf = (facts.value, facts.output) := by
  obtain ⟨computed, -, transfer, rfl | ⟨-, same⟩⟩ := updated.evaluated
  · exact transfer
  · rw [Facts.eq_of_not_differ same]
    exact transfer

/-- An input changes only behind a node with new facts. -/
theorem inputAt (updated : Updated analysis graph search next node facts)
    (well : graph.WellDrawn) (other : Nat) :
    other ∈ next.worklist ∨ analysis.inputAt graph next.toSolution other =
      analysis.inputAt graph search.toSolution other :=
  (updated.sources well other).imp_right inputAt_congr

end Updated

namespace Consistent

variable {analysis : Analysis Value Store} {graph : Graph} {initial : Store}
  {search next : Search Value Store}

/-- Every step of a consistent search evaluates a node. -/
theorem exists_updated (well : graph.WellDrawn)
    (consistent : Consistent analysis graph initial search)
    (stepped : Stepped analysis graph search next) :
    ∃ node facts, Updated analysis graph search next node facts := by
  cases stepped with
  | skipped waiting absent =>
      obtain ⟨-, -, -, input, present⟩ :=
        consistent.exists_input well (waiting ▸ List.mem_cons_self)
      cases absent.symm.trans present
  | @confirmed node rest input output value old waiting present transfer had same =>
      have sorted := waiting ▸ consistent.sorted
      refine ⟨node, old, ⟨_, present, transfer, Or.inr ⟨had, same⟩⟩, waiting ▸ rfl,
        fun other waits => sorted.least (waiting ▸ waits), fun other => ?_, fun other waits => ?_,
        fun other later => Or.inr ⟨waiting ▸ List.mem_cons_of_mem _ later, sorted.first_lt later⟩,
        Or.inl had, Or.inl ⟨had, ?_⟩, rfl, rfl, rfl, sorted.tail⟩
      · split
        · rename_i isNode
          exact isNode ▸ had
        · rfl
      · exact List.mem_cons.1 (waiting ▸ waits)
      · rw [waiting]
        exact Nat.lt_succ_self _
  | @revised node rest input output value waiting present transfer changed =>
      have sorted := waiting ▸ consistent.sorted
      obtain ⟨-, bound, reaches, -⟩ := consistent.exists_input well (waiting ▸ List.mem_cons_self)
      refine ⟨node, _, ⟨_, present, transfer, Or.inl rfl⟩, waiting ▸ rfl,
        fun other waits => sorted.least (waiting ▸ waits),
        facts?_set (consistent.size ▸ bound) _ _ _, fun other waits => ?_, fun other waits => ?_,
        Or.inr fun _ behind => mem_enqueueAll.2 (Or.inl behind), Or.inr ⟨changed, ?_⟩,
        Array.size_setIfInBounds .., rfl, rfl,
        sorted.tail.enqueueAll well (reaches_targets reaches)⟩
      · exact (List.mem_cons.1 (waiting ▸ waits)).imp_right fun later =>
          mem_enqueueAll.2 (Or.inr later)
      · exact (mem_enqueueAll.1 waits).imp_right fun later =>
          ⟨waiting ▸ List.mem_cons_of_mem _ later, sorted.first_lt later⟩
      · have queued := length_enqueueAll_le graph.ranks (graph.targets node) rest
        rw [waiting, List.length_cons]
        dsimp only
        omega

/-- An evaluation keeps a search consistent. -/
theorem update (well : graph.WellDrawn) (consistent : Consistent analysis graph initial search)
    {node : Nat} {facts : Facts Value Store}
    (updated : Updated analysis graph search next node facts) :
    Consistent analysis graph initial next := by
  obtain ⟨notEntry, bound, -⟩ := consistent.exists_input well updated.waiting
  have self : (next.facts? node).isSome := by rw [updated.self]; rfl
  have traced : ∀ other, (search.facts? other).isSome →
      ∃ nodes, graph.Path Graph.entry nodes other ∧
        ∀ other ∈ Graph.entry :: nodes, (next.facts? other).isSome := by
    intro other old
    obtain ⟨nodes, path, has⟩ := consistent.traced other old
    exact ⟨nodes, path, fun other member => updated.grows (has other member)⟩
  refine ⟨updated.size.trans consistent.size, ?_, ?_, fun other reached => ?_,
    fun other waits => ?_, fun edge drawn reached => ?_, updated.sorted⟩
  · rw [updated.nodeVisits, Array.size_modify, consistent.visitsSize]
  · rw [updated.other (Ne.symm notEntry), consistent.entry]
  · rcases updated.of_reached reached with rfl | old
    · obtain ⟨-, edge, entering, has⟩ := consistent.waiting other updated.waiting
      obtain ⟨drawn, rfl⟩ := well.mem_predecessors.1 entering
      obtain ⟨nodes, path, through⟩ := traced edge.source has
      refine ⟨_, .step path (well.mem_successors.2 ⟨drawn, rfl⟩), fun other member => ?_⟩
      rw [← List.cons_append] at member
      rcases List.mem_append.1 member with earlier | here
      · exact through other earlier
      · cases List.mem_singleton.1 here
        exact self
    · exact traced other old
  · rcases updated.fresh other waits with behind | ⟨later, -⟩
    · obtain ⟨edge, leaving, rfl⟩ := List.mem_map.1 behind
      obtain ⟨drawn, source⟩ := well.mem_successors.1 leaving
      exact ⟨well.target_ne_entry drawn, edge, well.mem_predecessors.2 ⟨drawn, rfl⟩, source ▸ self⟩
    · obtain ⟨different, edge, entering, reached⟩ := consistent.waiting other later
      exact ⟨different, edge, entering, updated.grows reached⟩
  · have closed : (search.facts? edge.source).isSome →
        (next.facts? edge.target).isSome ∨ edge.target ∈ next.worklist := by
      intro old
      rcases consistent.closed edge drawn old with target | waits
      · exact Or.inl (updated.grows target)
      · rcases updated.still _ waits with same | later
        · exact Or.inl (same ▸ self)
        · exact Or.inr later
    rcases updated.of_reached reached with source | old
    · rcases updated.notified with same | notified
      · exact closed (by rw [source, same]; rfl)
      · exact Or.inr (notified _ (List.mem_map.2
          ⟨edge, well.mem_successors.2 ⟨drawn, source⟩, rfl⟩))
    · exact closed old

end Consistent

/-- The input of a node is up to date unless the node waits. -/
def Current (analysis : Analysis Value Store) (graph : Graph) (search : Search Value Store) :
    Prop :=
  ∀ node facts, node ≠ Graph.entry → search.facts? node = some facts →
    node ∈ search.worklist ∨ analysis.inputAt graph search.toSolution node = some facts.input

omit [BEq Value] [BEq Store] in
/-- At the start no node but the entry has an input. -/
theorem Current.start {analysis : Analysis Value Store} {graph : Graph} (well : graph.WellDrawn)
    (initial : Store) : Current analysis graph (start graph graph.ranks initial) := by
  intro node facts different found
  rw [facts?_start well, if_neg different] at found
  cases found

/-- An evaluation brings the input of its node up to date, and the nodes whose inputs
change with it wait. -/
theorem Current.update [LawfulBEq Store] {analysis : Analysis Value Store} {graph : Graph}
    {search next : Search Value Store} {node : Nat} {facts : Facts Value Store}
    (well : graph.WellDrawn) (updated : Updated analysis graph search next node facts)
    (current : Current analysis graph search) : Current analysis graph next := by
  intro other stored different found
  rcases updated.inputAt well other with waits | input
  · exact Or.inl waits
  · rw [input]
    by_cases same : other = node
    · subst same
      cases updated.self.symm.trans found
      exact Or.inr updated.input
    · rw [updated.other same] at found
      exact (current other stored different found).imp_left fun waits =>
        (updated.still other waits).resolve_left same

/-! ### Runs -/

/-- Evaluations lead from one search to another. -/
inductive Run (analysis : Analysis Value Store) (graph : Graph) (search : Search Value Store) :
    Search Value Store → Prop
  | refl : Run analysis graph search search
  | step {middle next : Search Value Store} {node : Nat} {facts : Facts Value Store} :
      Run analysis graph search middle → Updated analysis graph middle next node facts →
        Run analysis graph search next

namespace Run

variable {analysis : Analysis Value Store} {graph : Graph} {initial : Store}
  {search middle later : Search Value Store}

theorem trans (run : Run analysis graph search middle) (further : Run analysis graph middle later) :
    Run analysis graph search later := by
  induction further with
  | refl => exact run
  | step _ last ih => exact .step ih last

theorem head {node : Nat} {facts : Facts Value Store}
    (updated : Updated analysis graph search middle node facts)
    (run : Run analysis graph middle later) : Run analysis graph search later :=
  (Run.step .refl updated).trans run

/-- A run keeps a search consistent. -/
theorem consistent (well : graph.WellDrawn) (run : Run analysis graph search later)
    (first : Consistent analysis graph initial search) :
    Consistent analysis graph initial later := by
  induction run with
  | refl => exact first
  | step _ updated ih => exact ih.update well updated

/-- What every evaluation keeps holds along a run. -/
theorem keeps {property : Search Value Store → Prop} (well : graph.WellDrawn)
    (kept : ∀ search next node facts, Consistent analysis graph initial search →
      Updated analysis graph search next node facts → property search → property next)
    (run : Run analysis graph search later) (first : Consistent analysis graph initial search)
    (holds : property search) : property later := by
  induction run with
  | refl => exact holds
  | step run updated ih => exact kept _ _ _ _ (run.consistent well first) updated ih

/-- What joins, edges and transfers keep holds of all stores of a run. -/
theorem stores_keep (property : Store → Prop) (well : graph.WellDrawn)
    (joins : ∀ a b, property a → property b → property (analysis.join a b))
    (edges : ∀ edge store, property store → property (analysis.onEdge graph edge store))
    (transfers : ∀ node store values, property store →
      property (analysis.transfer graph node store values).2)
    (holds : property initial)
    (run : Run analysis graph (start graph graph.ranks initial) later) :
    ∀ node facts, later.facts? node = some facts →
      property facts.input ∧ property facts.output := by
  induction run with
  | refl =>
      intro node facts found
      rw [facts?_start well] at found
      split at found
      · cases found
        exact ⟨holds, holds⟩
      · cases found
  | @step search next id latest _ updated ih =>
      obtain ⟨computed, present, transfer, rfl | ⟨old, -⟩⟩ := updated.evaluated
      swap
      · intro node facts found
        rw [updated.lookup] at found
        split at found
        · cases found
          exact ih id latest old
        · exact ih node facts found
      have input : property latest.input := by
        refine inputAt_keeps joins ?_ present
        intro edge _ store arrives
        obtain ⟨facts, present, rfl⟩ := Option.map_eq_some_iff.1 arrives
        obtain ⟨before, after⟩ := ih edge.source facts present
        apply edges
        split
        · exact before
        · exact after
      have output := transfers id latest.input search.valueOf input
      rw [transfer] at output
      intro node facts found
      rw [updated.lookup] at found
      split at found
      · cases found
        exact ⟨input, output⟩
      · exact ih node facts found

end Run

/-- A step skips the first node of the worklist, confirms its facts or revises them. -/
theorem stepped (analysis : Analysis Value Store) (graph : Graph) (search : Search Value Store)
    (busy : search.worklist.isEmpty = false) :
    Stepped analysis graph search (analysis.step graph graph.ranks search) := by
  unfold step
  split
  · rename_i idle
    rw [idle] at busy
    cases busy
  · rename_i node rest waiting
    unfold visit
    split
    · rename_i absent
      exact .skipped waiting absent
    · rename_i input present
      dsimp only
      split
      · rename_i changed
        rw [Option.all_eq_true] at changed
        exact .revised waiting present rfl changed
      · rename_i same
        obtain ⟨old, had, isSame⟩ := (Option.all_eq_false ..).1 (Bool.eq_false_iff.2 same)
        exact .confirmed waiting present rfl had isSame

/-- A search is over, has come to its limit or goes on with the next step. -/
theorem run_eq (analysis : Analysis Value Store) (graph : Graph) (limit : Nat)
    (search : Search Value Store) :
    analysis.run graph graph.ranks limit search =
      if search.worklist.isEmpty then .ok search.toSolution
      else if limit < search.visits + 1 then .error (search.visits + 1)
      else analysis.run graph graph.ranks limit (analysis.step graph graph.ranks search) := by
  rw [run]
  split
  · rename_i idle
    rw [idle]
    rfl
  · rename_i node rest waiting
    rw [waiting, step, waiting]
    exact (if_neg Bool.false_ne_true).symm

/-- A search with a result has run until nothing was left to do. -/
theorem run_of_run {analysis : Analysis Value Store} {graph : Graph} {initial : Store}
    (well : graph.WellDrawn) {budget limit : Nat} {search : Search Value Store}
    {solution : Solution Value Store} (consistent : Consistent analysis graph initial search)
    (left : limit - search.visits = budget)
    (found : analysis.run graph graph.ranks limit search = .ok solution) :
    ∃ final, Run analysis graph search final ∧ final.worklist = [] ∧
      final.toSolution = solution := by
  induction budget generalizing search with
  | zero =>
      rw [run_eq] at found
      split at found
      · rename_i idle
        exact ⟨search, .refl, List.isEmpty_iff.1 idle, Except.ok.inj found⟩
      · rw [if_pos (by omega)] at found
        cases found
  | succ budget ih =>
      rw [run_eq] at found
      split at found
      · rename_i idle
        exact ⟨search, .refl, List.isEmpty_iff.1 idle, Except.ok.inj found⟩
      · rename_i busy
        rw [if_neg (by omega)] at found
        obtain ⟨node, facts, updated⟩ := consistent.exists_updated well
          (stepped analysis graph search (Bool.eq_false_iff.2 busy))
        have fewer := updated.visits
        obtain ⟨final, run, ends⟩ := ih (consistent.update well updated) (by omega) found
        exact ⟨final, run.head updated, ends⟩

/-- A solution is what a run from the start comes to when nothing waits. -/
theorem run_of_solveFrom {analysis : Analysis Value Store} {graph : Graph} {limits : Limits}
    {initial : Store} (well : graph.WellDrawn) {solution : Solution Value Store}
    (solved : analysis.solveFrom limits graph initial = .ok solution) :
    ∃ final, Run analysis graph (start graph graph.ranks initial) final ∧ final.worklist = [] ∧
      final.toSolution = solution := by
  unfold solveFrom at solved
  dsimp only at solved
  split at solved
  · rename_i found
    cases solved
    exact run_of_run well (.start well initial) rfl found
  · cases solved

/-- A property of searches that holds at the start and is kept by every evaluation
holds of a solved analysis, whose last search has nothing left to do. -/
theorem of_solveFrom {analysis : Analysis Value Store} {graph : Graph} {limits : Limits}
    {initial : Store} (property : Search Value Store → Prop) (well : graph.WellDrawn)
    (started : property (start graph graph.ranks initial))
    (kept : ∀ search next node facts, Consistent analysis graph initial search →
      Updated analysis graph search next node facts → property search → property next)
    {solution : Solution Value Store}
    (solved : analysis.solveFrom limits graph initial = .ok solution) :
    ∃ final, Consistent analysis graph initial final ∧ property final ∧ final.worklist = [] ∧
      final.toSolution = solution := by
  obtain ⟨final, run, ends⟩ := run_of_solveFrom well solved
  have first : Consistent analysis graph initial (start graph graph.ranks initial) :=
    .start well initial
  exact ⟨final, run.consistent well first, run.keeps well kept first started, ends⟩

end Analysis

end FragmentFlow
