import FragmentFlow.Proofs.Drawing.Steps

/-!
# The numbers of edges

A node lists the numbers of exactly the edges that start and end at it, in the order
in which they were drawn.  An edge is drawn after all edges into its source, except
those that return to a loop head: without loops control moves on to edges with ever
greater numbers.
-/

namespace FragmentFlow.Graph

namespace Builder

/-- The numbers of the edges for which a test holds. -/
def numbers (b : Builder) (test : Edge → Bool) : List Nat :=
  (List.range b.edges.size).filter fun number => b.edges[number]?.any test

theorem numbers_push {b later : Builder} {edge : Edge} (edges : later.edges = b.edges.push edge)
    (test : Edge → Bool) :
    later.numbers test = b.numbers test ++ if test edge then [b.edges.size] else [] := by
  have old : (List.range b.edges.size).filter (fun number => later.edges[number]?.any test) =
      b.numbers test := by
    refine List.filter_congr fun number member => ?_
    rw [edges, Array.getElem?_push, if_neg (Nat.ne_of_lt (List.mem_range.1 member))]
  have new : later.edges[b.edges.size]?.any test = test edge := by
    rw [edges, Array.getElem?_push_size]
    rfl
  rw [numbers, edges, Array.size_push, List.range_succ, List.filter_append, ← edges, old]
  simp only [List.filter_cons, new, List.filter_nil]

/-- Every node lists the numbers of its edges. -/
structure Indexed (b : Builder) : Prop where
  outgoing : ∀ id node, b.nodes[id]? = some node →
    node.outgoing = b.numbers fun edge => edge.source == id
  incoming : ∀ id node, b.nodes[id]? = some node →
    node.incoming = b.numbers fun edge => edge.target == id

theorem Indexed.addEdge {b : Builder} (indexed : b.Indexed) (edge : Edge) :
    (b.addEdge edge).Indexed := by
  unfold Builder.addEdge Canvas.addEdge
  split
  · exact indexed
  · -- a node lists the new number exactly if it is an end of the new edge
    have modified : ∀ id node,
        ((b.nodes.modify edge.source fun node =>
            { node with outgoing := node.outgoing ++ [b.edges.size] }).modify edge.target
          fun node => { node with incoming := node.incoming ++ [b.edges.size] })[id]? =
            some node →
        ∃ old, b.nodes[id]? = some old ∧
          node.outgoing = old.outgoing ++ (if edge.source == id then [b.edges.size] else []) ∧
          node.incoming = old.incoming ++ if edge.target == id then [b.edges.size] else [] := by
      intro id node found
      simp only [Array.getElem?_modify] at found
      cases present : b.nodes[id]? with
      | none => simp [present] at found
      | some old =>
          rw [present] at found
          refine ⟨old, rfl, ?_⟩
          by_cases source : edge.source = id <;> by_cases target : edge.target = id <;>
            simp only [source, target, if_true, if_false, Option.map_some, Option.some.injEq]
              at found <;>
            simp [← found, source, target]
    constructor
    · intro id node found
      obtain ⟨old, present, outgoing, -⟩ := modified id node found
      rw [outgoing, numbers_push rfl, indexed.outgoing id old present]
    · intro id node found
      obtain ⟨old, present, -, incoming⟩ := modified id node found
      rw [incoming, numbers_push rfl, indexed.incoming id old present]

theorem Indexed.connect {b : Builder} (indexed : b.Indexed) (tips : List Tip) (target : Nat) :
    (b.connect tips target).Indexed := by
  rw [connect_eq]
  generalize tips.map _ = edges
  induction edges generalizing b with
  | nil => exact indexed
  | cons edge edges ih => exact ih (indexed.addEdge edge)

theorem Indexed.of_eq {b later : Builder} (indexed : b.Indexed) (nodes : later.nodes = b.nodes)
    (edges : later.edges = b.edges) : later.Indexed := by
  have same : ∀ test, later.numbers test = b.numbers test := fun test => by
    rw [numbers, edges, numbers]
  exact ⟨fun id node found => (same _).symm ▸ indexed.outgoing id node (nodes ▸ found),
    fun id node found => (same _).symm ▸ indexed.incoming id node (nodes ▸ found)⟩

theorem numbers_eq_nil {b : Builder} {test : Edge → Bool}
    (none : ∀ edge ∈ b.edges, test edge = false) : b.numbers test = [] := by
  refine List.filter_eq_nil_iff.2 fun number _ => ?_
  cases found : b.edges[number]? with
  | none => simp
  | some edge => simp [none edge (Array.mem_of_getElem? found)]

/-- No edge starts or ends at a new node yet. -/
theorem Indexed.addNode {b : Builder} (indexed : b.Indexed) (drawn : Drawn b) {node : Node}
    (isBare : node.bare = node) : (b.addNode node).2.Indexed := by
  refine ⟨fun id other found => ?_, fun id other found => ?_⟩
  all_goals
    simp only [Builder.addNode, Canvas.addNode, Array.getElem?_push] at found
    split at found
    · rename_i isNew
      cases found
      rw [← isBare]
      refine (numbers_eq_nil fun edge member => ?_).symm
      obtain ⟨source, target⟩ := drawn.edge_bounds member
      simp only [beq_eq_false_iff_ne]
      omega
    · first | exact indexed.outgoing id other found | exact indexed.incoming id other found

/-- In a drawing all edges are listed where they belong. -/
theorem Drawn.indexed {b : Builder} (drawn : Drawn b) : b.Indexed := by
  induction drawn with
  | refl => exact ⟨fun _ _ found => (by cases found), fun _ _ found => (by cases found)⟩
  | moved _ nodes edges _ ih => exact ih.of_eq nodes edges
  | grown draws isBare _ _ ih => exact (ih.addNode draws isBare).connect _ _
  | linked _ _ _ ih => exact ih.addEdge _

/-! ### The order of edges -/

/-- A node is the head of a loop. -/
def Loops (b : Builder) (id : Nat) : Prop :=
  ∃ node, b.bare? id = some node ∧ node.action = .loopHead

/-- A loop head stays one. -/
theorem Loops.grow {b later : Builder} {id : Nat} (loops : b.Loops id) (grows : Grows b later) :
    later.Loops id :=
  loops.imp fun _ found => ⟨grows.nodes _ _ found.1, found.2⟩

/-- An edge returns to the head of a loop. -/
structure Returns (b : Builder) (edge : Edge) : Prop where
  loops : b.Loops edge.target
  back : edge.target ≤ edge.source

/-- An edge back to a loop head stays one. -/
theorem Returns.grow {b later : Builder} {edge : Edge} (returns : b.Returns edge)
    (grows : Grows b later) : later.Returns edge :=
  ⟨returns.loops.grow grows, returns.back⟩

/-- The edges into a node are drawn before those out of it, except those that return to
the head of a loop. -/
def Forward (b : Builder) : Prop :=
  ∀ (first second : Nat) (edge next : Edge), b.edges[first]? = some edge →
    b.edges[second]? = some next → edge.target = next.source →
      first < second ∨ b.Returns edge

/-- A new edge may only end at a node that is left already if it returns to the head of
a loop. -/
theorem Forward.addEdge {b : Builder} (forward : b.Forward) {edge : Edge}
    (fresh : ∀ next ∈ (b.addEdge edge).edges, edge.target = next.source → b.Returns edge) :
    (b.addEdge edge).Forward := by
  have kept : ∀ {other}, b.Returns other → (b.addEdge edge).Returns other := fun returns =>
    returns.grow (.addEdges b [edge])
  intro first second before next found other meets
  have leaving := Array.mem_of_getElem? other
  unfold Builder.addEdge Canvas.addEdge at found other
  split at found
  · rename_i present
    rw [if_pos present] at other
    exact (forward first second before next found other meets).imp_right kept
  · rename_i absent
    rw [if_neg absent] at other
    rw [Array.getElem?_push] at found other
    split at found
    · cases found
      exact Or.inr (kept (fresh next leaving meets))
    · split at other
      · have bound := (Array.getElem?_eq_some_iff.1 found).1
        exact Or.inl (by omega)
      · exact (forward first second before next found other meets).imp_right kept

theorem Forward.of_eq {b later : Builder} (forward : b.Forward) (nodes : later.nodes = b.nodes)
    (edges : later.edges = b.edges) : later.Forward := by
  intro first second edge next found other meets
  rw [edges] at found other
  exact (forward first second edge next found other meets).imp_right fun returns =>
    returns.grow (.of_eq nodes edges)

/-- Tips may end at a node that no edge leaves. -/
theorem Forward.connect {b : Builder} (forward : b.Forward) {tips : List Tip} {target : Nat}
    (sources : ∀ tip ∈ tips, tip.source ≠ target)
    (unused : ∀ edge ∈ b.edges, edge.source ≠ target) : (b.connect tips target).Forward := by
  induction tips generalizing b with
  | nil => exact forward
  | cons tip tips ih =>
      have stillUnused :
          ∀ edge ∈ (b.addEdge { source := tip.source, target, kind := tip.kind }).edges,
            edge.source ≠ target := by
        intro edge member
        rcases mem_edges_addEdge.1 member with old | rfl
        · exact unused edge old
        · exact sources tip List.mem_cons_self
      exact ih
        (forward.addEdge fun next member meets => absurd meets.symm (stillUnused next member))
        (fun other member => sources other (List.mem_cons_of_mem _ member)) stillUnused

/-- In a drawing edges lead forward or back to a loop head. -/
theorem Drawn.forward {b : Builder} (drawn : Drawn b) : b.Forward := by
  induction drawn with
  | refl => exact fun _ _ _ _ found => (by cases found)
  | moved _ nodes edges _ ih => exact ih.of_eq nodes edges
  | @grown b node tips draws _ bound _ ih =>
      have added : ((b.addNode node).2).Forward := fun first second edge next found other meets =>
        (ih first second edge next found other meets).imp_right fun returns =>
          returns.grow (.addNode b node)
      exact added.connect (fun tip member => Nat.ne_of_lt (bound tip member)) fun edge member =>
        Nat.ne_of_lt (Drawn.edge_bounds draws member).1
  | linked _ _ accepts ih =>
      refine ih.addEdge fun next member meets => ?_
      cases accepts with
      | loop found isLoop back => exact ⟨⟨_, found, isLoop⟩, back⟩
      | clause _ _ different unused =>
          rcases mem_edges_addEdge.1 member with old | rfl
          · exact absurd meets.symm (unused next old)
          · exact absurd meets.symm different

end Builder

end FragmentFlow.Graph
