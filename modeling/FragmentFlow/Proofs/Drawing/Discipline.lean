import FragmentFlow.Proofs.Drawing.Steps

/-!
# Code is drawn in steps

All code is drawn by the steps of `Draws`.  What has to be watched are the entries of
catch clauses: while the body of a `try` is drawn, edges may only lead to them, so no
tip may start there.  An expression is drawn as one interval of nodes, which control
enters only at the tips that were open before it.
-/

namespace FragmentFlow.Graph

/-- A node is the entry of a catch clause of one of the frames. -/
def Scope.Guards (scope : Scope) (id : Nat) : Prop :=
  ∃ handlers cleanup, Frame.region handlers cleanup ∈ scope ∧ id ∈ handlers.map Handler.entry

/-- What an outer scope guards is guarded inside a frame too. -/
theorem Scope.Guards.inside {outer : Scope} {id : Nat} (guards : outer.Guards id) (frame : Frame) :
    Scope.Guards (frame :: outer) id := by
  obtain ⟨handlers, cleanup, member, found⟩ := guards
  exact ⟨handlers, cleanup, List.mem_cons_of_mem _ member, found⟩

/-- A loop has no catch clauses. -/
theorem Scope.Guards.of_loop {scope : Scope} {id : Nat}
    (guards : Scope.Guards (.loop :: scope) id) : scope.Guards id := by
  obtain ⟨handlers, cleanup, member, found⟩ := guards
  rcases List.mem_cons.1 member with same | outer
  · cases same
  · exact ⟨handlers, cleanup, outer, found⟩

/-- A region guards the entries of its handlers and what is guarded around it. -/
theorem Scope.Guards.of_region {scope : Scope} {id : Nat} {handlers : List Handler}
    {cleanup : Option Tree.Block} (guards : Scope.Guards (.region handlers cleanup :: scope) id) :
    id ∈ handlers.map Handler.entry ∨ scope.Guards id := by
  obtain ⟨others, block, member, found⟩ := guards
  rcases List.mem_cons.1 member with same | outer
  · cases same
    exact Or.inl found
  · exact Or.inr ⟨others, block, outer, found⟩

/-- Inside catch clauses only what is guarded around them is guarded. -/
theorem Scope.Guards.of_clauses {scope : Scope} {id : Nat} {cleanup : Option Tree.Block}
    (guards : Scope.Guards (.region [] cleanup :: scope) id) : scope.Guards id :=
  guards.of_region.resolve_left List.not_mem_nil

/-- The handlers on the route of an exception are guarded. -/
theorem Scope.guards_of_mem_route {scope : Scope} {id : Nat} (member : id ∈ scope.route.1) :
    scope.Guards id := by
  induction scope with
  | nil => cases member
  | cons frame outer ih =>
      cases frame with
      | loop => exact (ih member).inside _
      | region handlers cleanup =>
          have own : id ∈ handlers.map Handler.entry →
              Scope.Guards (.region handlers cleanup :: outer) id :=
            fun found => ⟨handlers, cleanup, List.mem_cons_self, found⟩
          simp only [Scope.route] at member
          split at member
          · exact own member
          · split at member
            · exact own member
            · rcases List.mem_append.1 member with found | found
              · exact own found
              · exact (ih found).inside _

namespace Builder

/-- A node is the entry of a catch clause that has not been left. -/
structure Waits (b : Builder) (id : Nat) : Prop where
  clause : ∃ node name ty, b.bare? id = some node ∧ node.action = .catchParam name ty
  unused : ∀ edge ∈ b.edges, edge.source ≠ id

/-- Edges may start at a node. -/
abbrev Free (b : Builder) (guarded : Nat → Prop) (id : Nat) : Prop :=
  id < b.nodes.size ∧ ¬ guarded id

theorem Free.bound {b : Builder} {guarded : Nat → Prop} {id : Nat} (free : b.Free guarded id) :
    id < b.nodes.size :=
  free.1

/-- A free node is not guarded. -/
theorem Free.unguarded {b : Builder} {guarded : Nat → Prop} {id : Nat}
    (free : b.Free guarded id) : ¬ guarded id :=
  free.2

/-- A free node stays free while nodes are added. -/
theorem Free.grow {b later : Builder} {guarded : Nat → Prop} {id : Nat}
    (free : b.Free guarded id) (grows : b.nodes.size ≤ later.nodes.size) :
    later.Free guarded id :=
  ⟨Nat.lt_of_lt_of_le free.bound grows, free.unguarded⟩

theorem Waits.lt_size {b : Builder} {id : Nat} (waits : b.Waits id) : id < b.nodes.size := by
  obtain ⟨node, name, ty, found, -⟩ := waits.clause
  exact lt_size_of_bare? found

/-- A drawing goes on from some point in steps, past entries of catch clauses that
wait. -/
structure Fits (first : Builder) (guarded : Nat → Prop) (b : Builder) : Prop where
  origin : Drawn first
  draws : Draws first b
  waiting : ∀ id, guarded id → b.Waits id
  tips : ∀ tip ∈ b.tips, b.Free guarded tip.source
  parked : ∀ entry ∈ b.parked, b.Free guarded entry.2.source

namespace Fits

variable {first b later : Builder} {guarded : Nat → Prop}

/-- A drawing that fits is drawn step by step. -/
theorem drawn (fits : Fits first guarded b) : Drawn b :=
  fits.origin.trans fits.draws

/-- Every point may be the one from which the drawing goes on. -/
theorem restart (fits : Fits first guarded b) : Fits b guarded b :=
  { fits with origin := fits.drawn, draws := .refl }

/-- The current place and the parked tips may change. -/
theorem move {tips : List Tip} {parked : List (Exit × Tip)} (fits : Fits first guarded b)
    (free : ∀ tip ∈ tips, b.Free guarded tip.source)
    (others : ∀ entry ∈ parked, b.Free guarded entry.2.source) :
    Fits first guarded { b with tips, parked } where
  origin := fits.origin
  draws := .moved fits.draws rfl rfl rfl
  waiting id guards := ⟨(fits.waiting id guards).clause, (fits.waiting id guards).unused⟩
  tips tip member := ⟨(free tip member).bound, (free tip member).unguarded⟩
  parked entry member := ⟨(others entry member).bound, (others entry member).unguarded⟩

theorem withTips {tips : List Tip} (fits : Fits first guarded b)
    (free : ∀ tip ∈ tips, b.Free guarded tip.source) : Fits first guarded { b with tips } :=
  fits.move free fits.parked

/-- The current place may be given up. -/
theorem stop (fits : Fits first guarded b) : Fits first guarded { b with tips := [] } :=
  fits.withTips fun _ member => nomatch member

theorem mention (fits : Fits first guarded b) (ty : String) :
    Fits first guarded (b.mention ty) where
  origin := fits.origin
  draws := .moved fits.draws rfl rfl rfl
  waiting id guards := ⟨(fits.waiting id guards).clause, (fits.waiting id guards).unused⟩
  tips tip member := ⟨(fits.tips tip member).bound, (fits.tips tip member).unguarded⟩
  parked entry member := ⟨(fits.parked entry member).bound, (fits.parked entry member).unguarded⟩

theorem tipsAs (fits : Fits first guarded b) (kind : EdgeKind) :
    ∀ tip ∈ b.tipsAs kind, b.Free guarded tip.source := by
  intro tip member
  obtain ⟨old, present, rfl⟩ := List.mem_map.1 member
  exact fits.tips old present

/-- Parked tips are free. -/
theorem parkedUnder (fits : Fits first guarded b) (exit : Exit) :
    ∀ tip ∈ b.parkedUnder exit, b.Free guarded tip.source := by
  intro tip member
  obtain ⟨entry, present, found⟩ := List.mem_filterMap.1 member
  split at found
  · cases found
    exact fits.parked entry present
  · cases found

theorem jump (fits : Fits first guarded b) (exit : Exit) (kind : EdgeKind) :
    Fits first guarded (b.jump exit kind) := by
  refine fits.move (fun _ member => nomatch member) fun entry member => ?_
  rcases List.mem_append.1 member with old | new
  · exact fits.parked entry old
  · obtain ⟨tip, changed, rfl⟩ := List.mem_map.1 new
    obtain ⟨old, present, rfl⟩ := List.mem_map.1 changed
    have free := fits.tips old present
    split <;> exact free

/-- Leaving a frame brings back what was parked before it. -/
theorem leaveFrame {before : List (Exit × Tip)} (fits : Fits first guarded b)
    (free : ∀ entry ∈ before, b.Free guarded entry.2.source) (ending : List Exit) :
    Fits first guarded (b.leaveFrame before ending) := by
  refine fits.move fits.tips fun entry member => ?_
  rcases List.mem_append.1 member with old | new
  · exact free entry old
  · exact fits.parked entry (List.mem_filter.1 new).1

/-- What waits keeps waiting when edges are added that start elsewhere. -/
theorem waits_addEdge {id : Nat} {edge : Edge} (waits : b.Waits id) (other : edge.source ≠ id) :
    (b.addEdge edge).Waits id where
  clause := by
    obtain ⟨node, name, ty, found, isClause⟩ := waits.clause
    exact ⟨node, name, ty, (bare?_addEdge b edge id).trans found, isClause⟩
  unused next member := by
    rcases mem_edges_addEdge.1 member with old | rfl
    · exact waits.unused next old
    · exact other

theorem addEdge (fits : Fits first guarded b) {edge : Edge} (free : b.Free guarded edge.source)
    (accepts : b.Accepts edge) : Fits first guarded (b.addEdge edge) where
  origin := fits.origin
  draws := .linked fits.draws free.bound accepts
  waiting id guards :=
    waits_addEdge (fits.waiting id guards) fun same => free.unguarded (same ▸ guards)
  tips tip member := (fits.tips tip (tips_addEdge b edge ▸ member)).grow
    (Nat.le_of_eq (size_addEdge b edge).symm)
  parked entry member := (fits.parked entry (parked_addEdge b edge ▸ member)).grow
    (Nat.le_of_eq (size_addEdge b edge).symm)

/-- Tips may lead back to the head of a loop. -/
theorem connectBack (fits : Fits first guarded b) {head : Nat} {node : Node}
    (found : b.bare? head = some node) (isLoop : node.action = .loopHead) {tips : List Tip}
    (free : ∀ tip ∈ tips, b.Free guarded tip.source) (above : ∀ tip ∈ tips, head ≤ tip.source) :
    Fits first guarded (b.connect tips head) := by
  induction tips generalizing b with
  | nil => exact fits
  | cons tip tips ih =>
      have accepts : b.Accepts { source := tip.source, target := head, kind := tip.kind } :=
        .loop found isLoop (above tip List.mem_cons_self)
      refine ih (fits.addEdge (free tip List.mem_cons_self) accepts)
        ((bare?_addEdge b _ head).trans found) (fun other member => ?_)
        fun other member => above other (List.mem_cons_of_mem _ member)
      exact (free other (List.mem_cons_of_mem _ member)).grow
        (Nat.le_of_eq (size_addEdge b _).symm)

/-- Exceptions lead to entries that wait. -/
theorem enterAll (fits : Fits first guarded b) {source : Nat} (free : b.Free guarded source)
    {entries : List Nat} (guards : ∀ id ∈ entries, guarded id) :
    Fits first guarded
      (b.addEdges (entries.map fun target => { source, target, kind := .exception })) := by
  induction entries generalizing b with
  | nil => exact fits
  | cons entry entries ih =>
      have isGuarded := guards entry List.mem_cons_self
      have waits := fits.waiting entry isGuarded
      obtain ⟨node, name, ty, found, isClause⟩ := waits.clause
      have accepts : b.Accepts { source, target := entry, kind := .exception } :=
        .clause found isClause (fun same : source = entry => free.unguarded (same ▸ isGuarded))
          waits.unused
      exact ih (fits.addEdge free accepts)
        (free.grow (Nat.le_of_eq (size_addEdge b _).symm))
        fun id member => guards id (List.mem_cons_of_mem _ member)

theorem raise (fits : Fits first guarded b) {scope : Scope}
    (guards : ∀ id, scope.Guards id → guarded id) {source : Nat} (free : b.Free guarded source) :
    Fits first guarded (b.raise scope source) := by
  rw [raise_eq]
  have parked : ∀ entry ∈ b.parked ++ scope.route.2.toList.map (fun exit =>
      (exit, ({ source, kind := .exception } : Tip))), b.Free guarded entry.2.source := by
    intro entry member
    rcases List.mem_append.1 member with old | new
    · exact fits.parked entry old
    · obtain ⟨exit, -, rfl⟩ := List.mem_map.1 new
      exact free
  exact (fits.move fits.tips parked).enterAll ⟨free.bound, free.unguarded⟩ fun id member =>
    guards id (Scope.guards_of_mem_route member)

/-- Tips end at a new node; no tip is left open there. -/
theorem grown (fits : Fits first guarded b) {node : Node} (isBare : node.bare = node)
    (tips : List Tip) (free : ∀ tip ∈ tips, b.Free guarded tip.source)
    (shape : b.Shape node.action node.operands tips) :
    Fits first guarded
      { (b.addNode node).2.connect tips b.nodes.size with tips := [], parked := [] } where
  origin := fits.origin
  draws := .moved (.grown fits.draws isBare (fun tip member => (free tip member).bound) shape)
    rfl rfl rfl
  waiting id guards := by
    have waits := fits.waiting id guards
    obtain ⟨other, name, ty, found, isClause⟩ := waits.clause
    refine ⟨⟨other, name, ty, ?_, isClause⟩, fun edge member => ?_⟩
    · exact (Grows.connect _ tips _).nodes _ _ ((Grows.addNode b node).nodes _ _ found)
    · rcases mem_edges_connect.1 member with old | ⟨tip, -⟩
      · exact waits.unused edge old
      · exact fun same => (free _ tip).unguarded (same ▸ guards)
  tips _ member := nomatch member
  parked _ member := nomatch member

/-- A pushed node is free. -/
theorem free_push (fits : Fits first guarded b) (node : Node) :
    (b.push node).2.Free guarded b.nodes.size :=
  ⟨by rw [size_push]; exact Nat.lt_succ_self _, fun isGuarded =>
    Nat.lt_irrefl _ (fits.waiting _ isGuarded).lt_size⟩

theorem push (fits : Fits first guarded b) {node : Node} (isBare : node.bare = node)
    (shape : b.Shape node.action node.operands b.tips) : Fits first guarded (b.push node).2 := by
  have pushed := fits.grown isBare b.tips fits.tips shape
  have larger : b.nodes.size ≤ (b.push node).2.nodes.size := (Grows.push b node).size_le
  refine ⟨pushed.origin, .moved pushed.draws rfl rfl rfl,
    fun id guards => ⟨(pushed.waiting id guards).clause, (pushed.waiting id guards).unused⟩,
    fun tip member => ?_, fun entry member => ?_⟩
  · cases List.mem_singleton.1 member
    exact fits.free_push node
  · exact (fits.parked entry (parked_push b node ▸ member)).grow larger

/-- A node without operands may be drawn anywhere. -/
theorem pushPlain (fits : Fits first guarded b) (node : Node) (isBare : node.bare = node)
    (unused : node.action.usesOperands = false) (none : node.operands = []) :
    Fits first guarded (b.push node).2 := by
  apply fits.push isBare
  rw [none]
  exact .alone unused b.tips

/-- Fewer entries may wait. -/
theorem weaken {fewer : Nat → Prop} (fits : Fits first guarded b)
    (weaker : ∀ id, fewer id → guarded id) : Fits first fewer b where
  origin := fits.origin
  draws := fits.draws
  waiting id isFewer := fits.waiting id (weaker id isFewer)
  tips tip member :=
    ⟨(fits.tips tip member).bound,
      fun isFewer => (fits.tips tip member).unguarded (weaker _ isFewer)⟩
  parked entry member := ⟨(fits.parked entry member).bound,
    fun isFewer => (fits.parked entry member).unguarded (weaker _ isFewer)⟩

end Fits

/-! ### Expressions -/

/-- New nodes evaluate expressions, and control comes to them only at the tips that
were open. -/
structure Spans (b later : Builder) : Prop where
  size_le : b.nodes.size ≤ later.nodes.size
  valued : ∀ id, b.nodes.size ≤ id → id < later.nodes.size → later.Valued id
  entered : ∀ edge ∈ later.edges, b.nodes.size ≤ edge.target →
    b.nodes.size ≤ edge.source ∨ { source := edge.source, kind := edge.kind } ∈ b.tips
  tips : ∀ tip ∈ later.tips, b.nodes.size ≤ tip.source ∨ tip ∈ b.tips
  linked : b.tips ≠ [] → ∀ id, b.nodes.size ≤ id → id < later.nodes.size →
    ∃ edge ∈ later.edges, edge.target = id
  leadsOn : b.tips ≠ [] → later.tips ≠ []

namespace Spans

variable {b later last : Builder}

theorem refl (drawn : Drawn b) : Spans b b where
  size_le := Nat.le_refl _
  valued _ above below := absurd below (Nat.not_lt.2 above)
  entered _ member above := absurd (drawn.edge_bounds member).2 (Nat.not_lt.2 above)
  tips _ member := Or.inr member
  linked _ _ above below := absurd below (Nat.not_lt.2 above)
  leadsOn := id

theorem trans (one : Spans b later) (other : Spans later last) (draws : Draws later last) :
    Spans b last where
  size_le := Nat.le_trans one.size_le other.size_le
  valued id above below := by
    by_cases old : id < later.nodes.size
    · exact (one.valued id above old).grow draws.grows
    · exact other.valued id (Nat.le_of_not_lt old) below
  entered edge member above := by
    by_cases old : edge.target < later.nodes.size
    · rcases draws.new_edge member with before | fresh | joins
      · exact one.entered edge before above
      · exact absurd old (Nat.not_lt.2 fresh)
      · exact absurd joins ((one.valued _ above old).grow draws.grows).not_joins
    · rcases other.entered edge member (Nat.le_of_not_lt old) with inside | tip
      · exact Or.inl (Nat.le_trans one.size_le inside)
      · exact one.tips _ tip
  tips tip member := by
    rcases other.tips tip member with inside | old
    · exact Or.inl (Nat.le_trans one.size_le inside)
    · exact one.tips tip old
  linked started id above below := by
    by_cases old : id < later.nodes.size
    · obtain ⟨edge, member, target⟩ := one.linked started id above old
      exact ⟨edge, draws.grows.edges edge member, target⟩
    · exact other.linked (one.leadsOn started) id (Nat.le_of_not_lt old) below
  leadsOn started := other.leadsOn (one.leadsOn started)

/-- Tips that start at new nodes may be opened. -/
theorem withTips {tips : List Tip} (spans : Spans b later) (some : tips ≠ [])
    (inside : ∀ tip ∈ tips, b.nodes.size ≤ tip.source) : Spans b { later with tips } where
  size_le := spans.size_le
  valued := spans.valued
  entered := spans.entered
  tips tip member := Or.inl (inside tip member)
  linked := spans.linked
  leadsOn _ := some

theorem push {node : Node} (drawn : Drawn b) (valued : node.action.isValued = true) :
    Spans b (b.push node).2 where
  size_le := (Grows.push b node).size_le
  valued id above below := by
    rw [size_push] at below
    have last : id = b.nodes.size := by omega
    exact ⟨node.bare, last ▸ bare?_push_self b node, valued⟩
  entered edge member above := by
    rcases mem_edges_push.1 member with old | ⟨tip, -⟩
    · exact absurd (drawn.edge_bounds old).2 (Nat.not_lt.2 above)
    · exact Or.inr tip
  tips tip member := by
    cases List.mem_singleton.1 member
    exact Or.inl (Nat.le_refl _)
  linked started id above below := by
    rw [size_push] at below
    obtain ⟨tip, member⟩ := List.exists_mem_of_ne_nil _ started
    refine ⟨⟨tip.source, b.nodes.size, tip.kind⟩, mem_edges_push.2 (Or.inr ⟨member, rfl⟩), ?_⟩
    exact Nat.le_antisymm above (Nat.le_of_lt_succ below)
  leadsOn _ := List.cons_ne_nil _ _

theorem raise (spans : Spans b later) {scope : Scope} {source : Nat}
    (inside : b.nodes.size ≤ source) : Spans b (later.raise scope source) where
  size_le := Nat.le_trans spans.size_le (Grows.raise later scope source).size_le
  valued id above below := by
    rw [size_raise] at below
    exact (spans.valued id above below).grow (.raise later scope source)
  entered edge member above := by
    rcases mem_edges_raise.1 member with old | ⟨same, -, -⟩
    · exact spans.entered edge old above
    · exact Or.inl (same ▸ inside)
  tips tip member := spans.tips tip (tips_raise later scope source ▸ member)
  linked started id above below := by
    rw [size_raise] at below
    obtain ⟨edge, member, target⟩ := spans.linked started id above below
    exact ⟨edge, mem_edges_raise.2 (Or.inl member), target⟩
  leadsOn started := tips_raise later scope source ▸ spans.leadsOn started

/-- A spanned interval is sealed if there was one open tip. -/
theorem isSealed (spans : Spans b later) (drawn : Drawn later) {low high source : Nat}
    {kind : EdgeKind} (start : b.nodes.size = low + 1) (finish : later.nodes.size = high + 1)
    (tips : b.tips = [⟨source, kind⟩]) : later.Sealed low high source kind where
  valued id above below := spans.valued id (by omega) (by omega)
  linked id above below := spans.linked (tips ▸ List.cons_ne_nil _ _) id (by omega) (by omega)
  entered edge member above below := by
    have bounds := drawn.edge_bounds member
    rcases spans.entered edge member (by omega) with inside | tip
    · exact Or.inl ⟨by omega, by omega⟩
    · rw [tips] at tip
      cases List.mem_singleton.1 tip
      exact Or.inr ⟨rfl, rfl⟩

end Spans

/-- Expressions have been drawn one after the other. -/
structure Lists (first : Builder) (guarded : Nat → Prop) (b later : Builder) : Prop where
  fits : Fits first guarded later
  spans : Spans b later
  draws : Draws b later

/-- Expressions have been drawn one after the other with their values at some nodes. -/
structure EvaluatesAll (first : Builder) (guarded : Nat → Prop) (b later : Builder)
    (values : List Nat) : Prop extends Lists first guarded b later where
  valued : ∀ value ∈ values, later.Valued value

/-- An expression has been drawn with its value at the last node. -/
structure Evaluates (first : Builder) (guarded : Nat → Prop) (b later : Builder) (value : Nat) :
    Prop extends Lists first guarded b later where
  fresh : b.nodes.size ≤ value
  last : later.nodes.size = value + 1
  tips : later.tips = [⟨value, .normal⟩]

namespace Evaluates

variable {first b middle later : Builder} {guarded : Nat → Prop} {value : Nat}

/-- What was evaluated has a value. -/
theorem valued (evaluates : Evaluates first guarded b later value) : later.Valued value :=
  evaluates.spans.valued value evaluates.fresh (evaluates.last ▸ Nat.lt_succ_self value)

/-- What was evaluated is free. -/
theorem free (evaluates : Evaluates first guarded b later value) : later.Free guarded value :=
  evaluates.fits.tips ⟨value, .normal⟩ (evaluates.tips ▸ List.mem_singleton.2 rfl)

theorem push (fits : Fits first guarded b) {node : Node} (isBare : node.bare = node)
    (valued : node.action.isValued = true)
    (shape : b.Shape node.action node.operands b.tips) :
    Evaluates first guarded b (b.push node).2 b.nodes.size where
  fits := fits.push isBare shape
  spans := .push fits.drawn valued
  draws := (fits.restart.push isBare shape).draws
  fresh := Nat.le_refl _
  last := size_push b node
  tips := rfl

/-- Operands come before. -/
theorem after (evaluates : Evaluates first guarded middle later value)
    (before : Lists first guarded b middle) : Evaluates first guarded b later value where
  fits := evaluates.fits
  spans := before.spans.trans evaluates.spans evaluates.draws
  draws := before.draws.trans evaluates.draws
  fresh := Nat.le_trans before.spans.size_le evaluates.fresh
  last := evaluates.last
  tips := evaluates.tips

theorem raise (evaluates : Evaluates first guarded b later value) {scope : Scope}
    (guards : ∀ id, scope.Guards id → guarded id) :
    Evaluates first guarded b (later.raise scope value) value where
  fits := evaluates.fits.raise guards evaluates.free
  spans := evaluates.spans.raise evaluates.fresh
  draws := evaluates.draws.trans (evaluates.fits.restart.raise guards evaluates.free).draws
  fresh := evaluates.fresh
  last := (size_raise later scope value).trans evaluates.last
  tips := (tips_raise later scope value).trans evaluates.tips

end Evaluates

/-- Tips at the new nodes may be opened behind them. -/
theorem Lists.withTips {first b later : Builder} {guarded : Nat → Prop}
    (lists : Lists first guarded b later) (tips : List Tip) (some : tips ≠ [])
    (free : ∀ tip ∈ tips, later.Free guarded tip.source)
    (inside : ∀ tip ∈ tips, b.nodes.size ≤ tip.source) :
    Lists first guarded b { later with tips } where
  fits := lists.fits.withTips free
  spans := lists.spans.withTips some inside
  draws := .moved lists.draws rfl rfl rfl

theorem Evaluates.tipsAs {first b later : Builder} {guarded : Nat → Prop} {value : Nat}
    (evaluates : Evaluates first guarded b later value) (kind : EdgeKind) :
    later.tipsAs kind = [⟨value, kind⟩] := by
  rw [Builder.tipsAs, evaluates.tips]
  rfl

/-- The value may be tested before control goes on. -/
theorem Evaluates.tested {first b later : Builder} {guarded : Nat → Prop} {value : Nat}
    (evaluates : Evaluates first guarded b later value) (kind : EdgeKind) :
    Lists first guarded b { later with tips := later.tipsAs kind } := by
  refine evaluates.toLists.withTips _ ?_ (evaluates.fits.tipsAs kind) fun tip member => ?_
  · rw [evaluates.tipsAs kind]
    exact List.cons_ne_nil _ _
  · rw [evaluates.tipsAs kind] at member
    cases List.mem_singleton.1 member
    exact evaluates.fresh

section Operators

variable {first b tested whenTrue whenFalse : Builder} {guarded : Nat → Prop}
  {left right test one other : Nat} {op : BinaryOp} (id : Nat) (copying : Bool)

/-- An action with one operand is evaluated behind it. -/
theorem Evaluates.single {value : Nat} {action : Action}
    (operand : Evaluates first guarded b tested value) (usesOne : action.usesOne = true)
    (valued : action.isValued = true) :
    Evaluates first guarded b (tested.push (.at id copying action [value])).2
      tested.nodes.size := by
  refine (Evaluates.push operand.fits rfl valued ?_).after operand.toLists
  rw [operand.tips]
  exact .one usesOne operand.valued

/-- Nodes behind an expression have larger numbers than its value. -/
theorem Evaluates.lt_of_le {value : Nat} (evaluates : Evaluates first guarded b tested left)
    (behind : tested.nodes.size ≤ value) : left < value := by
  have last := evaluates.last
  omega

/-- A strict operator is evaluated behind both operands. -/
theorem Evaluates.strict (lhs : Evaluates first guarded b tested left)
    (rhs : Evaluates first guarded tested whenTrue right) (isStrict : op.isShortCircuit = false) :
    Evaluates first guarded b (whenTrue.push (.at id copying (.binary op) [left, right])).2
      whenTrue.nodes.size := by
  refine (Evaluates.push rhs.fits rfl rfl ?_).after (rhs.after lhs.toLists).toLists
  rw [rhs.tips]
  exact .strict isStrict (lhs.lt_of_le rhs.fresh) (lhs.valued.grow rhs.draws.grows)
    (rhs.spans.isSealed rhs.fits.drawn lhs.last rhs.last lhs.tips)

/-- A short-circuit operator is evaluated behind its second operand or straight behind the
first. -/
theorem Evaluates.shortCircuit (lhs : Evaluates first guarded b tested left)
    (rhs : Evaluates first guarded { tested with tips := tested.tipsAs (.evaluating op) } whenTrue
      right) (isShort : op.isShortCircuit = true) :
    Evaluates first guarded b
      ({ whenTrue with tips := whenTrue.tips ++ tested.tipsAs (.skipping op) }.push
        (.at id copying (.binary op) [left, right])).2 whenTrue.nodes.size := by
  have both := rhs.after (lhs.tested (.evaluating op))
  have draws : Draws tested whenTrue := rhs.draws.of_eq rfl rfl rfl
  rw [rhs.tips, lhs.tipsAs]
  have opened := both.toLists.withTips [⟨right, .normal⟩, ⟨left, .skipping op⟩]
    (List.cons_ne_nil _ _) (by
      rintro tip (_ | ⟨_, _ | ⟨_, ⟨⟩⟩⟩)
      · exact rhs.free
      · exact lhs.free.grow draws.grows.size_le)
    (by
      rintro tip (_ | ⟨_, _ | ⟨_, ⟨⟩⟩⟩)
      · exact both.fresh
      · exact lhs.fresh)
  have shape : whenTrue.Shape (.binary op) [left, right]
      [⟨right, .normal⟩, ⟨left, .skipping op⟩] :=
    .shortCircuit isShort (lhs.lt_of_le rhs.fresh) (lhs.valued.grow draws.grows)
      (rhs.spans.isSealed rhs.fits.drawn lhs.last rhs.last (lhs.tipsAs _))
  refine (Evaluates.push opened.fits rfl rfl ?_).after opened
  exact shape.draws (.moved .refl rfl rfl rfl)

/-- A conditional is evaluated behind the branch that was taken. -/
theorem Evaluates.conditional (cond : Evaluates first guarded b tested test)
    (onTrue : Evaluates first guarded { tested with tips := tested.tipsAs .onTrue } whenTrue one)
    (onFalse : Evaluates first guarded { whenTrue with tips := tested.tipsAs .onFalse } whenFalse
      other) :
    Evaluates first guarded b
      ({ whenFalse with tips := whenTrue.tips ++ whenFalse.tips }.push
        (.at id copying .conditional [test, one, other])).2 whenFalse.nodes.size := by
  have drawsTrue : Draws tested whenTrue := onTrue.draws.of_eq rfl rfl rfl
  have drawsFalse : Draws whenTrue whenFalse := onFalse.draws.of_eq rfl rfl rfl
  have before := (onTrue.after (cond.tested .onTrue)).toLists.withTips (tested.tipsAs .onFalse)
    (cond.tipsAs _ ▸ List.cons_ne_nil _ _)
    (fun tip member => (cond.fits.tipsAs _ tip member).grow drawsTrue.grows.size_le)
    (by
      intro tip member
      rw [cond.tipsAs] at member
      cases List.mem_singleton.1 member
      exact cond.fresh)
  have all := onFalse.after before
  rw [onTrue.tips, onFalse.tips]
  have opened := all.toLists.withTips [⟨one, .normal⟩, ⟨other, .normal⟩]
    (List.cons_ne_nil _ _) (by
      rintro tip (_ | ⟨_, _ | ⟨_, ⟨⟩⟩⟩)
      · exact onTrue.free.grow drawsFalse.grows.size_le
      · exact onFalse.free)
    (by
      rintro tip (_ | ⟨_, _ | ⟨_, ⟨⟩⟩⟩)
      · exact (onTrue.after (cond.tested .onTrue)).fresh
      · exact all.fresh)
  have first := onTrue.spans.isSealed onTrue.fits.drawn cond.last onTrue.last (cond.tipsAs _)
  have less := cond.lt_of_le onTrue.fresh
  have shape : whenFalse.Shape .conditional [test, one, other]
      [⟨one, .normal⟩, ⟨other, .normal⟩] :=
    .conditional less (onTrue.lt_of_le onFalse.fresh)
      (cond.valued.grow (drawsTrue.trans drawsFalse).grows)
      (first.draws drawsFalse (first.high_lt less))
      (onFalse.spans.isSealed onFalse.fits.drawn onTrue.last onFalse.last (cond.tipsAs _))
  refine (Evaluates.push opened.fits rfl rfl ?_).after opened
  exact shape.draws (.moved .refl rfl rfl rfl)

end Operators

mutual

/-- Every expression is evaluated, with its value last. -/
theorem Fits.expr {first b : Builder} {guarded : Nat → Prop} {scope : Scope}
    (fits : Fits first guarded b) (guards : ∀ id, scope.Guards id → guarded id) (copying : Bool)
    (value : Tree.Expr) :
    Evaluates first guarded b (b.expr scope copying value).2 (b.expr scope copying value).1 := by
  match value with
  | .literal id value => exact .push fits rfl rfl (.alone rfl _)
  | .ident id name => exact .push fits rfl rfl (.alone rfl _)
  | .assign id target value => exact (fits.expr guards copying value).single id copying rfl rfl
  | .binary id op lhs rhs =>
      have left := fits.expr guards copying lhs
      rw [Builder.expr]
      dsimp only
      split
      · rename_i isShort
        exact left.shortCircuit id copying
          ((left.tested (.evaluating op)).fits.expr guards copying rhs) isShort
      · rename_i isStrict
        have drawn := left.strict id copying (left.fits.expr guards copying rhs)
          (Bool.eq_false_iff.2 isStrict)
        split
        · exact drawn.raise guards
        · exact drawn
  | .unary id op operand => exact (fits.expr guards copying operand).single id copying rfl rfl
  | .conditional id cond whenTrue whenFalse =>
      have tested := fits.expr guards copying cond
      have onTrue := (tested.tested .onTrue).fits.expr guards copying whenTrue
      have free := fun tip member => (tested.fits.tipsAs .onFalse tip member).grow
        (onTrue.spans.size_le)
      exact tested.conditional id copying onTrue
        ((onTrue.fits.withTips free).expr guards copying whenFalse)
  | .call id callee args =>
      have operands := fits.exprs guards copying args
      exact ((Evaluates.push operands.fits rfl rfl (.plain rfl operands.valued)).after
        operands.toLists).raise guards
  | .new id ty args =>
      have operands := (fits.mention ty).exprs guards copying args
      have drawn : Lists first guarded b _ :=
        ⟨operands.fits, ⟨operands.spans.size_le, operands.spans.valued, operands.spans.entered,
          operands.spans.tips, operands.spans.linked, operands.spans.leadsOn⟩,
          operands.draws.of_eq rfl rfl rfl⟩
      exact ((Evaluates.push operands.fits rfl rfl (.plain rfl operands.valued)).after
        drawn).raise guards
  | .lambda id params body => exact .push fits rfl rfl (.alone rfl _)

theorem Fits.exprs {first b : Builder} {guarded : Nat → Prop} {scope : Scope}
    (fits : Fits first guarded b) (guards : ∀ id, scope.Guards id → guarded id)
    (copying : Bool) (values : List Tree.Expr) :
    EvaluatesAll first guarded b (b.exprs scope copying values).2
      (b.exprs scope copying values).1 := by
  match values with
  | [] => exact ⟨⟨fits, .refl fits.drawn, .refl⟩, fun _ never => nomatch never⟩
  | value :: values =>
      have head := fits.expr guards copying value
      have tail := head.fits.exprs guards copying values
      refine ⟨⟨tail.fits, head.spans.trans tail.spans tail.draws, head.draws.trans tail.draws⟩,
        fun node member => ?_⟩
      rcases List.mem_cons.1 member with rfl | later
      · exact head.valued.grow tail.draws.grows
      · exact tail.valued node later

end

end Builder

end FragmentFlow.Graph
