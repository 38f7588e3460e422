import FragmentFlow.Proofs.Drawing.Discipline
import FragmentFlow.Proofs.Drawing.LoopHeads
import FragmentFlow.Proofs.Drawing.Straight

/-!
# Loops are entered at their heads

Control comes to the nodes of a statement only at the tips that were open before it,
and whatever leads to older nodes leads to the catch clauses around the statement.
The nodes drawn from the head of a loop to the last of its updates are therefore an
interval of numbers that control enters at the head alone.
-/

namespace FragmentFlow.Graph.Builder

/-- The nodes from the head of a loop to its last node, which control enters only at the
head. -/
structure LoopSpan (b : Builder) (head last : Nat) : Prop where
  le : head ≤ last
  bound : last < b.nodes.size
  inside : ∀ edge ∈ b.edges, head ≤ edge.target → edge.target ≤ last →
    edge.source ≤ last ∧ (head ≤ edge.source ∨ edge.target = head)

/-- Edges that end elsewhere may be added. -/
theorem LoopSpan.extend {b later : Builder} {head last : Nat} (span : b.LoopSpan head last)
    (larger : b.nodes.size ≤ later.nodes.size)
    (edges : ∀ edge ∈ later.edges, edge ∈ b.edges ∨ edge.target < head ∨ last < edge.target) :
    later.LoopSpan head last where
  le := span.le
  bound := Nat.lt_of_lt_of_le span.bound larger
  inside edge member above below := by
    rcases edges edge member with old | before | behind
    · exact span.inside edge old above below
    · exact absurd above (Nat.not_le.2 before)
    · exact absurd below (Nat.not_le.2 behind)

/-- Edges, tips and the entries of the catch clauses around a place are at nodes that
exist. -/
structure Bounded (scope : Scope) (b : Builder) : Prop where
  targets : ∀ edge ∈ b.edges, edge.target < b.nodes.size
  tips : ∀ tip ∈ b.tips, tip.source < b.nodes.size
  guards : ∀ id, scope.Guards id → id < b.nodes.size

theorem Bounded.push {scope : Scope} {b : Builder} (bounded : Bounded scope b) (node : Node) :
    Bounded scope (b.push node).2 where
  targets edge member := by
    rw [size_push]
    rcases mem_edges_push.1 member with old | ⟨-, target⟩
    · exact Nat.lt_succ_of_lt (bounded.targets edge old)
    · exact target ▸ Nat.lt_succ_self _
  tips tip member := by
    cases List.mem_singleton.1 member
    rw [size_push]
    exact Nat.lt_succ_self _
  guards id isGuard := Nat.lt_of_lt_of_le (bounded.guards id isGuard) (Grows.push b node).size_le

/-- Where control goes on is a node. -/
theorem Bounded.onward {scope : Scope} {b later : Builder} (bounded : Bounded scope b)
    (grows : Grows b later) {id : Nat} (onward : Onward b later id) : id < later.nodes.size := by
  rcases onward with fresh | ⟨tip, isOpen, rfl⟩
  · exact fresh.2
  · exact Nat.lt_of_lt_of_le (bounded.tips tip isOpen) grows.size_le

/-- What has been drawn behind one node is open at that node or behind it. -/
theorem Onward.of_push {b later : Builder} {node : Node} {id : Nat}
    (onward : Onward (b.push node).2 later id) (grows : Grows (b.push node).2 later) :
    Fresh b later id := by
  rcases onward with fresh | ⟨tip, isOpen, rfl⟩
  · exact fresh.since (.push b node)
  · cases List.mem_singleton.1 isOpen
    exact (fresh_push (.refl b) node).grow grows

/-- Code has been drawn that control enters at the open tips and leaves for catch clauses
around it, or at tips that are open or parked.  Its loops are entered at their heads. -/
structure Confined (scope : Scope) (b later : Builder) : Prop where
  grows : Grows b later
  edges : ∀ edge ∈ later.edges, edge ∈ b.edges ∨
    Onward b later edge.source ∧ (Fresh b later edge.target ∨ scope.Guards edge.target)
  tips : ∀ tip ∈ later.tips, Onward b later tip.source
  parked : ∀ entry ∈ later.parked, entry ∈ b.parked ∨ Onward b later entry.2.source
  loops : Bounded scope b → ∀ head, Fresh b later head → later.Loops head →
    ∃ last, later.LoopSpan head last

namespace Confined

variable {scope inside : Scope} {own : Option Nat → Prop} {b middle later : Builder}
  {copying : Bool} {node : Node} {tips : List Tip} {parked : List (Exit × Tip)}

theorem refl (b : Builder) : Confined scope b b where
  grows := .refl b
  edges _ member := Or.inl member
  tips tip member := Or.inr ⟨tip, member, rfl⟩
  parked _ member := Or.inl member
  loops _ _ fresh _ := absurd fresh.2 (Nat.not_lt.2 fresh.1)

/-- A confined step keeps within the bounds. -/
theorem bounded (confined : Confined scope b later) (bounded : Bounded scope b) :
    Bounded scope later where
  targets edge member := by
    rcases confined.edges edge member with old | ⟨-, fresh | isGuard⟩
    · exact Nat.lt_of_lt_of_le (bounded.targets edge old) confined.grows.size_le
    · exact fresh.2
    · exact Nat.lt_of_lt_of_le (bounded.guards _ isGuard) confined.grows.size_le
  tips tip member := bounded.onward confined.grows (confined.tips tip member)
  guards id isGuard := Nat.lt_of_lt_of_le (bounded.guards id isGuard) confined.grows.size_le

/-- Where a later step goes on, the whole goes on. -/
theorem onward (first : Confined scope b middle) (grows : Grows middle later) {id : Nat}
    (next : Onward middle later id) : Onward b later id := by
  rcases next with fresh | ⟨tip, member, rfl⟩
  · exact Or.inl (fresh.since first.grows)
  · exact (first.tips tip member).grow grows

/-- Further code may be drawn within catch clauses whose entries are there, unless a loop
has been drawn beside the entries. -/
theorem within (first : Confined scope b middle) (second : Confined inside middle later)
    (guards : ∀ id, inside.Guards id → scope.Guards id ∨ Fresh b middle id ∧ Unlooped b middle) :
    Confined scope b later where
  grows := first.grows.trans second.grows
  edges edge member := by
    rcases second.edges edge member with old | ⟨source, target⟩
    · refine (first.edges edge old).imp_right fun new => ⟨new.1.grow second.grows, ?_⟩
      exact new.2.imp_left fun fresh => fresh.grow second.grows
    · refine Or.inr ⟨first.onward second.grows source, ?_⟩
      rcases target with fresh | isGuard
      · exact Or.inl (fresh.since first.grows)
      · exact (guards _ isGuard).symm.imp_left fun entered => entered.1.grow second.grows
  tips tip member := first.onward second.grows (second.tips tip member)
  parked entry member := by
    rcases second.parked entry member with old | new
    · exact (first.parked entry old).imp_right fun source => source.grow second.grows
    · exact Or.inr (first.onward second.grows new)
  loops bounded head fresh isLoop := by
    have before := first.bounded bounded
    by_cases old : head < middle.nodes.size
    · have wasLoop : middle.Loops head := isLoop.imp fun _ found =>
        ⟨second.grows.bare?_of_lt old found.1, found.2⟩
      obtain ⟨last, span⟩ := first.loops bounded head ⟨fresh.1, old⟩ wasLoop
      refine ⟨last, span.extend second.grows.size_le fun edge member => ?_⟩
      refine (second.edges edge member).imp_right fun new => ?_
      rcases new.2 with target | isGuard
      · exact Or.inr (Nat.lt_of_lt_of_le span.bound target.1)
      · rcases guards _ isGuard with outer | ⟨-, unlooped⟩
        · exact Or.inl (Nat.lt_of_lt_of_le (bounded.guards _ outer) fresh.1)
        · obtain ⟨_, found, -⟩ := unlooped head wasLoop
          exact absurd (lt_size_of_bare? found) (Nat.not_lt.2 fresh.1)
    · refine second.loops ⟨before.targets, before.tips, fun id isGuard => ?_⟩ head
        ⟨Nat.le_of_not_lt old, fresh.2⟩ isLoop
      exact (guards id isGuard).elim (before.guards id) fun entered => entered.1.2

theorem trans (first : Confined scope b middle) (second : Confined scope middle later) :
    Confined scope b later :=
  first.within second fun _ isGuard => Or.inl isGuard

/-- More catch clauses may be around the code. -/
theorem widen (confined : Confined scope b later)
    (guards : ∀ id, scope.Guards id → inside.Guards id) : Confined inside b later where
  grows := confined.grows
  edges edge member := (confined.edges edge member).imp_right fun new =>
    ⟨new.1, new.2.imp_right (guards _)⟩
  tips := confined.tips
  parked := confined.parked
  loops bounded := confined.loops
    ⟨bounded.targets, bounded.tips, fun id isGuard => bounded.guards id (guards id isGuard)⟩

/-- The current place may move to where control has come, and so may what is parked. -/
theorem move (confined : Confined scope b later)
    (reached : ∀ tip ∈ tips, Onward b later tip.source)
    (others : ∀ entry ∈ parked, entry ∈ b.parked ∨ Onward b later entry.2.source) :
    Confined scope b { later with tips, parked } where
  grows := ⟨confined.grows.edges, confined.grows.nodes⟩
  edges := confined.edges
  tips := reached
  parked := others
  loops bounded head fresh isLoop := by
    obtain ⟨last, span⟩ := confined.loops bounded head fresh isLoop
    exact ⟨last, span.extend (Nat.le_refl _) fun _ member => Or.inl member⟩

theorem retip (confined : Confined scope b later)
    (reached : ∀ tip ∈ tips, Onward b later tip.source) :
    Confined scope b { later with tips } :=
  confined.move reached confined.parked

theorem tipsAs (confined : Confined scope b later) (kind : EdgeKind) :
    ∀ tip ∈ later.tipsAs kind, Onward b later tip.source := by
  intro tip member
  obtain ⟨old, present, rfl⟩ := List.mem_map.1 member
  exact confined.tips old present

/-- Control goes on at the tips behind a test, whatever their kind. -/
theorem tested (confined : Confined scope b later) (isTested : Bool) (kind : EdgeKind) :
    ∀ tip ∈ if isTested then later.tipsAs kind else later.tips, Onward b later tip.source := by
  split
  · exact confined.tipsAs kind
  · exact confined.tips

theorem jump (confined : Confined scope b later) (exit : Exit) (kind : EdgeKind) :
    Confined scope b (later.jump exit kind) := by
  refine confined.move (fun _ member => nomatch member) fun entry member => ?_
  rcases List.mem_append.1 member with old | new
  · exact confined.parked entry old
  · obtain ⟨tip, changed, rfl⟩ := List.mem_map.1 new
    obtain ⟨original, present, rfl⟩ := List.mem_map.1 changed
    have onward := confined.tips original present
    split <;> exact Or.inr onward

/-! ### Straight code -/

/-- A step without loops is confined. -/
theorem of_straight (straight : Straight scope own b later) (unlooped : Unlooped b later) :
    Confined scope b later where
  grows := straight.grows
  edges edge member := by
    rcases straight.edges edge member with old | ⟨source, target⟩ | ⟨source, target⟩
    · exact Or.inl old
    · exact Or.inr ⟨source, Or.inl target⟩
    · exact Or.inr ⟨Or.inl source, Or.inr (Scope.guards_of_mem_route target)⟩
  tips := straight.tips
  parked entry member := (straight.parked entry member).imp_right fun new => Or.inl new.1
  loops _ head fresh isLoop := by
    obtain ⟨_, found, -⟩ := unlooped head isLoop
    exact absurd (lt_size_of_bare? found) (Nat.not_lt.2 fresh.1)

/-- Nothing is asked of the parts of the tree. -/
theorem allOwn (node : Tree.Node) : node.AllOwn fun _ => True :=
  fun _ _ => trivial

theorem mention (b : Builder) (ty : String) : Confined scope b (b.mention ty) := by
  have straight : Straight scope (fun _ => True) b (b.mention ty) := .mention b ty
  exact of_straight straight (.of_bare? (bare?_of_eq rfl))

theorem push (b : Builder) (node : Node) (plain : node.action ≠ .loopHead) :
    Confined scope b (b.push node).2 := by
  have passed : Passed scope (fun _ => True) b (b.push node).2 :=
    (Straight.refl b).push node trivial
  exact of_straight passed.toStraight (.push b plain)

/-- An expression is confined. -/
theorem expr (scope : Scope) (copying : Bool) (b : Builder) (value : Tree.Expr) :
    Confined scope b (b.expr scope copying value).2 :=
  of_straight (Passed.expr scope copying b (allOwn _)).toStraight (.expr scope copying b value)

theorem exprs (scope : Scope) (copying : Bool) (b : Builder) (values : List Tree.Expr) :
    Confined scope b (b.exprs scope copying values).2 :=
  of_straight (Passed.exprs scope copying b fun _ _ => allOwn _) (.exprs scope copying b values)

theorem expr? (scope : Scope) (copying : Bool) (b : Builder) (value : Option Tree.Expr) :
    Confined scope b (b.expr? scope copying value).2 :=
  of_straight (Straight.expr? scope copying b fun _ _ => allOwn _) (.expr? scope copying b value)

/-- A node that can raise is confined. -/
theorem pushRaise (b : Builder) (node : Node) (plain : node.action ≠ .loopHead) :
    Confined scope b ((b.push node).2.raise scope b.nodes.size) := by
  have passed : Passed scope (fun _ => True) b ((b.push node).2.raise scope b.nodes.size) :=
    .pushRaise (.refl b) node trivial
  exact of_straight passed.toStraight ((Unlooped.push b plain).trans (.raise _ scope _))

/-- A node that raises an exception and has no other way out. -/
theorem throw (b : Builder) (node : Node) (plain : node.action ≠ .loopHead) :
    Confined scope b ({ (b.push node).2 with tips := [] }.raise scope b.nodes.size) := by
  have passed : Passed scope (fun _ => True) b (b.push node).2 :=
    (Straight.refl b).push node trivial
  have ended := passed.toStraight.retip [] fun _ member => nomatch member
  exact of_straight (ended.raise (fresh_push (.refl b) node))
    (((Unlooped.push b plain).trans (.of_bare? (bare?_of_eq rfl))).trans (.raise _ scope _))

theorem enterCatches (scope : Scope) (copying : Bool) (b : Builder) (clauses : List Tree.Catch) :
    Confined scope b (b.enterCatches copying clauses).2 := by
  have straight : Straight scope (fun _ => True) b (b.enterCatches copying clauses).2 :=
    .enterCatches scope copying b fun _ _ => trivial
  exact of_straight straight (.enterCatches copying b clauses)

/-! ### Frames -/

/-- Code is drawn within a frame. -/
theorem framed (first : Confined scope b middle)
    (reached : ∀ tip ∈ tips, Onward b middle tip.source)
    (second : Confined inside { middle with tips, parked := [] } later)
    (guards : ∀ id, inside.Guards id → scope.Guards id ∨ Fresh b middle id ∧ Unlooped b middle) :
    Confined scope { b with parked := [] } later := by
  have moved : Confined scope b { middle with tips, parked := [] } :=
    first.move reached fun _ member => nomatch member
  have started : Confined scope { b with parked := [] } { middle with tips, parked := [] } :=
    ⟨⟨moved.grows.edges, moved.grows.nodes⟩, moved.edges, moved.tips,
      fun _ member => (nomatch member),
      fun bounded => moved.loops ⟨bounded.targets, bounded.tips, bounded.guards⟩⟩
  exact started.within second guards

/-- A frame is left. -/
theorem leaveFrame {before : List (Exit × Tip)}
    (confined : Confined scope { b with parked := [] } later)
    (reached : ∀ tip ∈ tips, Onward b later tip.source)
    (others : ∀ entry ∈ before, entry ∈ b.parked ∨ Onward b later entry.2.source)
    (ending : List Exit) : Confined scope b { later.leaveFrame before ending with tips } := by
  have whole : Confined scope b later :=
    ⟨⟨confined.grows.edges, confined.grows.nodes⟩, confined.edges, confined.tips,
      fun entry member => Or.inr ((confined.parked entry member).resolve_left List.not_mem_nil),
      fun bounded => confined.loops ⟨bounded.targets, bounded.tips, bounded.guards⟩⟩
  refine whole.move reached fun entry member => ?_
  rcases List.mem_append.1 member with old | new
  · exact others entry old
  · exact whole.parked entry (List.mem_filter.1 new).1

/-- What is parked inside a frame was reached inside it. -/
theorem parkedUnder (confined : Confined scope { b with parked := [] } later) (exit : Exit) :
    ∀ tip ∈ later.parkedUnder exit, Onward b later tip.source := by
  intro tip member
  obtain ⟨entry, present, found⟩ := List.mem_filterMap.1 member
  split at found
  · cases found
    exact (confined.parked entry present).resolve_left List.not_mem_nil
  · cases found

/-- The updates of a loop are drawn behind its body. -/
theorem updated (tested : Confined scope b middle)
    (reached : ∀ tip ∈ tips, Onward b middle tip.source)
    (bodied : Confined (.loop :: scope) { middle with tips, parked := [] } later)
    (copying : Bool) (update : List Tree.Expr) :
    Confined scope b ((later.atUpdates scope middle.parked).exprs scope copying update).2 := by
  have framed := tested.framed reached bodied fun _ isGuard => Or.inl isGuard.of_loop
  refine Confined.trans (framed.leaveFrame (fun tip member => ?_) (fun entry member => ?_) _)
    (exprs scope copying _ update)
  · rcases List.mem_append.1 member with behind | continued
    · exact framed.tips tip behind
    · exact framed.parkedUnder _ tip continued
  · exact (tested.parked entry member).imp_right fun source =>
      source.grow ⟨bodied.grows.edges, bodied.grows.nodes⟩

section Closing

variable (inner : Confined scope (b.push node).2 later)
include inner

/-- A loop is closed by leading its last tips back to its head. -/
theorem edges_closed {edge : Edge} (member : edge ∈ (later.connect later.tips b.nodes.size).edges) :
    edge ∈ b.edges ∨ (⟨edge.source, edge.kind⟩ ∈ b.tips ∧ edge.target = b.nodes.size) ∨
      Fresh b later edge.source ∧ (edge.target = b.nodes.size ∨
        Fresh (b.push node).2 later edge.target ∨ scope.Guards edge.target) := by
  rcases mem_edges_connect.1 member with old | ⟨tip, target⟩
  · rcases inner.edges edge old with older | ⟨source, target⟩
    · exact (mem_edges_push.1 older).imp_right Or.inl
    · exact Or.inr (Or.inr ⟨source.of_push inner.grows, Or.inr target⟩)
  · exact Or.inr (Or.inr ⟨(inner.tips _ tip).of_push inner.grows, Or.inl target⟩)

/-- The head of a closed loop spans what was drawn since. -/
theorem loopSpan_closed (bounded : Bounded scope b) :
    (later.connect later.tips b.nodes.size).LoopSpan b.nodes.size (later.nodes.size - 1) := by
  have headed : Fresh b later b.nodes.size := (fresh_push (.refl b) node).grow inner.grows
  have grown := headed.2
  refine ⟨by omega, by rw [size_connect]; omega, fun edge member above below => ?_⟩
  rcases inner.edges_closed member with old | ⟨tip, target⟩ | ⟨⟨behind, before⟩, -⟩
  · exact absurd above (Nat.not_le.2 (bounded.targets edge old))
  · have entering : edge.source < b.nodes.size := bounded.tips _ tip
    exact ⟨by omega, Or.inr target⟩
  · exact ⟨by omega, Or.inl behind⟩

/-- The edges back to the head are confined. -/
theorem connectBack : Confined scope b (later.connect later.tips b.nodes.size) where
  grows := ((Grows.push b node).trans inner.grows).trans (.connect later _ _)
  edges edge member := by
    have grows := Grows.connect later later.tips b.nodes.size
    have headed : Fresh b later b.nodes.size := (fresh_push (.refl b) node).grow inner.grows
    rcases inner.edges_closed member with old | ⟨tip, target⟩ | ⟨source, target⟩
    · exact Or.inl old
    · exact Or.inr ⟨Or.inr ⟨_, tip, rfl⟩, Or.inl (target ▸ headed.grow grows)⟩
    · refine Or.inr ⟨Or.inl (source.grow grows), ?_⟩
      rcases target with back | fresh | isGuard
      · exact Or.inl (back ▸ headed.grow grows)
      · exact Or.inl ((fresh.since (.push b node)).grow grows)
      · exact Or.inr isGuard
  tips tip member := by
    rw [connect_eq, tips_addEdges] at member
    exact Or.inl (((inner.tips tip member).of_push inner.grows).grow (.connect later _ _))
  parked entry member := by
    rw [connect_eq, parked_addEdges] at member
    refine (inner.parked entry member).imp (fun old => parked_push b node ▸ old) fun new => ?_
    exact Or.inl ((new.of_push inner.grows).grow (.connect later _ _))
  loops bounded head fresh isLoop := by
    have wasLoop : later.Loops head := isLoop.imp fun _ found =>
      ⟨(bare?_connect later later.tips b.nodes.size head).symm.trans found.1, found.2⟩
    obtain ⟨above, bound⟩ := fresh
    rw [size_connect] at bound
    by_cases isHead : head = b.nodes.size
    · subst isHead
      exact ⟨_, inner.loopSpan_closed bounded⟩
    · -- the other loops lie behind the head
      have behind : Fresh (b.push node).2 later head := ⟨by rw [size_push]; omega, bound⟩
      obtain ⟨last, span⟩ := inner.loops (bounded.push node) head behind wasLoop
      refine ⟨last, span.extend (Nat.le_of_eq (size_connect ..).symm) fun edge member => ?_⟩
      refine (mem_edges_connect.1 member).imp_right fun new => Or.inl ?_
      have target := new.2
      omega

/-- A closed loop is confined. -/
theorem closed (reached : ∀ tip ∈ tips, Onward (b.push node).2 later tip.source) :
    Confined scope b { later.connect later.tips b.nodes.size with tips } :=
  inner.connectBack.retip fun tip member =>
    Or.inl (((reached tip member).of_push inner.grows).grow (.connect later _ _))

end Closing

/-! ### Statements -/

/-- A loop whose condition has been drawn behind its head. -/
theorem looping {exits : List Tip} {update : List Tree.Expr} {body : Tree.Block}
    (tested : Confined scope (b.push node).2 middle)
    (entering : ∀ tip ∈ tips, Onward (b.push node).2 middle tip.source)
    (leaving : ∀ tip ∈ exits, Onward (b.push node).2 middle tip.source)
    (drawn : ∀ b, Confined (.loop :: scope) b (stmts (.loop :: scope) copying b body.stmts)) :
    Confined scope b (middle.looping scope copying tips exits b.nodes.size update body) := by
  have bodied := drawn { middle with tips, parked := [] }
  have framed := tested.framed entering bodied fun _ isGuard => Or.inl isGuard.of_loop
  have updated := tested.updated entering bodied copying update
  rw [Builder.looping, closeLoop_eq]
  generalize stmts (.loop :: scope) copying { middle with tips, parked := [] } body.stmts = inner
    at bodied framed updated ⊢
  have further : Grows inner ((inner.atUpdates scope middle.parked).exprs scope copying update).2 :=
    have drawn := (Extends.exprs scope copying (inner.atUpdates scope middle.parked) update).grows
    ⟨drawn.edges, drawn.nodes⟩
  refine updated.closed fun tip member => ?_
  rcases List.mem_append.1 member with exit | broken
  · exact ((leaving tip exit).grow ⟨bodied.grows.edges, bodied.grows.nodes⟩).grow further
  · exact (framed.parkedUnder _ tip broken).grow further

theorem cleaningUp {raised : List Tip} {block : Tree.Block} (confined : Confined scope b later)
    (reached : ∀ tip ∈ raised, Onward b later tip.source)
    (drawn : ∀ b, Confined scope b (stmts scope true b block.stmts)) :
    Confined scope b (later.cleaningUp scope raised block) := by
  unfold Builder.cleaningUp
  split
  · exact confined
  · exact ((confined.retip reached).trans (drawn _)).trans (pushRaise _ _ (by nofun))

/-- The body of a `try` and its catch clauses, behind the entries of the clauses. -/
theorem guarded (b : Builder) {body : Tree.Block} {catches : List Tree.Catch}
    {cleanup : Option Tree.Block}
    (drawn : ∀ handlers b, Confined (.region handlers cleanup :: scope) b
      (stmts (.region handlers cleanup :: scope) copying b body.stmts))
    (caught : ∀ b middle entries, Confined (.region [] cleanup :: scope) b middle →
      (∀ entry ∈ entries, Onward b middle entry) → Confined (.region [] cleanup :: scope) b
        (clauses (.region [] cleanup :: scope) copying middle entries catches)) :
    Confined scope { b with parked := [] } ((b.enterCatches copying catches).2.guarded scope copying
      (b.enterCatches copying catches).1 body catches cleanup) := by
  have entered := enterCatches scope copying b catches
  have tried := drawn (b.enterCatches copying catches).1
    { (b.enterCatches copying catches).2 with parked := [] }
  have bodied := entered.framed entered.tips tried fun id isGuard =>
    isGuard.of_region.symm.imp_right fun member =>
      ⟨fresh_enterCatches member, .enterCatches copying b catches⟩
  refine (caught _ _ _ (bodied.widen fun _ isGuard => isGuard.inside _)
    fun entry member => ?_).widen fun _ isGuard => isGuard.of_clauses
  exact Or.inl ((fresh_enterCatches member).grow ⟨tried.grows.edges, tried.grows.nodes⟩)

/-- Each statement is confined if its parts are. -/
theorem drawingCases : DrawingCases
    (fun scope list => ∀ copying b, Confined scope b (stmts scope copying b list))
    (fun scope statement => ∀ copying b, Confined scope b (stmt scope copying b statement))
    (fun scope list => ∀ copying b middle entries, Confined scope b middle →
      (∀ entry ∈ entries, Onward b middle entry) →
        Confined scope b (clauses scope copying middle entries list))
    (fun scope => ∀ keep b, Confined scope b (unwind scope keep b)) where
  nil scope copying b := by
    rw [stmts_nil]
    exact refl b
  cons scope first rest head tail copying b := by
    rw [stmts_cons]
    exact (head copying b).trans (tail copying _)
  block scope inner drawn copying b := by
    rw [stmt_block]
    exact drawn copying b
  localDecl scope id name ty init copying b := by
    rw [stmt_localDecl]
    exact ((mention b ty).trans (expr? scope copying _ init)).trans (push _ _ (by nofun))
  exprStmt scope id value copying b := by
    rw [stmt_exprStmt]
    exact expr scope copying b value
  ifElse scope id cond whenTrue whenFalse first second copying b := by
    have tested := expr scope copying b cond
    have onTrue := (tested.retip (tested.tipsAs .onTrue)).trans (first copying _)
    have grows := (first copying { (b.expr scope copying cond).2 with
      tips := (b.expr scope copying cond).2.tipsAs .onTrue }).grows
    have others : ∀ tip ∈ (b.expr scope copying cond).2.tipsAs .onFalse, Onward b _ tip.source :=
      fun tip member => (tested.tipsAs .onFalse tip member).grow ⟨grows.edges, grows.nodes⟩
    cases whenFalse with
    | none =>
        rw [stmt_ifElse_none]
        refine onTrue.retip fun tip member => ?_
        rcases List.mem_append.1 member with one | other
        · exact onTrue.tips tip one
        · exact others tip other
    | some block =>
        rw [stmt_ifElse_some]
        have onFalse := (onTrue.retip others).trans (second block rfl copying _)
        refine onFalse.retip fun tip member => ?_
        rcases List.mem_append.1 member with one | other
        · exact (onTrue.tips tip one).grow
            (Extends.of_tips (Extends.stmts scope copying _ block.stmts)).grows
        · exact onFalse.tips tip other
  whileLoop scope id cond body drawn copying b := by
    rw [stmt_whileLoop]
    have tested := expr scope copying (b.push (.at id copying .loopHead [])).2 cond
    exact tested.looping (tested.tipsAs _) (tested.tipsAs _) (drawn copying)
  forLoop scope id init cond update body started drawn copying b := by
    rw [stmt_forLoop]
    have tested := expr? scope copying
      ((stmts scope copying b init).push (.at id copying .loopHead [])).2 cond
    refine (started copying b).trans (tested.looping (tested.tested _ _) ?_ (drawn copying))
    split
    · exact tested.tipsAs _
    · exact fun _ member => nomatch member
  returnValue scope id value left copying b := by
    rw [stmt_returnValue]
    exact (((expr? scope copying b value).trans (push _ _ (by nofun))).trans (left 0 _)).jump _ _
  breakLoop scope id left copying b := by
    cases found : scope.innermostLoop? with
    | none =>
        rw [stmt_breakLoop_outside scope copying b id found]
        exact (refl b).retip fun _ member => nomatch member
    | some frame =>
        rw [stmt_breakLoop scope copying b id found]
        exact (left (frame + 1) b).jump _ _
  continueLoop scope id left copying b := by
    cases found : scope.innermostLoop? with
    | none =>
        rw [stmt_continueLoop_outside scope copying b id found]
        exact (refl b).retip fun _ member => nomatch member
    | some frame =>
        rw [stmt_continueLoop scope copying b id found]
        exact (left (frame + 1) b).jump _ _
  throwValue scope id value copying b := by
    rw [stmt_throwValue]
    exact (expr scope copying b value).trans (throw _ _ (by nofun))
  tryCatch scope id body catches cleanup drawn caught finished copying b := by
    have tried := guarded b (fun handlers => drawn handlers copying) (caught copying)
    have left := tried.leaveFrame tried.tips
      (fun entry member => Or.inl (parked_enterCatches copying b catches ▸ member))
      [.cleanup scope.length]
    cases cleanup with
    | none =>
        rw [stmt_tryCatch_none]
        exact left
    | some block =>
        rw [stmt_tryCatch_some]
        have cleaned := left.cleaningUp (tried.parkedUnder (.cleanup scope.length))
          (finished block rfl true)
        refine (cleaned.retip fun tip member => ?_).trans (finished block rfl copying _)
        exact (left.tips tip member).grow
          (Extends.cleaningUp (Extends.stmts scope true · block.stmts)).grows
  noClause scope copying b middle entries confined reached := by
    rw [clauses_nil]
    exact confined
  clause scope clause rest drawn others copying b middle entries confined reached := by
    cases entries with
    | nil =>
        rw [clauses_noEntry]
        exact confined
    | cons entry entries =>
        rw [clauses_cons]
        have entering : ∀ tip ∈ [(⟨entry, .normal⟩ : Tip)], Onward b middle tip.source := by
          intro tip member
          cases List.mem_singleton.1 member
          exact reached entry List.mem_cons_self
        have bodied := (confined.retip entering).trans (drawn copying _)
        have grows : Grows middle _ := (Extends.of_tips (Extends.stmts scope copying
          { middle with tips := [(⟨entry, .normal⟩ : Tip)] } clause.body.stmts)).grows
        refine others copying b _ entries (bodied.retip fun tip member => ?_) fun other member => ?_
        · rcases List.mem_append.1 member with old | new
          · exact (confined.tips tip old).grow grows
          · exact bodied.tips tip new
        · exact (reached other (List.mem_cons_of_mem _ member)).grow ⟨grows.edges, grows.nodes⟩
  unwound keep b := by
    rw [unwind_nil]
    exact refl b
  unwind frame outer drawn left keep b := by
    by_cases kept : outer.length < keep
    · rw [unwind_kept b frame outer kept]
      exact refl b
    · cases present : frame.cleanup? with
      | none =>
          rw [unwind_left b frame outer (Nat.le_of_not_lt kept) present]
          exact (left keep b).widen fun _ isGuard => isGuard.inside frame
      | some block =>
          rw [unwind_cleanup b frame outer (Nat.le_of_not_lt kept) present]
          exact ((drawn block present true b).trans (left keep _)).widen
            fun _ isGuard => isGuard.inside frame

/-- Statements are confined. -/
theorem stmts (scope : Scope) (copying : Bool) (b : Builder) (list : List Tree.Stmt) :
    Confined scope b (b.stmts scope copying list) :=
  drawingCases.stmts scope list copying b

/-! ### Fragments -/

/-- A parameter is confined. -/
theorem pushParam (b : Builder) (name : String) :
    Confined scope b (b.push (.implicit (.param name) [])).2 :=
  push b _ Action.noConfusion

theorem params (b : Builder) (names : List String) : Confined scope b (b.params names) :=
  params_keep (motive := Confined scope b)
    (fun later name drawn => drawn.trans (pushParam later name)) (refl b) names

theorem typedParams (b : Builder) (list : List Source.Param) :
    Confined scope b (list.foldl (fun b param => (b.mention param.ty).params [param.name]) b) :=
  typedParams_keep (motive := Confined scope b)
    (fun later name drawn => drawn.trans (pushParam later name))
    (fun later ty drawn => drawn.trans (mention later ty)) (refl b) list

/-- The code of a fragment is confined. -/
theorem code (b : Builder) (code : Fragment.Code) : Confined [] b (b.code code) := by
  match code with
  | .method decl =>
      have bound : Confined [] b _ := typedParams b decl.params
      rw [Builder.code]
      cases decl.body with
      | none => exact bound
      | some body => exact bound.trans (stmts [] false _ body.stmts)
  | .lambda id names (.block body) => exact (params b names).trans (stmts [] false _ body.stmts)
  | .lambda id names (.value result) =>
      have drawn : Confined [] b _ := (params b names).trans (expr [] false _ result)
      exact (drawn.trans (push _ _ (by rintro ⟨⟩))).jump _ _
  | .initializer body => exact stmts [] false b body.stmts
  | .fieldInitializer decl init =>
      exact ((mention b decl.ty).trans (expr [] false _ init)).trans (push _ _ (by rintro ⟨⟩))

end Confined

end FragmentFlow.Graph.Builder
