import FragmentFlow.Proofs.Coverage.Statements
import FragmentFlow.Proofs.Drawing.Steps
import FragmentFlow.Proofs.Tree.Conditions

/-!
# Ways on from a node

What a node evaluates says which edges have to leave it and which may.  While a graph is
drawn, the ways on from its nodes are edges, open or parked tips, and tips that have been
set aside for another branch.  No step of drawing loses a way: it only turns some of these
into others.
-/

namespace FragmentFlow.Graph

/-- Whether evaluation may go on without raising. -/
def Action.completes : Action → Bool
  | throwValue | rethrow => false
  | _ => true

/-- All actions but those that throw complete. -/
theorem Action.completes_of_ne {action : Action} (throws : action ≠ .throwValue)
    (rethrows : action ≠ .rethrow) : action.completes = true := by
  cases action with
  | throwValue => exact absurd rfl throws
  | rethrow => exact absurd rfl rethrows
  | _ => rfl

/-- An action that does not complete can throw. -/
theorem Action.canThrow_of_not_completes {action : Action} (stops : action.completes = false) :
    action.canThrow = true := by
  cases action with
  | throwValue | rethrow => rfl
  | _ => cases stops

/-- An edge of a kind will do where one of a certain kind is wanted: what leads on normally
may do so in any way but by raising. -/
def EdgeKind.Serves (wanted kind : EdgeKind) : Prop :=
  kind = wanted ∨ wanted = .normal ∧ kind ≠ .exception

theorem EdgeKind.Serves.trans {wanted kind other : EdgeKind} (first : wanted.Serves kind)
    (second : kind.Serves other) : wanted.Serves other := by
  rcases first with rfl | ⟨normal, raises⟩
  · exact second
  · rcases second with rfl | ⟨-, otherRaises⟩
    · exact Or.inr ⟨normal, raises⟩
    · exact Or.inr ⟨normal, otherRaises⟩

/-- Only a normal edge is served by one of another kind. -/
theorem EdgeKind.Serves.eq_of_ne {wanted kind : EdgeKind} (serves : wanted.Serves kind)
    (abnormal : wanted ≠ .normal) : kind = wanted :=
  serves.resolve_right fun served => abnormal served.1

/-- A normal way on is never an exception. -/
theorem EdgeKind.Serves.ne_exception {kind : EdgeKind} (serves : EdgeKind.normal.Serves kind) :
    kind ≠ .exception := by
  rcases serves with rfl | ⟨-, raises⟩
  · exact EdgeKind.noConfusion
  · exact raises

/-- One of two kinds is that of a true condition and the other that of a false one. -/
def EdgeKind.Opposite (kind other : EdgeKind) : Prop :=
  kind = .onTrue ∧ other = .onFalse ∨ kind = .onFalse ∧ other = .onTrue

theorem EdgeKind.Opposite.eq_or_eq {kind other third : EdgeKind} (opposite : kind.Opposite other)
    (conditional : third.isConditional = true) : third = kind ∨ third = other := by
  rcases opposite with ⟨rfl, rfl⟩ | ⟨rfl, rfl⟩ <;> cases third <;> simp_all [isConditional]

/-- An outcome of a condition is no exception. -/
theorem EdgeKind.Opposite.ne_exception {kind other : EdgeKind} (opposite : kind.Opposite other) :
    kind ≠ .exception ∧ other ≠ .exception := by
  rcases opposite with ⟨rfl, rfl⟩ | ⟨rfl, rfl⟩ <;>
    exact ⟨EdgeKind.noConfusion, EdgeKind.noConfusion⟩

namespace Node

/-- The kinds of edges that have to leave a node.  Some parts of the tree are marked as
conditions. -/
inductive Needs (marked : Nat → Prop) (node : Node) : EdgeKind → Prop
  | normal : node.action.completes = true → Needs marked node .normal
  | exception : node.action.canThrow = true → Needs marked node .exception
  | conditional {tree : Nat} {kind : EdgeKind} : node.tree = some tree → marked tree →
      kind.isConditional = true → Needs marked node kind

/-- The kinds of edges that may leave a node. -/
structure Allows (node : Node) (kind : EdgeKind) : Prop where
  raises : kind = .exception → node.action.canThrow = true
  stops : node.action.completes = false → kind = .exception

/-- A node that allows one way on allows every other that is no exception. -/
theorem Allows.of_ne {node : Node} {kind other : EdgeKind} (allows : node.Allows kind)
    (normal : kind ≠ .exception) (raises : other ≠ .exception) : node.Allows other :=
  ⟨fun same => absurd same raises, fun ends => absurd (allows.stops ends) normal⟩

/-- A node may have the edges that it has to have, unless it marks a condition and only
raises. -/
theorem Needs.allows {marked : Nat → Prop} {node : Node} {kind : EdgeKind}
    (completes : node.action.completes = true ∨ ∀ tree, node.tree = some tree → ¬ marked tree)
    (needs : node.Needs marked kind) : node.Allows kind := by
  cases needs with
  | normal goesOn => exact ⟨EdgeKind.noConfusion, fun ends => by rw [goesOn] at ends; cases ends⟩
  | exception throws => exact ⟨fun _ => throws, fun _ => rfl⟩
  | conditional isTree isMarked conditional =>
      rcases completes with goesOn | unmarked
      · refine ⟨fun raises => ?_, fun ends => ?_⟩
        · rw [raises] at conditional
          cases conditional
        · rw [goesOn] at ends
          cases ends
      · exact absurd isMarked (unmarked _ isTree)

/-- Some edge has to leave every node. -/
theorem exists_needs (marked : Nat → Prop) (node : Node) : ∃ kind, node.Needs marked kind := by
  cases completes : node.action.completes with
  | true => exact ⟨.normal, .normal completes⟩
  | false => exact ⟨.exception, .exception (Action.canThrow_of_not_completes completes)⟩

/-- A node that neither throws nor decides needs a normal way on. -/
theorem Needs.eq_normal {marked : Nat → Prop} {node : Node} {kind : EdgeKind}
    (needs : node.Needs marked kind) (quiet : node.action.canThrow = false)
    (unmarked : ∀ tree, node.tree = some tree → ¬ marked tree) : kind = .normal := by
  cases needs with
  | normal => rfl
  | exception throws =>
      rw [quiet] at throws
      cases throws
  | conditional isTree isMarked => exact absurd isMarked (unmarked _ isTree)

end Node

/-- An exception enters a catch clause or takes an exit. -/
theorem Scope.route_leads (scope : Scope) :
    (∃ entry, entry ∈ scope.route.1) ∨ ∃ exit, scope.route.2 = some exit := by
  induction scope with
  | nil => exact Or.inr ⟨.uncaught, rfl⟩
  | cons frame outer ih =>
      cases frame with
      | loop => exact ih
      | region handlers cleanup =>
          simp only [route]
          split
          · rename_i caught
            obtain ⟨handler, member, -⟩ := List.any_eq_true.1 caught
            exact Or.inl ⟨handler.entry, List.mem_map_of_mem member⟩
          · split
            · exact Or.inr ⟨_, rfl⟩
            · exact ih.imp_left fun caught =>
                caught.imp fun _ member => List.mem_append_right _ member

namespace Builder

variable {marked : Nat → Prop} {aside more : Tip → Prop} {b later : Builder}

/-- A tip waits for a target. -/
def Pending (b : Builder) (tip : Tip) : Prop :=
  tip ∈ b.tips ∨ ∃ exit, (exit, tip) ∈ b.parked

/-- There is a way on that will do for a tip: an edge, or a tip that waits or is set
aside. -/
def Leaves (b : Builder) (aside : Tip → Prop) (tip : Tip) : Prop :=
  ∃ kind, tip.kind.Serves kind ∧
    ((∃ target, { source := tip.source, target, kind : Edge } ∈ b.edges) ∨
      b.Pending ⟨tip.source, kind⟩ ∨ aside ⟨tip.source, kind⟩)

/-- A tip may start where it does. -/
def Suits (b : Builder) (tip : Tip) : Prop :=
  ∃ node, b.bare? tip.source = some node ∧ node.Allows tip.kind

/-- A tip that suits its node keeps suiting it. -/
theorem Suits.grow {tip : Tip} (suits : b.Suits tip) (grows : Grows b later) : later.Suits tip := by
  obtain ⟨node, found, allows⟩ := suits
  exact ⟨node, grows.nodes _ _ found, allows⟩

/-- A pending tip leaves its node. -/
theorem Leaves.of_pending {tip : Tip} (pending : b.Pending tip ∨ aside tip) : b.Leaves aside tip :=
  ⟨tip.kind, Or.inl rfl, Or.inr pending⟩

/-- An edge that serves another one leaves in its place. -/
theorem Leaves.of_serves {source : Nat} {wanted kind : EdgeKind} (serves : wanted.Serves kind)
    (leaves : b.Leaves aside ⟨source, kind⟩) : b.Leaves aside ⟨source, wanted⟩ := by
  obtain ⟨other, second, way⟩ := leaves
  exact ⟨other, serves.trans second, way⟩

/-- A tip that leaves its node keeps leaving it. -/
theorem Leaves.grow {tip : Tip} (leaves : b.Leaves aside tip) (grows : Grows b later)
    (kept : ∀ tip, b.Pending tip ∨ aside tip → later.Leaves more tip) : later.Leaves more tip := by
  obtain ⟨kind, serves, ⟨target, member⟩ | waits⟩ := leaves
  · exact ⟨kind, serves, Or.inl ⟨target, grows.edges _ member⟩⟩
  · exact (kept _ waits).of_serves serves

/-- No way is lost in a drawing: every node has a way on of each kind that it needs, and
what starts at a node may start there. -/
structure Whole (marked : Nat → Prop) (aside : Tip → Prop) (b : Builder) : Prop where
  nodes : ∀ id node kind, b.bare? id = some node → node.Needs marked kind →
    b.Leaves aside ⟨id, kind⟩
  edges : ∀ edge ∈ b.edges, b.Suits ⟨edge.source, edge.kind⟩
  tips : ∀ tip, b.Pending tip ∨ aside tip → b.Suits tip

namespace Whole

/-- What a step has to do so that no way is lost. -/
theorem grow (whole : Whole marked aside b) (grows : Grows b later)
    (nodes : ∀ id node kind, later.bare? id = some node → b.bare? id = none →
      node.Needs marked kind → later.Leaves more ⟨id, kind⟩)
    (edges : ∀ edge ∈ later.edges, edge ∈ b.edges ∨ later.Suits ⟨edge.source, edge.kind⟩)
    (kept : ∀ tip, b.Pending tip ∨ aside tip → later.Leaves more tip)
    (tips : ∀ tip, later.Pending tip ∨ more tip → later.Suits tip) : Whole marked more later where
  nodes id node kind found needs := by
    cases before : b.bare? id with
    | none => exact nodes id node kind found before needs
    | some other =>
        rw [grows.nodes id other before] at found
        cases found
        exact (whole.nodes id _ kind before needs).grow grows kept
  edges edge member := by
    rcases edges edge member with old | suits
    · exact (whole.edges edge old).grow grows
    · exact suits
  tips := tips

/-- Tips may be regrouped. -/
theorem regroup (whole : Whole marked aside b) (nodes : later.nodes = b.nodes)
    (edges : later.edges = b.edges)
    (same : ∀ tip, later.Pending tip ∨ more tip ↔ b.Pending tip ∨ aside tip) :
    Whole marked more later := by
  have grows : Grows b later := .of_eq nodes edges
  refine whole.grow grows ?_ ?_ ?_ ?_
  · intro id node kind found absent
    rw [bare?_of_eq nodes, absent] at found
    cases found
  · intro edge member
    rw [edges] at member
    exact Or.inl member
  · intro tip waits
    exact .of_pending ((same tip).2 waits)
  · intro tip waits
    exact (whole.tips tip ((same tip).1 waits)).grow grows

/-- The current place moves to tips that were set aside, and its own tips are set aside. -/
theorem swap {tips : List Tip} (whole : Whole marked (fun tip => tip ∈ tips ∨ aside tip) b) :
    Whole marked (fun tip => tip ∈ b.tips ∨ aside tip) { b with tips } := by
  refine whole.regroup rfl rfl fun tip => ?_
  simp only [Pending]
  tauto

/-- Tips that were set aside join those at the current place. -/
theorem join {tips joined : List Tip} (whole : Whole marked (fun tip => tip ∈ tips ∨ aside tip) b)
    (members : ∀ tip, tip ∈ joined ↔ tip ∈ b.tips ∨ tip ∈ tips) :
    Whole marked aside { b with tips := joined } := by
  refine whole.regroup rfl rfl fun tip => ?_
  simp only [Pending, members]
  tauto

theorem mention (whole : Whole marked aside b) (ty : String) : Whole marked aside (b.mention ty) :=
  whole.regroup rfl rfl fun _ => Iff.rfl

/-! ### Nodes and edges one by one -/

/-- The ways on from a new node are set aside. -/
theorem addNode (whole : Whole marked aside b) (node : Node)
    (allows : ∀ kind, node.bare.Needs marked kind → node.bare.Allows kind) :
    Whole marked
      (fun tip => (tip.source = b.nodes.size ∧ node.bare.Needs marked tip.kind) ∨ aside tip)
      (b.addNode node).2 := by
  have grows := Grows.addNode b node
  refine whole.grow grows ?_ ?_ ?_ ?_
  · intro id other kind found absent needs
    rw [bare?_addNode] at found
    split at found
    · rename_i isNew
      cases found
      exact .of_pending (Or.inr (Or.inl ⟨isNew, needs⟩))
    · rw [absent] at found
      cases found
  · intro edge member
    exact Or.inl member
  · intro tip waits
    exact .of_pending (waits.imp_right Or.inr)
  · rintro tip (waits | ⟨isNew, needs⟩ | set)
    · exact (whole.tips tip (Or.inl waits)).grow grows
    · exact ⟨node.bare, by rw [isNew, bare?_addNode, if_pos rfl], allows _ needs⟩
    · exact (whole.tips tip (Or.inr set)).grow grows

/-- The open tips end at a node, and the current place moves to tips that were set aside. -/
theorem connect {kept : List Tip} (whole : Whole marked (fun tip => tip ∈ kept ∨ aside tip) b)
    (target : Nat) : Whole marked aside { b.connect b.tips target with tips := kept } := by
  have grows : Grows b { b.connect b.tips target with tips := kept } :=
    (Grows.connect b b.tips target).trans (.of_eq rfl rfl)
  have parked : (b.connect b.tips target).parked = b.parked := by
    rw [connect_eq, parked_addEdges]
  refine whole.grow grows ?_ ?_ ?_ ?_
  · intro id node kind found absent
    have same := bare?_connect b b.tips target id
    rw [absent] at same
    cases same.symm.trans found
  · intro edge member
    rcases mem_edges_connect.1 member with old | ⟨isOpen, -⟩
    · exact Or.inl old
    · exact Or.inr ((whole.tips _ (Or.inl (Or.inl isOpen))).grow grows)
  · rintro tip ((isOpen | ⟨exit, isParked⟩) | isKept | set)
    · exact ⟨tip.kind, Or.inl rfl, Or.inl ⟨target, mem_edges_connect.2 (Or.inr ⟨isOpen, rfl⟩)⟩⟩
    · exact .of_pending (Or.inl (Or.inr ⟨exit, parked.symm ▸ isParked⟩))
    · exact .of_pending (Or.inl (Or.inl isKept))
    · exact .of_pending (Or.inr set)
  · rintro tip ((isKept | ⟨exit, isParked⟩) | set)
    · exact (whole.tips tip (Or.inr (Or.inl isKept))).grow grows
    · exact (whole.tips tip (Or.inl (Or.inr ⟨exit, parked ▸ isParked⟩))).grow grows
    · exact (whole.tips tip (Or.inr (Or.inr set))).grow grows

/-- A node raises what it has to. -/
theorem raise {source : Nat}
    (whole : Whole marked (fun tip => tip = ⟨source, .exception⟩ ∨ aside tip) b) (scope : Scope) :
    Whole marked aside (b.raise scope source) := by
  have grows := Grows.raise b scope source
  have suits : b.Suits ⟨source, .exception⟩ := whole.tips _ (Or.inr (Or.inl rfl))
  refine whole.grow grows ?_ ?_ ?_ ?_
  · intro id node kind found absent
    rw [bare?_raise, absent] at found
    cases found
  · intro edge member
    rcases mem_edges_raise.1 member with old | ⟨rfl, -, kind⟩
    · exact Or.inl old
    · rw [kind]
      exact Or.inr (suits.grow grows)
  · rintro tip ((isOpen | ⟨exit, isParked⟩) | rfl | set)
    · exact .of_pending (Or.inl (Or.inl (by rw [tips_raise]; exact isOpen)))
    · refine .of_pending (Or.inl (Or.inr ⟨exit, ?_⟩))
      rw [parked_raise]
      exact List.mem_append_left _ isParked
    · rcases scope.route_leads with ⟨entry, member⟩ | ⟨exit, found⟩
      · exact ⟨.exception, Or.inl rfl, Or.inl ⟨entry,
          mem_edges_raise.2 (Or.inr ⟨rfl, member, rfl⟩)⟩⟩
      · refine .of_pending (Or.inl (Or.inr ⟨exit, ?_⟩))
        rw [parked_raise, found]
        exact List.mem_append_right _ List.mem_cons_self
    · exact .of_pending (Or.inr set)
  · rintro tip ((isOpen | ⟨exit, isParked⟩) | set)
    · rw [tips_raise] at isOpen
      exact (whole.tips tip (Or.inl (Or.inl isOpen))).grow grows
    · rw [parked_raise] at isParked
      rcases List.mem_append.1 isParked with old | new
      · exact (whole.tips tip (Or.inl (Or.inr ⟨exit, old⟩))).grow grows
      · obtain ⟨_, -, same⟩ := List.mem_map.1 new
        cases same
        exact suits.grow grows
    · exact (whole.tips tip (Or.inr (Or.inr set))).grow grows

/-- Normal tips leave by an exit with another kind. -/
theorem jump (whole : Whole marked aside b) (exit : Exit) {kind : EdgeKind}
    (raises : kind ≠ .exception) : Whole marked aside (b.jump exit kind) := by
  have grows : Grows b (b.jump exit kind) := .of_eq rfl rfl
  have moved : ∀ tip ∈ b.tips, (exit, if tip.kind = .normal then { tip with kind } else tip) ∈
      (b.jump exit kind).parked := fun tip isOpen => List.mem_append_right _
    (List.mem_map.2 ⟨_, List.mem_map.2 ⟨tip, isOpen, rfl⟩, rfl⟩)
  refine whole.grow grows ?_ ?_ ?_ ?_
  · intro id node kind found absent
    cases absent.symm.trans found
  · intro edge member
    exact Or.inl member
  · rintro tip ((isOpen | ⟨other, isParked⟩) | set)
    · have isParked := moved tip isOpen
      split at isParked
      · rename_i normal
        exact ⟨kind, Or.inr ⟨normal, raises⟩, Or.inr (Or.inl (Or.inr ⟨exit, isParked⟩))⟩
      · exact .of_pending (Or.inl (Or.inr ⟨exit, isParked⟩))
    · exact .of_pending (Or.inl (Or.inr ⟨other, List.mem_append_left _ isParked⟩))
    · exact .of_pending (Or.inr set)
  · rintro tip ((isOpen | ⟨other, isParked⟩) | set)
    · cases isOpen
    · rcases List.mem_append.1 isParked with old | new
      · exact whole.tips tip (Or.inl (Or.inr ⟨other, old⟩))
      · obtain ⟨_, isMoved, same⟩ := List.mem_map.1 new
        cases same
        obtain ⟨before, isOpen, rfl⟩ := List.mem_map.1 isMoved
        have suits := whole.tips before (Or.inl (Or.inl isOpen))
        split
        · rename_i normal
          obtain ⟨node, found, allows⟩ := suits
          rw [normal] at allows
          exact ⟨node, found, allows.of_ne EdgeKind.noConfusion raises⟩
        · exact suits
    · exact whole.tips tip (Or.inr set)

/-! ### Conditions -/

end Whole

/-- A node that may be a condition has no branches yet. -/
def Undecided (marked : Nat → Prop) (tree : Option Nat) (source : Nat) (tip : Tip) : Prop :=
  ∃ id, tree = some id ∧ marked id ∧ tip.source = source ∧ tip.kind.isConditional = true

namespace Whole

/-- Nothing is undecided about a node that is not marked. -/
theorem decided {tree : Option Nat} {source : Nat}
    (whole : Whole marked (fun tip => Undecided marked tree source tip ∨ aside tip) b)
    (unmarked : ∀ id, tree = some id → ¬ marked id) : Whole marked aside b := by
  refine whole.regroup rfl rfl fun tip => or_congr_right ⟨Or.inr, ?_⟩
  rintro (⟨id, isTree, isMarked, -⟩ | set)
  · exact absurd isMarked (unmarked id isTree)
  · exact set

/-- Behind a condition, the current place moves to one branch and the other is set aside. -/
theorem branch {tree : Option Nat} {value : Nat} {kind other : EdgeKind}
    (whole : Whole marked (fun tip => Undecided marked tree value tip ∨ aside tip) b)
    (opened : b.tips = [⟨value, .normal⟩]) (opposite : kind.Opposite other) :
    Whole marked (fun tip => tip ∈ b.tipsAs other ∨ aside tip)
      { b with tips := b.tipsAs kind } := by
  have branches : ∀ kind, b.tipsAs kind = [⟨value, kind⟩] := fun kind => by rw [tipsAs, opened]; rfl
  obtain ⟨node, found, allows⟩ : b.Suits ⟨value, .normal⟩ :=
    whole.tips _ (Or.inl (Or.inl (by rw [opened]; exact List.mem_cons_self)))
  have suits : ∀ kind, kind ≠ .exception → b.Suits ⟨value, kind⟩ := fun kind raises =>
    ⟨node, found, allows.of_ne EdgeKind.noConfusion raises⟩
  refine whole.grow (.of_eq rfl rfl) ?_ ?_ ?_ ?_
  · intro id node kind found absent
    cases absent.symm.trans found
  · intro edge member
    exact Or.inl member
  · rintro ⟨source, tipKind⟩ ((isOpen | isParked) | ⟨id, -, -, rfl, conditional⟩ | set)
    · rw [opened] at isOpen
      cases List.mem_singleton.1 isOpen
      refine ⟨kind, Or.inr ⟨rfl, opposite.ne_exception.1⟩, Or.inr (Or.inl (Or.inl ?_))⟩
      rw [branches]
      exact List.mem_cons_self
    · exact .of_pending (Or.inl (Or.inr isParked))
    · rcases opposite.eq_or_eq conditional with rfl | rfl
      · exact .of_pending (Or.inl (Or.inl (by rw [branches]; exact List.mem_cons_self)))
      · exact .of_pending (Or.inr (Or.inl (by rw [branches]; exact List.mem_cons_self)))
    · exact .of_pending (Or.inr (Or.inr set))
  · rintro tip ((isOpen | isParked) | isOther | set)
    · rw [branches] at isOpen
      cases List.mem_singleton.1 isOpen
      exact suits kind opposite.ne_exception.1
    · exact whole.tips tip (Or.inl (Or.inr isParked))
    · rw [branches] at isOther
      cases List.mem_singleton.1 isOther
      exact suits other opposite.ne_exception.2
    · exact whole.tips tip (Or.inr (Or.inr set))

/-! ### A node at the current place -/

/-- The open tips end at a new node, and the current place moves to tips that were set
aside. -/
theorem pushAside {kept : List Tip} (whole : Whole marked (fun tip => tip ∈ kept ∨ aside tip) b)
    (node : Node) (allows : ∀ kind, node.bare.Needs marked kind → node.bare.Allows kind) :
    Whole marked
      (fun tip => (tip.source = b.nodes.size ∧ node.bare.Needs marked tip.kind) ∨ aside tip)
      { (b.push node).2 with tips := kept } := by
  have added := whole.addNode node allows
  have ordered : Whole marked (fun tip => tip ∈ kept ∨
      (tip.source = b.nodes.size ∧ node.bare.Needs marked tip.kind) ∨ aside tip)
      (b.addNode node).2 := added.regroup rfl rfl fun tip => or_congr_right or_left_comm
  exact ordered.connect b.nodes.size

/-- A node that only raises ends the current place. -/
theorem pushThrow {kept : List Tip} (whole : Whole marked (fun tip => tip ∈ kept ∨ aside tip) b)
    (scope : Scope) (node : Node) (stops : node.action.completes = false)
    (unmarked : ∀ id, node.tree = some id → ¬ marked id) :
    Whole marked aside ({ (b.push node).2 with tips := kept }.raise scope b.nodes.size) := by
  have throws := Action.canThrow_of_not_completes stops
  have drawn := whole.pushAside node fun _ needs => needs.allows (Or.inr unmarked)
  refine raise (drawn.regroup rfl rfl fun tip => or_congr_right (or_congr_left ?_)) scope
  constructor
  · rintro rfl
    exact ⟨rfl, .exception throws⟩
  · rintro ⟨isNew, needs⟩
    obtain ⟨source, kind⟩ := tip
    cases needs with
    | normal completes => cases stops.symm.trans completes
    | exception => exact congrArg (Tip.mk · _) isNew
    | conditional isTree isMarked => exact absurd isMarked (unmarked _ isTree)

/-- A node that completes has a tip for that, and may still have to raise or to branch. -/
theorem push (whole : Whole marked aside b) (node : Node)
    (completes : node.action.completes = true) :
    Whole marked
      (fun tip => (node.action.canThrow = true ∧ tip = ⟨b.nodes.size, .exception⟩) ∨
        Undecided marked node.tree b.nodes.size tip ∨ aside tip) (b.push node).2 := by
  have nothing : Whole marked (fun tip => tip ∈ [] ∨ aside tip) b :=
    whole.regroup rfl rfl fun tip => by simp
  refine (nothing.pushAside node fun _ needs => needs.allows (Or.inl completes)).regroup rfl rfl
    fun tip => ?_
  obtain ⟨source, kind⟩ := tip
  have needs : (⟨source, kind⟩ ∈ (b.push node).2.tips ∨
      (node.action.canThrow = true ∧ Tip.mk source kind = ⟨b.nodes.size, .exception⟩) ∨
        Undecided marked node.tree b.nodes.size ⟨source, kind⟩) ↔
      source = b.nodes.size ∧ node.bare.Needs marked kind := by
    constructor
    · rintro (isOpen | ⟨throws, same⟩ | ⟨id, isTree, isMarked, isNew, conditional⟩)
      · cases List.mem_singleton.1 isOpen
        exact ⟨rfl, .normal completes⟩
      · cases same
        exact ⟨rfl, .exception throws⟩
      · exact ⟨isNew, .conditional isTree isMarked conditional⟩
    · rintro ⟨rfl, needs⟩
      cases needs with
      | normal => exact Or.inl List.mem_cons_self
      | exception throws => exact Or.inr (Or.inl ⟨throws, rfl⟩)
      | conditional isTree isMarked conditional =>
          exact Or.inr (Or.inr ⟨_, isTree, isMarked, rfl, conditional⟩)
  simp only [Pending, ← needs, List.not_mem_nil, false_or]
  exact Iff.of_eq (by ac_rfl)

/-- A node that completes and cannot raise. -/
theorem pushQuiet (whole : Whole marked aside b) (node : Node)
    (completes : node.action.completes = true) (quiet : node.action.canThrow = false) :
    Whole marked (fun tip => Undecided marked node.tree b.nodes.size tip ∨ aside tip)
      (b.push node).2 := by
  refine (whole.push node completes).regroup rfl rfl fun tip => ?_
  simp [quiet]

/-- A node that completes or raises. -/
theorem pushRaise (whole : Whole marked aside b) (scope : Scope) (node : Node)
    (completes : node.action.completes = true) (throws : node.action.canThrow = true) :
    Whole marked (fun tip => Undecided marked node.tree b.nodes.size tip ∨ aside tip)
      ((b.push node).2.raise scope b.nodes.size) := by
  refine raise ((whole.push node completes).regroup rfl rfl fun tip => ?_) scope
  simp [throws]

/-- A node that completes, cannot raise and is not a condition. -/
theorem pushPlain (whole : Whole marked aside b) (node : Node)
    (completes : node.action.completes = true) (quiet : node.action.canThrow = false)
    (unmarked : ∀ id, node.tree = some id → ¬ marked id) : Whole marked aside (b.push node).2 :=
  (whole.pushQuiet node completes quiet).decided unmarked

end Whole

end Builder

end FragmentFlow.Graph
