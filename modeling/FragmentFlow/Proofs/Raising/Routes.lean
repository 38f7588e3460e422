import FragmentFlow.Proofs.Coverage.Statements
import FragmentFlow.Proofs.Drawing.TypeNames
import FragmentFlow.Proofs.Raising.Additions
import FragmentFlow.Proofs.Raising.Shields

/-!
# Where exceptions lead

The frames around a drawn place mirror the `try` statements around it in the tree.  A node
that raises gets its edges to catch clauses once, from these frames; nothing that is drawn
later adds one to it.  So they are those of the clauses that the exception comes to in the
tree, and the exception is parked for the end of the fragment if no `try` stops it.
-/

namespace FragmentFlow.Graph

/-- The entry of a catch clause in its place. -/
def catchEntry (clause : Tree.Catch) : Node :=
  .at clause.id false (.catchParam clause.name clause.ty) []

namespace Scope

variable {handlers : List Handler} {cleanup : Option Tree.Block} (outer : Scope)

/-- A clause that catches everything or a `finally` block is the end of the route. -/
theorem route_stopped (stops : (handlers.any Handler.catchesAll || cleanup.isSome) = true) :
    (route (.region handlers cleanup :: outer)).1 = handlers.map Handler.entry ∧
      (route (.region handlers cleanup :: outer)).2 ≠ some .uncaught := by
  rw [route]
  cases caught : handlers.any Handler.catchesAll with
  | true => exact ⟨rfl, (Option.some_ne_none _).symm⟩
  | false =>
      rw [caught, Bool.false_or] at stops
      rw [if_neg Bool.false_ne_true, if_pos stops]
      exact ⟨rfl, fun same => Exit.noConfusion (Option.some.inj same)⟩

/-- A region that neither catches everything nor cleans up lets an exception pass to what is
around it. -/
theorem route_passed (passes : (handlers.any Handler.catchesAll || cleanup.isSome) = false) :
    route (.region handlers cleanup :: outer) =
      (handlers.map Handler.entry ++ (route outer).1, (route outer).2) := by
  obtain ⟨caught, cleaned⟩ := Bool.or_eq_false_iff.1 passes
  rw [route, caught, cleaned, if_neg Bool.false_ne_true, if_neg Bool.false_ne_true]

end Scope

namespace Builder

variable {scope : Scope} {b middle later : Builder}

/-! ### Frames and shields -/

/-- Some nodes are the entries of some catch clauses, one by one. -/
def Enters (b : Builder) (entries : List Nat) (clauses : List Tree.Catch) : Prop :=
  entries.map b.bare? = clauses.map fun clause => some (catchEntry clause)

namespace Enters

variable {entries : List Nat} {clauses : List Tree.Catch}

/-- Every entry belongs to a clause. -/
theorem exists_clause (enters : b.Enters entries clauses) {entry : Nat} (member : entry ∈ entries) :
    ∃ clause ∈ clauses, b.bare? entry = some (catchEntry clause) := by
  have found : b.bare? entry ∈ entries.map b.bare? := List.mem_map_of_mem member
  rw [enters] at found
  obtain ⟨clause, isClause, same⟩ := List.mem_map.1 found
  exact ⟨clause, isClause, same.symm⟩

/-- Every clause has an entry. -/
theorem exists_entry (enters : b.Enters entries clauses) {clause : Tree.Catch}
    (member : clause ∈ clauses) : ∃ entry ∈ entries, b.bare? entry = some (catchEntry clause) := by
  have found : some (catchEntry clause) ∈ clauses.map fun clause => some (catchEntry clause) :=
    List.mem_map_of_mem member
  rw [← enters] at found
  exact List.mem_map.1 found

/-- Entries stay entries while the drawing grows. -/
theorem grow (enters : b.Enters entries clauses) (grows : Grows b later) :
    later.Enters entries clauses := by
  have same : entries.map later.bare? = entries.map b.bare? := by
    refine List.map_congr_left fun entry member => ?_
    obtain ⟨clause, -, found⟩ := enters.exists_clause member
    rw [found, grows.nodes entry _ found]
  exact same.trans enters

/-- Entries of two lists of clauses are entries of both together. -/
theorem append {more : List Nat} {others : List Tree.Catch} (first : b.Enters entries clauses)
    (second : b.Enters more others) : b.Enters (entries ++ more) (clauses ++ others) := by
  rw [Enters, List.map_append, List.map_append, first, second]

end Enters

/-- Catch clauses get entries of their own. -/
theorem enters_enterCatches (b : Builder) (catches : List Tree.Catch) :
    (b.enterCatches false catches).2.Enters ((b.enterCatches false catches).1.map Handler.entry)
      catches := by
  induction catches generalizing b with
  | nil => rfl
  | cons clause catches ih =>
      let entered := ((b.mention clause.ty).addNode (catchEntry clause)).2
      have first : (entered.enterCatches false catches).2.bare? b.nodes.size =
          some (catchEntry clause) := by
        apply (Extends.enterCatches false entered catches).grows.nodes
        exact (bare?_addNode _ _ _).trans (if_pos rfl)
      exact congrArg₂ List.cons first (ih entered)

/-- Frames inside some others, with the `try` statements among them, innermost first. -/
inductive Mirrors (b : Builder) (scope : Scope) : List Tree.Shield → Scope → Prop
  | stay : Mirrors b scope [] scope
  | loop {shields : List Tree.Shield} {inner : Scope} :
      Mirrors b scope shields inner → Mirrors b scope shields (.loop :: inner)
  | region {handlers : List Handler} {clauses : List Tree.Catch} {cleanup : Option Tree.Block}
      {shields : List Tree.Shield} {inner : Scope} :
      b.Enters (handlers.map Handler.entry) clauses →
        handlers.any Handler.catchesAll = Tree.stopsAll clauses → Mirrors b scope shields inner →
        Mirrors b scope (⟨clauses, cleanup.isSome⟩ :: shields) (.region handlers cleanup :: inner)

namespace Mirrors

variable {shields outer : List Tree.Shield} {inner : Scope}

/-- Frames stay mirrored while the drawing grows. -/
theorem grow (mirrors : b.Mirrors scope shields inner) (grows : Grows b later) :
    later.Mirrors scope shields inner := by
  induction mirrors with
  | stay => exact .stay
  | loop _ ih => exact .loop ih
  | region enters stops _ ih => exact .region (enters.grow grows) stops ih

/-- Mirrors of inner and outer frames make up a mirror of all. -/
theorem trans {frames : Scope} (mirrors : b.Mirrors frames shields inner)
    (around : b.Mirrors scope outer frames) : b.Mirrors scope (shields ++ outer) inner := by
  induction mirrors with
  | stay => exact around
  | loop _ ih => exact .loop ih
  | region enters stops _ ih => exact .region enters stops ih

/-- A region without handlers mirrors a shield without clauses. -/
theorem region_nil (b : Builder) (scope : Scope) (cleanup : Option Tree.Block) :
    b.Mirrors scope [⟨[], cleanup.isSome⟩] (.region [] cleanup :: scope) :=
  .region (show b.Enters [] [] from rfl) rfl .stay

/-- An exception enters the clauses on its walk, and it is not caught if no `try` around
it stops it. -/
theorem route {tries : List Tree.Try} {id : Nat}
    (mirrors : b.Mirrors [] (tries.map fun attempt => attempt.shield id) inner) :
    b.Enters inner.route.1 ((Tree.walk id tries).flatMap fun attempt => attempt.clausesFor id) ∧
      (inner.route.2 = some .uncaught ↔ ∀ attempt ∈ tries, attempt.stops id = false) := by
  generalize same : (tries.map fun attempt => attempt.shield id) = shields at mirrors
  induction mirrors generalizing tries with
  | stay =>
      cases List.map_eq_nil_iff.1 same
      exact ⟨rfl, iff_of_true rfl fun attempt never => by cases never⟩
  | loop _ ih => exact ih same
  | @region handlers clauses cleanup shields inner enters stops _ ih =>
      obtain ⟨attempt, tries, rfl, here, further⟩ := List.map_eq_cons_iff.1 same
      obtain ⟨entered, uncaught⟩ := ih further
      obtain ⟨sameClauses, sameCleanup⟩ := Tree.Shield.mk.inj here
      have isStop : attempt.stops id = (handlers.any Handler.catchesAll || cleanup.isSome) := by
        rw [Tree.Try.stops, sameClauses, sameCleanup, stops]
      cases stopped : attempt.stops id with
      | true =>
          obtain ⟨entries, caught⟩ := Scope.route_stopped inner (isStop.symm.trans stopped)
          refine ⟨?_, iff_of_false caught fun none => ?_⟩
          · rw [entries, Tree.walk, if_pos stopped, List.flatMap_singleton, sameClauses]
            exact enters
          · exact Bool.false_ne_true ((none attempt List.mem_cons_self).symm.trans stopped)
      | false =>
          rw [Scope.route_passed inner (isStop.symm.trans stopped), Tree.walk, stopped,
            if_neg Bool.false_ne_true, List.flatMap_cons, sameClauses, List.forall_mem_cons,
            eq_true stopped, true_and]
          exact ⟨enters.append entered, uncaught⟩

end Mirrors

/-! ### Raising -/

/-- Edges to catch clauses and uncaught exceptions come from nodes that are there. -/
structure Settled (b : Builder) : Prop where
  sources : ∀ edge ∈ b.edges, edge.source < b.nodes.size ∨ b.Plain edge.target
  parked : ∀ tip, (Exit.uncaught, tip) ∈ b.parked → tip.source < b.nodes.size

namespace Settled

/-- A settled drawing stays settled. -/
theorem adds {own : Nat → Nat} (settled : b.Settled) (adds : Adds scope own b later) :
    later.Settled where
  sources edge member := by
    rcases adds.sources edge member with old | fresh | plain
    · rcases settled.sources edge old with bound | plain
      · exact Or.inl (Nat.lt_of_lt_of_le bound adds.grows.size_le)
      · exact Or.inr (plain.grow adds.grows)
    · exact Or.inl fresh.2
    · exact Or.inr plain
  parked tip member := by
    rcases adds.exits _ member with old | ⟨-, fresh⟩
    · exact Nat.lt_of_lt_of_le (settled.parked tip old) adds.grows.size_le
    · exact (fresh rfl).1.2

/-- The tips of a settled drawing do not count. -/
theorem retip (settled : b.Settled) (tips : List Tip) : Settled { b with tips } :=
  ⟨settled.sources, settled.parked⟩

/-- Mentioning a type keeps a drawing settled. -/
theorem mention (settled : b.Settled) (ty : String) : (b.mention ty).Settled :=
  ⟨settled.sources, settled.parked⟩

/-- A drawing is settled when a frame is entered. -/
theorem enterFrame (settled : b.Settled) (tips : List Tip) :
    Settled { b with tips, parked := [] } where
  sources := settled.sources
  parked _ never := by cases never

end Settled

/-- A node stands for a part of the tree in its place and has raised within some frames. -/
structure Raised (b : Builder) (tree id : Nat) (scope : Scope) : Prop where
  original : ∃ node, b.bare? id = some node ∧ node.isOriginal tree = true
  entered : ∀ target ∈ scope.route.1, ⟨id, target, .exception⟩ ∈ b.edges
  targets : ∀ edge ∈ b.edges, edge.source = id → edge.target ∈ scope.route.1 ∨ b.Plain edge.target
  leaves : scope.route.2 = some .uncaught → (Exit.uncaught, ⟨id, .exception⟩) ∈ b.parked
  uncaught : ∀ tip, (Exit.uncaught, tip) ∈ b.parked → tip.source = id →
    scope.route.2 = some .uncaught

/-- A node raises right after it was drawn. -/
theorem raised_push (settled : b.Settled) (scope : Scope) {node : Node} {tree : Nat}
    (plain : node.action.isCatch = false) (original : node.isOriginal tree = true)
    (tips : List Tip) :
    Raised ({ (b.push node).2 with tips }.raise scope b.nodes.size) tree b.nodes.size scope where
  original := by
    refine ⟨node.bare, ?_, original⟩
    rw [bare?_raise]
    exact bare?_push_self b node
  entered target member := mem_edges_raise.2 (Or.inr ⟨rfl, member, rfl⟩)
  targets edge member isSource := by
    have grows : Grows b ({ (b.push node).2 with tips }.raise scope b.nodes.size) :=
      ((Extends.push b node).to_tips tips).grows.trans (.raise _ scope _)
    rcases mem_edges_raise.1 member with drawn | ⟨-, isTarget, -⟩
    · rcases mem_edges_push.1 drawn with old | ⟨-, isNew⟩
      · rcases settled.sources edge old with bound | isPlain
        · exact absurd isSource (Nat.ne_of_lt bound)
        · exact Or.inr (isPlain.grow grows)
      · refine Or.inr ⟨node.bare, ?_, plain⟩
        rw [isNew, bare?_raise]
        exact bare?_push_self b node
    · exact Or.inl isTarget
  leaves found := by
    rw [parked_raise, found]
    exact List.mem_append_right _ List.mem_cons_self
  uncaught tip member isSource := by
    rw [parked_raise] at member
    rcases List.mem_append.1 member with old | new
    · have before : (Exit.uncaught, tip) ∈ b.parked := parked_push b node ▸ old
      exact absurd isSource (Nat.ne_of_lt (settled.parked tip before))
    · obtain ⟨exit, found, same⟩ := List.mem_map.1 new
      cases same
      exact Option.mem_toList.1 found

namespace Raised

variable {tree id : Nat} {inner : Scope}

/-- A node that has raised is a node. -/
theorem lt_size (raised : Raised b tree id inner) : id < b.nodes.size := by
  obtain ⟨node, found, -⟩ := raised.original
  exact lt_size_of_bare? found

/-- A node that has raised stays one. -/
theorem grow {own : Nat → Nat} (raised : Raised b tree id inner) (adds : Adds scope own b later) :
    Raised later tree id inner where
  original := by
    obtain ⟨node, found, original⟩ := raised.original
    exact ⟨node, adds.grows.nodes id node found, original⟩
  entered target member := adds.grows.edges _ (raised.entered target member)
  targets edge member isSource := by
    rcases adds.sources edge member with old | fresh | plain
    · exact (raised.targets edge old isSource).imp_right fun plain => plain.grow adds.grows
    · exact absurd isSource (Nat.ne_of_gt (Nat.lt_of_lt_of_le raised.lt_size fresh.1))
    · exact Or.inr plain
  leaves found := adds.parked _ (raised.leaves found)
  uncaught tip member isSource := by
    rcases adds.exits _ member with old | ⟨-, fresh⟩
    · exact raised.uncaught tip old isSource
    · exact absurd isSource (Nat.ne_of_gt (Nat.lt_of_lt_of_le raised.lt_size (fresh rfl).1.1))

/-- What was parked before a frame does not come from nodes inside it. -/
theorem leaveFrame (raised : Raised later tree id inner) (settled : b.Settled)
    (inside : b.nodes.size ≤ id) {ending : List Exit} (stays : Exit.uncaught ∉ ending) :
    Raised (later.leaveFrame b.parked ending) tree id inner where
  original := raised.original
  entered := raised.entered
  targets := raised.targets
  leaves found := by
    refine List.mem_append_right _ (List.mem_filter.2 ⟨raised.leaves found, ?_⟩)
    simpa using stays
  uncaught tip member isSource := by
    rcases List.mem_append.1 member with before | new
    · have bound := Nat.lt_of_lt_of_le (settled.parked tip before) inside
      exact absurd isSource (Nat.ne_of_lt bound)
    · exact raised.uncaught tip (List.mem_filter.1 new).1 isSource

end Raised

/-! ### From the tree to the drawing -/

/-- A part of the tree that lies within some shields has been drawn in its place and
raises there, inside the frames of these shields. -/
def Reached (scope : Scope) (b later : Builder) (tree : Nat) (shields : List Tree.Shield) : Prop :=
  ∃ id inner, Fresh b later id ∧ later.Mirrors scope shields inner ∧ later.Raised tree id inner

namespace Reached

variable {tree : Nat} {shields outer : List Tree.Shield}

/-- What has been reached stays reached. -/
theorem grow {own : Nat → Nat} (reached : Reached scope b middle tree shields)
    (adds : Adds scope own middle later) : Reached scope b later tree shields := by
  obtain ⟨id, inner, fresh, mirrors, raised⟩ := reached
  exact ⟨id, inner, fresh.grow adds.grows, mirrors.grow adds.grows, raised.grow adds⟩

/-- What a later part of a drawing reaches, the whole of it reaches. -/
theorem since (reached : Reached scope middle later tree shields) (grows : Grows b middle) :
    Reached scope b later tree shields := by
  obtain ⟨id, inner, fresh, mirrors, raised⟩ := reached
  exact ⟨id, inner, fresh.since grows, mirrors, raised⟩

/-- What is drawn inside a frame is within one more shield outside it. -/
theorem leaveFrame {frame : Frame} {tips : List Tip}
    (reached : Reached (frame :: scope) { b with tips, parked := [] } later tree shields)
    (settled : b.Settled) (around : later.Mirrors scope outer (frame :: scope))
    {ending : List Exit} (stays : Exit.uncaught ∉ ending) :
    Reached scope b (later.leaveFrame b.parked ending) tree (shields ++ outer) := by
  obtain ⟨id, inner, fresh, mirrors, raised⟩ := reached
  exact ⟨id, inner, fresh, (mirrors.trans around).grow (.of_eq rfl rfl),
    raised.leaveFrame settled fresh.1 stays⟩

/-- A `finally` block and its copies are drawn behind what they protect. -/
theorem cleanedUp {raised tips : List Tip} (reached : Reached scope b later tree shields)
    (last : Tree.Block) :
    Reached scope b (stmts scope false { later.cleaningUp scope raised last with tips } last.stmts)
      tree shields :=
  reached.grow ((Adds.cleaningUp fun b => Adds.copies scope b last.stmts).trans
    (Adds.of_tips (Adds.stmts scope false _ last.stmts)))

end Reached

/-- All that raises at a node and below it has been drawn as its shields say. -/
def Routed (scope : Scope) (b later : Builder) (node : Tree.Node) : Prop :=
  ∀ leaf shields, Tree.Shielded node leaf shields → leaf.raises = true →
    Reached scope b later leaf.id shields

namespace Routed

variable {node : Tree.Node}

/-- What has been routed stays routed. -/
theorem grow {own : Nat → Nat} (routed : Routed scope b middle node)
    (adds : Adds scope own middle later) : Routed scope b later node :=
  fun leaf shields shielded raises => (routed leaf shields shielded raises).grow adds

/-- What a later part of a drawing routes, the whole of it routes. -/
theorem since (routed : Routed scope middle later node) (grows : Grows b middle) :
    Routed scope b later node :=
  fun leaf shields shielded raises => (routed leaf shields shielded raises).since grows

/-- A node that is no `try` adds no shield. -/
theorem of_parts (other : node.try? = none)
    (self : node.raises = true → Reached scope b later node.id [])
    (parts : node.isLambda = false → ∀ child ∈ node.children, Routed scope b later child) :
    Routed scope b later node := by
  intro leaf shields shielded raises
  cases shielded with
  | here => exact self raises
  | inner outside _ isChild shielded => exact parts outside _ isChild leaf shields shielded raises
  | body | clause | cleanup => cases other

/-- A node that does not raise itself. -/
theorem of_children (other : node.try? = none) (silent : node.raises = false)
    (parts : node.isLambda = false → ∀ child ∈ node.children, Routed scope b later child) :
    Routed scope b later node :=
  of_parts other (fun raises => absurd (silent.symm.trans raises) Bool.false_ne_true) parts

/-- A block is routed if its statements are. -/
theorem block {inner : Tree.Block}
    (parts : ∀ statement ∈ inner.stmts, Routed scope b later (.stmt statement)) :
    Routed scope b later inner.toNode := by
  refine of_children rfl rfl fun _ child isChild => ?_
  obtain ⟨statement, member, rfl⟩ := List.mem_map.1 isChild
  exact parts statement member

/-- A node that raises when it is drawn, behind its operands. -/
theorem reached_push {own : Nat → Nat} (settled : b.Settled) (drawn : Adds scope own b middle)
    (id : Nat) {action : Action} {operands : List Nat} (plain : action.isCatch = false)
    (tips : List Tip) :
    Reached scope b ({ (middle.push (.at id false action operands)).2 with tips }.raise scope
      middle.nodes.size) id [] := by
  have original : (Node.at id false action operands).isOriginal id = true := by
    simp [Node.isOriginal, Node.at]
  have raised := raised_push (settled.adds drawn) scope plain original tips
  exact ⟨middle.nodes.size, scope, ⟨drawn.grows.size_le, raised.lt_size⟩, .stay, raised⟩

/-- A binary operator raises if it can throw. -/
theorem raises_binary (id : Nat) (op : BinaryOp) (lhs rhs : Tree.Expr) :
    (Tree.Node.expr (.binary id op lhs rhs)).raises = op.canThrow := by
  cases op <;> rfl

mutual

/-- All parts of an expression are routed. -/
theorem expr (scope : Scope) {b : Builder} (settled : b.Settled) (value : Tree.Expr) :
    Routed scope b (b.expr scope false value).2 (.expr value) := by
  match value with
  | .literal id value => exact .of_children rfl rfl fun _ child never => by cases never
  | .ident id name => exact .of_children rfl rfl fun _ child never => by cases never
  | .assign id target value =>
      refine .of_children rfl rfl fun _ child isChild => ?_
      cases List.mem_singleton.1 isChild
      exact (expr scope settled value).grow (Adds.push _ _ rfl)
  | .binary id op lhs rhs =>
      have left := Adds.expr scope false b lhs
      have first := expr scope settled lhs
      have between := settled.adds left
      rw [Builder.expr]
      dsimp only
      split
      · -- an operator that may skip its right operand does not raise
        rename_i isShort
        have silent : op.canThrow = false := by
          cases op <;> first | rfl | cases isShort
        refine .of_children rfl ((raises_binary id op lhs rhs).trans silent)
          fun _ child isChild => ?_
        rcases List.mem_cons.1 isChild with rfl | isSecond
        · exact (first.grow (Adds.of_tips (Adds.expr scope false _ rhs))).grow
            (Adds.of_tips (Adds.push _ _ rfl))
        · cases List.mem_singleton.1 isSecond
          exact ((expr scope (between.retip _) rhs).since (left.to_tips _).grows).grow
            (Adds.of_tips (Adds.push _ _ rfl))
      · have second := (expr scope between rhs).since left.grows
        have right := Adds.expr scope false (b.expr scope false lhs).2 rhs
        have parts : ∀ child ∈ [Tree.Node.expr lhs, .expr rhs], Routed scope b
            ((b.expr scope false lhs).2.expr scope false rhs).2 child := by
          intro child isChild
          rcases List.mem_cons.1 isChild with rfl | isSecond
          · exact first.grow right
          · cases List.mem_singleton.1 isSecond
            exact second
        split
        · refine .of_parts rfl (fun _ => reached_push settled (left.trans right) id rfl _)
            fun _ child isChild => ?_
          exact (parts child isChild).grow ((Adds.refl _).pushRaise _ rfl)
        · rename_i silent
          refine .of_children rfl ?_ fun _ child isChild => ?_
          · rw [raises_binary]
            exact Bool.eq_false_of_not_eq_true silent
          · exact (parts child isChild).grow (Adds.push _ _ rfl)
  | .unary id op operand =>
      refine .of_children rfl rfl fun _ child isChild => ?_
      cases List.mem_singleton.1 isChild
      exact (expr scope settled operand).grow (Adds.push _ _ rfl)
  | .conditional id cond whenTrue whenFalse =>
      have tested := Adds.expr scope false b cond
      have between := settled.adds tested
      have onTrue := Adds.expr scope false
        { (b.expr scope false cond).2 with tips := (b.expr scope false cond).2.tipsAs .onTrue }
        whenTrue
      refine .of_children rfl rfl fun _ child isChild => ?_
      simp only [Tree.Node.children, Tree.Expr.children, List.mem_cons, List.not_mem_nil,
        or_false] at isChild
      rcases isChild with rfl | rfl | rfl
      · exact (((expr scope settled cond).grow (Adds.of_tips onTrue)).grow
          (Adds.of_tips (Adds.expr scope false _ whenFalse))).grow
            (Adds.of_tips (Adds.push _ _ rfl))
      · exact (((expr scope (between.retip _) whenTrue).since (tested.to_tips _).grows).grow
          (Adds.of_tips (Adds.expr scope false _ whenFalse))).grow
            (Adds.of_tips (Adds.push _ _ rfl))
      · exact ((expr scope (((between.retip _).adds onTrue).retip _) whenFalse).since
          ((tested.trans (Adds.of_tips onTrue)).to_tips _).grows).grow
            (Adds.of_tips (Adds.push _ _ rfl))
  | .call id callee args =>
      have drawn := Adds.exprs scope false b args
      refine .of_parts rfl (fun _ => reached_push settled drawn id rfl _) fun _ child isChild => ?_
      obtain ⟨arg, member, rfl⟩ := List.mem_map.1 isChild
      exact (exprs scope settled args arg member).grow ((Adds.refl _).pushRaise _ rfl)
  | .new id ty args =>
      have drawn := Adds.of_mention (Adds.exprs scope false (b.mention ty) args)
      refine .of_parts rfl (fun _ => reached_push settled drawn id rfl _) fun _ child isChild => ?_
      obtain ⟨arg, member, rfl⟩ := List.mem_map.1 isChild
      exact ((exprs scope (settled.mention ty) args arg member).since (.of_eq rfl rfl)).grow
        ((Adds.refl _).pushRaise _ rfl)
  | .lambda id params body => exact .of_children rfl rfl fun outside => by cases outside

/-- All parts of some expressions are routed. -/
theorem exprs (scope : Scope) {b : Builder} (settled : b.Settled) (values : List Tree.Expr) :
    ∀ value ∈ values, Routed scope b (b.exprs scope false values).2 (.expr value) := by
  match values with
  | [] => exact fun value never => by cases never
  | first :: rest =>
      have drawn := Adds.expr scope false b first
      have head := (expr scope settled first).grow
        (Adds.exprs scope false (b.expr scope false first).2 rest)
      have tail := exprs scope (settled.adds drawn) rest
      intro value member
      rcases List.mem_cons.1 member with rfl | later
      · exact head
      · exact (tail value later).since drawn.grows

end

/-- All parts of an expression that may be missing are routed. -/
theorem expr? (scope : Scope) {b : Builder} (settled : b.Settled) (value : Option Tree.Expr) :
    ∀ child ∈ value.toList.map Tree.Node.expr,
      Routed scope b (b.expr? scope false value).2 child := by
  cases value with
  | none => exact fun child never => by cases never
  | some value =>
      intro child isChild
      cases List.mem_singleton.1 isChild
      exact expr scope settled value

/-- A loop adds no shield around its body. -/
theorem looping {tips exits : List Tip} {head : Nat} {update : List Tree.Expr} {body : Tree.Block}
    (settled : b.Settled) (plain : b.Plain head)
    (routed : ∀ b : Builder, b.Settled → ∀ statement ∈ body.stmts,
      Routed (.loop :: scope) b (stmts (.loop :: scope) false b body.stmts) (.stmt statement)) :
    ∀ child ∈ update.map Tree.Node.expr ++ [body.toNode],
      Routed scope b (b.looping scope false tips exits head update body) child := by
  let bodied := stmts (.loop :: scope) false { b with tips, parked := [] } body.stmts
  have inside : Adds (.loop :: scope) _ { b with tips, parked := [] } bodied :=
    .stmts (.loop :: scope) false _ body.stmts
  have left : Adds scope _ b (bodied.leaveFrame b.parked
      [.breaks scope.length, .continues scope.length]) :=
    .leaveFrame inside fun exit member => member
  have continued : Adds scope _ b (bodied.atUpdates scope b.parked) := left.to_tips _
  have updated := Adds.exprs scope false (bodied.atUpdates scope b.parked) update
  have closed : Adds scope _ _ (b.looping scope false tips exits head update body) :=
    ((Adds.refl _).connect _ (plain.grow (continued.trans updated).grows)).to_tips _
  intro child isChild
  rcases List.mem_append.1 isChild with isUpdate | isBody
  · obtain ⟨value, member, rfl⟩ := List.mem_map.1 isUpdate
    exact ((exprs scope (settled.adds continued) update value member).since continued.grows).grow
      closed
  · cases List.mem_singleton.1 isBody
    intro leaf shields shielded raises
    have drawn := block (routed _ (settled.enterFrame tips)) leaf shields shielded raises
    have outside := drawn.leaveFrame settled (.loop .stay)
      (show Exit.uncaught ∉ [.breaks scope.length, .continues scope.length] by simp)
    rw [List.append_nil] at outside
    exact ((outside.grow ((Adds.refl _).to_tips _)).grow updated).grow closed

section Guarded

variable {handlers : List Handler} {body : Tree.Block} {catches : List Tree.Catch}
  {cleanup : Option Tree.Block} {leaf : Tree.Node} {shields : List Tree.Shield}

theorem stays_cleanup (depth : Nat) : Exit.uncaught ∉ [Exit.cleanup depth] := by simp

/-- A `try` shields its body with its clauses. -/
theorem guarded_body (settled : b.Settled) (enters : b.Enters (handlers.map Handler.entry) catches)
    (stops : handlers.any Handler.catchesAll = Tree.stopsAll catches)
    (routed : ∀ b : Builder, b.Settled → ∀ statement ∈ body.stmts,
      Routed (.region handlers cleanup :: scope) b
        (stmts (.region handlers cleanup :: scope) false b body.stmts) (.stmt statement))
    (shielded : Tree.Shielded body.toNode leaf shields) (raises : leaf.raises = true) :
    Reached scope b ((b.guarded scope false handlers body catches cleanup).leaveFrame b.parked
      [.cleanup scope.length]) leaf.id (shields ++ [⟨catches, cleanup.isSome⟩]) := by
  have drawn := block (routed _ (settled.enterFrame b.tips)) leaf shields shielded raises
  have inside : Adds (.region handlers cleanup :: scope) _ { b with parked := [] } _ :=
    .stmts (.region handlers cleanup :: scope) false _ body.stmts
  have caught : Adds (.region handlers cleanup :: scope) _ _
      (b.guarded scope false handlers body catches cleanup) :=
    (Adds.clauses (.region [] cleanup :: scope) false _ (handlers.map Handler.entry)
      catches).widen fun exit offers => offers
  have whole := inside.grows.trans caught.grows
  have entered := enters.grow ⟨whole.edges, whole.nodes⟩
  exact (drawn.grow caught).leaveFrame settled (.region entered stops .stay) (stays_cleanup _)

/-- A `try` shields its clauses with its `finally` block only. -/
theorem guarded_clause (settled : b.Settled)
    (routed : ∀ b entries, b.Settled → entries.length = catches.length → ∀ clause ∈ catches,
      Routed (.region [] cleanup :: scope) b
        (clauses (.region [] cleanup :: scope) false b entries catches) (.catchClause clause))
    (paired : handlers.length = catches.length) {clause : Tree.Catch} (member : clause ∈ catches)
    (shielded : Tree.Shielded (.catchClause clause) leaf shields) (raises : leaf.raises = true) :
    Reached scope b ((b.guarded scope false handlers body catches cleanup).leaveFrame b.parked
      [.cleanup scope.length]) leaf.id (shields ++ [⟨[], cleanup.isSome⟩]) := by
  have inside : Adds (.region handlers cleanup :: scope) _ { b with parked := [] } _ :=
    .stmts (.region handlers cleanup :: scope) false _ body.stmts
  have drawn := routed _ (handlers.map Handler.entry) ((settled.enterFrame b.tips).adds inside)
    ((List.length_map _).trans paired) clause member leaf shields shielded raises
  exact (drawn.since inside.grows).leaveFrame settled (.region_nil _ scope cleanup)
    (stays_cleanup _)

end Guarded

/-- Statements that are drawn in their places.  Copies do not count, so nothing is asked of
the ways out. -/
theorem drawingCases : DrawingCases
    (fun scope list => ∀ b : Builder, b.Settled → ∀ statement ∈ list,
      Routed scope b (stmts scope false b list) (.stmt statement))
    (fun scope statement => ∀ b : Builder, b.Settled →
      Routed scope b (stmt scope false b statement) (.stmt statement))
    (fun scope list => ∀ (b : Builder) (entries : List Nat), b.Settled →
      entries.length = list.length → ∀ clause ∈ list,
        Routed scope b (clauses scope false b entries list) (.catchClause clause))
    (fun _ => True) where
  nil scope b settled statement never := by cases never
  cons scope first rest head tail b settled statement member := by
    rw [stmts_cons]
    have drawn := Adds.drawingCases.stmt scope first false b
    rcases List.mem_cons.1 member with rfl | later
    · exact (head b settled).grow (Adds.stmts scope false _ rest)
    · exact (tail _ (settled.adds drawn) statement later).since drawn.grows
  block scope inner drawn b settled := by
    rw [stmt_block]
    exact block (drawn b settled)
  localDecl scope id name ty init b settled := by
    rw [stmt_localDecl]
    refine .of_children rfl rfl fun _ child isChild => ?_
    exact ((expr? scope (settled.mention ty) init child isChild).since (.of_eq rfl rfl)).grow
      (Adds.push _ _ rfl)
  exprStmt scope id value b settled := by
    rw [stmt_exprStmt]
    refine .of_children rfl rfl fun _ child isChild => ?_
    cases List.mem_singleton.1 isChild
    exact expr scope settled value
  ifElse scope id cond whenTrue whenFalse first second b settled := by
    have tested := Adds.expr scope false b cond
    have between := settled.adds tested
    have test := expr scope settled cond
    have onTrue := Adds.stmts scope false
      { (b.expr scope false cond).2 with tips := (b.expr scope false cond).2.tipsAs .onTrue }
      whenTrue.stmts
    cases whenFalse with
    | none =>
        rw [stmt_ifElse_none]
        refine .of_children rfl rfl fun _ child isChild => ?_
        rcases List.mem_cons.1 isChild with rfl | isBranch
        · exact (test.grow (Adds.of_tips onTrue)).grow ((Adds.refl _).to_tips _)
        · cases List.mem_singleton.1 isBranch
          exact ((block (first _ (between.retip _))).since (tested.to_tips _).grows).grow
            ((Adds.refl _).to_tips _)
    | some other =>
        rw [stmt_ifElse_some]
        have behind := (between.retip _).adds onTrue
        refine .of_children rfl rfl fun _ child isChild => ?_
        rcases List.mem_cons.1 isChild with rfl | isBranch
        · exact ((test.grow (Adds.of_tips onTrue)).grow
            (Adds.of_tips (Adds.stmts scope false _ other.stmts))).grow ((Adds.refl _).to_tips _)
        · rcases List.mem_cons.1 isBranch with rfl | isOther
          · exact (((block (first _ (between.retip _))).since (tested.to_tips _).grows).grow
              (Adds.of_tips (Adds.stmts scope false _ other.stmts))).grow
                ((Adds.refl _).to_tips _)
          · cases List.mem_singleton.1 isOther
            exact ((block (second other rfl _ (behind.retip _))).since
              ((tested.trans (Adds.of_tips onTrue)).to_tips _).grows).grow ((Adds.refl _).to_tips _)
  whileLoop scope id cond body drawn b settled := by
    rw [stmt_whileLoop]
    have headed : Adds scope _ b _ := Adds.push b (.at id false .loopHead []) rfl
    have tested := Adds.expr scope false (b.push (.at id false .loopHead [])).2 cond
    have plain := (Adds.plain_push b (.at id false .loopHead []) rfl).grow tested.grows
    have before := settled.adds headed
    refine .of_children rfl rfl fun _ child isChild => ?_
    rcases List.mem_cons.1 isChild with rfl | isBody
    · exact ((expr scope before cond).since headed.grows).grow
        (Adds.looping plain fun b => Adds.stmts (.loop :: scope) false b body.stmts)
    · exact (looping (before.adds tested) plain drawn child (List.mem_append_right _ isBody)).since
        (headed.trans tested).grows
  forLoop scope id init cond update body started drawn b settled := by
    rw [stmt_forLoop]
    have begun := Adds.stmts scope false b init
    have headed := begun.pushAt id false .loopHead [] rfl
    have tested := Adds.expr? scope false
      ((stmts scope false b init).push (.at id false .loopHead [])).2 cond
    have plain := (Adds.plain_push (stmts scope false b init) (.at id false .loopHead []) rfl).grow
      tested.grows
    have before := settled.adds headed
    have turned : ∀ b, Adds (.loop :: scope) _ b _ := fun b =>
      Adds.stmts (.loop :: scope) false b body.stmts
    refine .of_children rfl rfl fun _ child isChild => ?_
    simp only [Tree.Node.children, Tree.Stmt.children, List.append_assoc] at isChild
    rcases List.mem_append.1 isChild with isInit | isLater
    · obtain ⟨statement, member, rfl⟩ := List.mem_map.1 isInit
      exact ((started b settled statement member).grow ((Adds.push _ _ rfl).trans tested)).grow
        (Adds.looping plain turned)
    · rcases List.mem_append.1 isLater with isCond | isTurn
      · exact ((expr? scope before cond child isCond).since headed.grows).grow
          (Adds.looping plain turned)
      · exact (looping (before.adds tested) plain drawn child isTurn).since
          (headed.trans tested).grows
  returnValue scope id value left b settled := by
    rw [stmt_returnValue]
    refine .of_children rfl rfl fun _ child isChild => ?_
    exact (expr? scope settled value child isChild).grow
      (((Adds.push _ _ rfl).trans (Adds.drawingCases.unwinding scope 0 _)).jump
        scope.offers_returns Exit.noConfusion _)
  breakLoop scope id left b settled := .of_children rfl rfl fun _ child never => by cases never
  continueLoop scope id left b settled := .of_children rfl rfl fun _ child never => by cases never
  throwValue scope id value b settled := by
    rw [stmt_throwValue]
    have drawn := Adds.expr scope false b value
    refine .of_parts rfl (fun _ => reached_push settled drawn id rfl []) fun _ child isChild => ?_
    cases List.mem_singleton.1 isChild
    exact (expr scope settled value).grow
      ((((Adds.refl _).pushAt id false .throwValue _ rfl).to_tips []).raise
        (fresh_push (.refl _) _))
  tryCatch scope id body catches cleanup drawn caught finished b settled := by
    have entered : Adds scope _ b _ := Adds.enterCatches scope false b catches
    have before := settled.adds entered
    have enters := enters_enterCatches b catches
    have stops := any_enterCatches false b catches
    have paired := length_enterCatches false b catches
    intro leaf shields shielded raises
    cases cleanup with
    | none =>
        rw [stmt_tryCatch_none]
        cases shielded with
        | here => cases raises
        | inner _ other => cases other
        | body shielded =>
            exact (guarded_body before enters stops (drawn _) shielded raises).since entered.grows
        | clause member shielded =>
            exact (guarded_clause before caught paired member shielded raises).since entered.grows
    | some last =>
        rw [stmt_tryCatch_some]
        generalize b.enterCatches false catches = opened at entered before enters stops paired ⊢
        have left : Adds scope _ opened.2 ((opened.2.guarded scope false opened.1 body catches
            (some last)).leaveFrame opened.2.parked [.cleanup scope.length]) :=
          .guarded (fun b => Adds.stmts _ false b body.stmts)
            fun b entries => Adds.clauses _ false b entries catches
        cases shielded with
        | here => cases raises
        | inner _ other => cases other
        | body shielded =>
            exact ((guarded_body before enters stops (drawn _) shielded raises).since
              entered.grows).cleanedUp last
        | clause member shielded =>
            exact ((guarded_clause before caught paired member shielded raises).since
              entered.grows).cleanedUp last
        | cleanup shielded =>
            -- the frame has been left, so the block has no shield from its own `try`
            have cleaned : ∀ raised, Adds scope _ opened.2 (cleaningUp scope _ raised last) :=
              fun raised => left.trans (Adds.cleaningUp fun b => Adds.copies scope b last.stmts)
            exact (block (finished last rfl _ ((before.adds (cleaned _)).retip _)) leaf shields
              shielded raises).since ((entered.trans (cleaned _)).to_tips _).grows
  noClause scope b entries settled paired clause never := by cases never
  clause scope clause rest drawn others b entries settled paired inner member := by
    cases entries with
    | nil => cases paired
    | cons entry entries =>
        rw [clauses_cons]
        have inside := Adds.stmts scope false
          { b with tips := [{ source := entry, kind := .normal }] } clause.body.stmts
        rcases List.mem_cons.1 member with rfl | later
        · refine .of_children rfl rfl fun _ child isChild => ?_
          cases List.mem_singleton.1 isChild
          exact ((block (drawn _ (settled.retip [⟨entry, .normal⟩]))).since (.of_eq rfl rfl)).grow
            (Adds.of_tips (Adds.clauses scope false _ entries rest))
        · exact (others _ entries (((settled.retip _).adds inside).retip _)
            (Nat.succ.inj paired) inner later).since ((Adds.of_tips inside).to_tips _).grows
  unwound := trivial
  unwind _ _ _ _ := trivial

/-- All parts of a body are routed. -/
theorem stmts (settled : b.Settled) (body : Tree.Block) :
    Routed [] b (b.stmts [] false body.stmts) body.toNode :=
  block (drawingCases.stmts [] body.stmts b settled)

/-- All parts of the code of a fragment are routed. -/
theorem code (settled : b.Settled) {code : Fragment.Code} {body : Tree.Node}
    (isBody : code.body? = some body) : Routed [] b (b.code code) body := by
  match code with
  | .method decl =>
      have bound : Adds [] _ b _ := Adds.typedParams b decl.params
      obtain ⟨inner, present, rfl⟩ := Option.map_eq_some_iff.1 isBody
      rw [Builder.code, present]
      exact (stmts (settled.adds bound) inner).since bound.grows
  | .lambda id names (.block inner) =>
      cases isBody
      have bound : Adds [] _ b _ := Adds.params b names
      exact (stmts (settled.adds bound) inner).since bound.grows
  | .lambda id names (.value result) =>
      cases isBody
      have bound : Adds [] _ b _ := Adds.params b names
      exact ((expr [] (settled.adds bound) result).since bound.grows).grow
        ((Adds.push _ _ rfl).jump (Scope.offers_returns []) Exit.noConfusion _)
  | .initializer inner =>
      cases isBody
      exact stmts settled inner
  | .fieldInitializer decl init =>
      cases isBody
      exact ((expr [] (settled.mention decl.ty) init).since (.of_eq rfl rfl)).grow
        (Adds.push _ _ rfl)

end Routed

/-- A drawing is settled at its start. -/
theorem settled_start : start.Settled := by
  have empty : Settled {} :=
    ⟨fun edge never => absurd never (Array.not_mem_empty edge), fun tip never => by cases never⟩
  have first : Adds [] _ {} start := Adds.push {} (.implicit .entry []) rfl
  exact empty.adds first

end Builder

end FragmentFlow.Graph
