import FragmentFlow.Proofs.Coverage.Simulation

/-!
# Drawn statements cover their executions

Loops, `try` statements and jumps one by one, and then all statements by induction
on drawn code.
-/

namespace FragmentFlow.Graph

namespace Builder

/-! ### Jumps -/

/-- A jump lands at its exit. -/
theorem lands_jump (b : Builder) (exit : Exit) (kind : EdgeKind) {tip : Tip}
    (member : tip ∈ b.tips) : (b.jump exit kind).Lands tip.source [] (.parked exit) := by
  refine ⟨tip.source, if tip.kind = .normal then kind else tip.kind, .stay _, ?_⟩
  refine List.mem_append_right _ (List.mem_map.2 ⟨_, List.mem_map.2 ⟨tip, member, rfl⟩, ?_⟩)
  split <;> rfl

/-- What a frame keeps parked outside its own exits is still parked behind it. -/
theorem Lands.leaveFrame {b : Builder} {source : Nat} {trace : List Nat} {landing : Landing}
    (lands : b.Lands source trace landing) (before : List (Exit × Tip)) {ending : List Exit}
    (other : ∀ exit, landing = .parked exit → exit ∉ ending) :
    (b.leaveFrame before ending).Lands source trace landing := by
  have grows : Grows b (b.leaveFrame before ending) := .of_eq rfl rfl
  cases landing with
  | entry node =>
      obtain ⟨last, leads, arrow⟩ := lands
      exact ⟨last, leads.grow grows, grows.arrow arrow⟩
  | parked exit =>
      obtain ⟨last, kind, leads, member⟩ := lands
      refine ⟨last, kind, leads.grow grows, List.mem_append_right _
        (List.mem_filter.2 ⟨member, ?_⟩)⟩
      simpa using other exit rfl

theorem mem_parkedUnder {b : Builder} {exit : Exit} {tip : Tip} :
    tip ∈ b.parkedUnder exit ↔ (exit, tip) ∈ b.parked := by
  simp only [parkedUnder, List.mem_filterMap]
  constructor
  · rintro ⟨⟨under, other⟩, member, found⟩
    split at found
    · rename_i same
      cases found
      exact same ▸ member
    · cases found
  · intro member
    exact ⟨(exit, tip), member, if_pos rfl⟩

end Builder

namespace Scope.Jumps

variable {frame : Frame} {scope : Scope} {ending : Ending} {keep : Nat} {exit : Exit}

/-- A jump is no normal ending. -/
theorem ne_normal (jumps : Scope.Jumps scope ending keep exit) : ending ≠ .normal := by
  cases jumps <;> exact Ending.noConfusion

/-- A jump that passes a frame goes on outside it. -/
theorem outside (jumps : Scope.Jumps (frame :: scope) ending keep exit)
    (passes : frame.Passes ending) :
    keep ≤ scope.length ∧ Scope.Jumps scope ending keep exit := by
  cases jumps with
  | returns => exact ⟨Nat.zero_le _, .returns⟩
  | breaks found =>
      cases frame with
      | loop => exact passes.elim
      | region handlers cleanup => exact ⟨Scope.innermostLoop?_lt found, .breaks found⟩
  | continues found =>
      cases frame with
      | loop => exact passes.elim
      | region handlers cleanup => exact ⟨Scope.innermostLoop?_lt found, .continues found⟩

end Scope.Jumps

namespace Builder

open Behavior

variable {scope : Scope} {copying : Bool}

/-- The `finally` blocks that a jump passes are drawn before it lands. -/
theorem covers_unwind_cons {frame : Frame} {outer : Scope}
    (drawn : ∀ block, frame.cleanup? = some block → ∀ b : Builder,
      (b.stmts outer true block.stmts).CoversTips outer b.tips (Tree.behaviorStmts block.stmts))
    (left : ∀ keep (b : Builder) ending exit kind, Scope.Jumps outer ending keep exit →
      ((b.unwind outer keep).jump exit kind).CoversTips outer b.tips (ends ending))
    (keep : Nat) (b : Builder) (ending : Ending) (exit : Exit) (kind : EdgeKind)
    (jumps : Scope.Jumps (frame :: outer) ending keep exit) :
    ((b.unwind (frame :: outer) keep).jump exit kind).CoversTips (frame :: outer) b.tips
      (ends ending) := fun tip member =>
  { normal := fun run => by
      cases run
      exact absurd rfl jumps.ne_normal
    abrupt := fun run _ escapes => by
      cases run
      -- Either the jump ends at this frame, or it passes the frame and goes on outside.
      cases escapes with
      | caught | uncaught => cases jumps
      | broken =>
          cases jumps with
          | breaks found =>
              cases found
              rw [unwind_kept b _ outer (Nat.lt_succ_self _)]
              exact lands_jump b _ kind member
      | continued =>
          cases jumps with
          | continues found =>
              cases found
              rw [unwind_kept b _ outer (Nat.lt_succ_self _)]
              exact lands_jump b _ kind member
      | resumed passes run further =>
          obtain ⟨within, jumps⟩ := jumps.outside passes
          cases present : frame.cleanup? with
          | none =>
              rw [present] at run
              cases run
              rw [unwind_left b frame outer within present]
              exact (left keep b ending exit kind jumps tip member).abrupt .intro jumps.ne_normal
                further
          | some block =>
              rw [present, Tree.behaviorBlock?, Tree.Block.behavior_eq] at run
              rw [unwind_cleanup b frame outer within present]
              obtain ⟨last, open_, leads⟩ := (drawn block present b tip member).normal run
              have later := (Extends.unwind outer keep (b.stmts outer true block.stmts)).trans
                (.jump _ exit kind)
              exact (leads.grow later.grows).lands
                ((left keep _ ending exit kind jumps last open_).abrupt .intro jumps.ne_normal
                  further)
      | replaced passes run cut further =>
          obtain ⟨within, jumps⟩ := jumps.outside passes
          cases present : frame.cleanup? with
          | none =>
              rw [present] at run
              cases run
              exact absurd rfl cut
          | some block =>
              rw [present, Tree.behaviorBlock?, Tree.Block.behavior_eq] at run
              rw [unwind_cleanup b frame outer within present]
              exact ((drawn block present b tip member).abrupt run cut further).extend
                ((Extends.unwind outer keep _).trans (.jump _ exit kind)) }

/-- From a node with an edge to another, the other node is evaluated first. -/
theorem Covers.of_arrow {b : Builder} {source target id : Nat} {node : Node} {behavior : Behavior}
    (covers : b.Covers scope target behavior) (arrow : b.Arrow source target)
    (found : b.bare? target = some node) (label : node.tree = some id) :
    b.Covers scope source ((evaluates id).andThen behavior) := by
  have leads : b.Leads source [id] target := by
    have passed := Leads.step (.stay source) arrow found
    rw [label] at passed
    exact passed
  have begins : ({ b with tips := [{ source := target, kind := .normal }] } : Builder).Covers scope
      source (evaluates id) :=
    { normal := fun run => by
        cases run
        exact ⟨_, List.mem_singleton_self _, leads.grow (.of_eq rfl rfl)⟩
      abrupt := fun run cut _ => by
        cases run
        exact absurd rfl cut }
  refine begins.andThen (fun tip member => ?_) (.of_eq rfl rfl rfl)
  rw [List.mem_singleton.1 member]
  exact covers

/-! ### Loops -/

/-- The body of a loop goes on to the updates unless it is left. -/
theorem covers_turn {b : Builder} {tips : List Tip} {body : Behavior}
    (drawn : b.CoversTips (.loop :: scope) tips body) (before : List (Exit × Tip)) :
    (b.atUpdates scope before).CoversTips scope tips (unbroken (turn body)) := fun tip member =>
  have grows : Grows b (b.atUpdates scope before) := .of_eq rfl rfl
  { normal := fun run => by
      cases run.1 with
      | continued body =>
          obtain ⟨last, kind, leads, parked⟩ :=
            (drawn tip member).abrupt body Ending.noConfusion .continued
          rw [List.append_nil] at leads
          exact ⟨_, List.mem_append_right _ (mem_parkedUnder.2 parked), leads.grow grows⟩
      | ended body _ =>
          obtain ⟨last, open_, leads⟩ := (drawn tip member).normal body
          exact ⟨last, List.mem_append_left _ open_, leads.grow grows⟩
    abrupt := @fun trace rest ending landing run cut escapes => by
      cases run.1 with
      | continued => exact absurd rfl cut
      | ended body other =>
          have away : ending = .returns ∨ ending = .raises := by
            cases ending with
            | normal => exact absurd rfl cut
            | breaks => exact absurd rfl run.2
            | continues => exact absurd rfl other
            | returns => exact Or.inl rfl
            | raises => exact Or.inr rfl
          have lands := (drawn tip member).abrupt body cut (escapes.loop away)
          refine (lands.leaveFrame before fun exit parked listed => ?_).extend (.of_eq rfl rfl rfl)
          -- What lands outside the loop does not land at its frame.
          have below := escapes.exit_below parked
          rcases List.mem_cons.1 listed with rfl | listed
          · exact Nat.lt_irrefl _ below
          · rw [List.mem_singleton.1 listed] at below
            exact Nat.lt_irrefl _ below }

/-- The body of a loop is left by a `break`. -/
theorem leads_break {b : Builder} {tips : List Tip} {body : Behavior}
    (drawn : b.CoversTips (.loop :: scope) tips body) (before : List (Exit × Tip)) {tip : Tip}
    (member : tip ∈ tips) {trace : List Nat} (run : body trace .breaks) :
    ∃ last ∈ b.parkedUnder (.breaks scope.length),
      (b.atUpdates scope before).Leads tip.source trace last.source := by
  obtain ⟨last, kind, leads, parked⟩ :=
    (drawn tip member).abrupt run Ending.noConfusion .broken
  rw [List.append_nil] at leads
  exact ⟨_, mem_parkedUnder.2 parked, leads.grow (.of_eq rfl rfl)⟩

/-- The executions of a loop are covered iteration by iteration: each of them starts
with an edge to the head, and those that go on end with one. -/
theorem covers_repeats {b : Builder} (tested ready : List Tip) {head id source : Nat}
    {node : Node} {canFail : Bool} {cond body update : Behavior}
    (found : b.bare? head = some node) (label : node.tree = some id)
    (condPlain : Plain cond) (updatePlain : Plain update)
    (testing : ({ b with tips := tested } : Builder).Covers scope head cond)
    (turning : ({ b with tips := ready } : Builder).CoversTips scope tested
      ((unbroken (turn body)).andThen update))
    (closing : ∀ tip ∈ ready, b.Arrow tip.source head)
    (leaving : canFail = true → ∀ tip ∈ tested, ∃ other ∈ b.tips, other.source = tip.source)
    (breaking : ∀ tip ∈ tested, ∀ trace, body trace .breaks →
      ∃ other ∈ b.tips, b.Leads tip.source trace other.source)
    (arrow : b.Arrow source head) :
    b.Covers scope source (repeats id canFail cond body update) := by
  have test : ∀ {source : Nat}, b.Arrow source head →
      ({ b with tips := tested } : Builder).Covers scope source ((evaluates id).andThen cond) :=
    fun arrow => testing.of_arrow arrow found label
  have iteration : ∀ {source : Nat}, b.Arrow source head →
      ({ b with tips := ready } : Builder).Covers scope source
        (((evaluates id).andThen cond).andThen ((unbroken (turn body)).andThen update)) :=
    fun arrow => (test arrow).andThen turning (.of_eq rfl rfl rfl)
  have runs : ∀ {trace : List Nat} {ending : Ending},
      repeats id canFail cond body update trace ending → ∀ {source : Nat}, b.Arrow source head →
        (ending = .normal → ∃ tip ∈ b.tips, b.Leads source trace tip.source) ∧
        (ending ≠ .normal → ∀ {rest : List Nat} {landing : Landing},
          Escapes scope ending rest landing → b.Lands source (trace ++ rest) landing) := by
    intro trace ending run
    induction run with
    | leave canFail run =>
        intro source arrow
        refine ⟨fun _ => ?_, fun cut => absurd rfl cut⟩
        obtain ⟨tip, member, leads⟩ := (test arrow).normal run
        obtain ⟨other, open_, same⟩ := leaving canFail tip member
        exact ⟨other, open_, same ▸ leads.grow (.of_eq rfl rfl)⟩
    | again run _ ih =>
        intro source arrow
        obtain ⟨tip, member, leads⟩ :=
          (iteration arrow).normal (iteration_unbroken run Ending.noConfusion)
        have leads : b.Leads source _ tip.source := leads.grow (.of_eq rfl rfl)
        obtain ⟨normal, abrupt⟩ := ih (closing tip member)
        refine ⟨fun ended => ?_, fun cut rest landing escapes => ?_⟩
        · obtain ⟨other, open_, further⟩ := normal ended
          exact ⟨other, open_, leads.trans further⟩
        · rw [List.append_assoc]
          exact leads.lands (abrupt cut escapes)
    | broken run =>
        intro source arrow
        refine ⟨fun _ => ?_, fun cut => absurd rfl cut⟩
        obtain ⟨start, rest, rfl, tested, broken⟩ :=
          iteration_breaks ((plain_evaluates id).andThen condPlain) updatePlain run
        obtain ⟨tip, member, leads⟩ := (test arrow).normal tested
        have leads : b.Leads source start tip.source := leads.grow (.of_eq rfl rfl)
        obtain ⟨other, open_, further⟩ := breaking tip member rest broken
        exact ⟨other, open_, leads.trans further⟩
    | cut run cut other =>
        intro source arrow
        refine ⟨fun ended => absurd ended cut, fun _ rest landing escapes => ?_⟩
        exact ((iteration arrow).abrupt (iteration_unbroken run other) cut escapes).extend
          (.of_eq rfl rfl rfl)
  exact
    { normal := fun run => (runs run arrow).1 rfl
      abrupt := fun run cut escapes => (runs run arrow).2 cut escapes }

/-- A loop covers its executions from every node with an edge to its head. -/
theorem covers_looping {b : Builder} {tips exits : List Tip} {head id source : Nat} {node : Node}
    {canFail : Bool} {cond : Behavior} {update : List Tree.Expr} {body : Tree.Block}
    (found : b.bare? head = some node) (label : node.tree = some id) (plain : Plain cond)
    (tested : b.Covers scope head cond)
    (entering : ∀ tip ∈ b.tips, ∃ other ∈ tips, other.source = tip.source)
    (leaving : canFail = true → ∀ tip ∈ b.tips, ∃ other ∈ exits, other.source = tip.source)
    (drawn : ∀ b : Builder, (b.stmts (.loop :: scope) copying body.stmts).CoversTips
      (.loop :: scope) b.tips (Tree.behaviorStmts body.stmts))
    (arrow : b.Arrow source head) :
    (b.looping scope copying tips exits head update body).Covers scope source
      (repeats id canFail cond (Tree.behaviorStmts body.stmts) (Tree.behaviorExprs update)) := by
  have whole : Extends b (b.looping scope copying tips exits head update body) :=
    .looping fun b => .stmts _ copying b body.stmts
  have inner := drawn { b with tips, parked := [] }
  rw [looping, closeLoop_eq] at whole ⊢
  generalize stmts (.loop :: scope) copying { b with tips, parked := [] } body.stmts = bodied
    at whole inner ⊢
  have updating := covers_exprs scope copying (bodied.atUpdates scope b.parked) update
  have extended := Extends.exprs scope copying (bodied.atUpdates scope b.parked) update
  generalize (exprs scope copying (bodied.atUpdates scope b.parked) update).2 = updated
    at whole updating extended ⊢
  have closed : Extends updated { updated.connect updated.tips head with
      tips := exits ++ bodied.parkedUnder (.breaks scope.length) } :=
    (Extends.connect updated _ head).to_tips _
  have turned := (covers_turn inner b.parked).andThen updating extended
  refine covers_repeats b.tips updated.tips (whole.grows.nodes _ _ found) label plain
    (Tree.behaviorExprs_plain update) ?_ ?_ ?_ ?_ ?_ (whole.grows.arrow arrow)
  · exact tested.extend (whole.to_tips _) fun _ member => member
  · intro tip member
    obtain ⟨other, entered, same⟩ := entering tip member
    exact same ▸ (turned other entered).extend (closed.to_tips _) fun _ member => member
  · intro tip member
    refine ⟨tip.kind, ?_⟩
    change _ ∈ (updated.connect updated.tips head).edges
    rw [connect_eq]
    exact mem_edges_addEdges.2 (Or.inr (List.mem_map.2 ⟨tip, member, rfl⟩))
  · intro canFail tip member
    obtain ⟨other, left, same⟩ := leaving canFail tip member
    exact ⟨other, List.mem_append_left _ left, same⟩
  · intro tip member trace run
    obtain ⟨other, entered, same⟩ := entering tip member
    obtain ⟨last, parked, leads⟩ := leads_break inner b.parked entered run
    exact ⟨last, List.mem_append_right _ parked,
      same ▸ leads.grow (extended.trans closed).grows⟩

/-! ### Catch clauses -/

theorem tips_enterCatches (copying : Bool) (b : Builder) (catches : List Tree.Catch) :
    (b.enterCatches copying catches).2.tips = b.tips := by
  induction catches generalizing b with
  | nil => rfl
  | cons clause catches ih => exact ih _

/-- Entries catch everything if one of their clauses does. -/
theorem any_enterCatches (copying : Bool) (b : Builder) (catches : List Tree.Catch) :
    (b.enterCatches copying catches).1.any Handler.catchesAll = Tree.stopsAll catches := by
  induction catches generalizing b with
  | nil => rfl
  | cons clause catches ih =>
      rw [Tree.stopsAll, List.any_cons, ← Tree.stopsAll, ← ih, enterCatches, List.any_cons]

/-- Every catch clause has its entry. -/
theorem exists_handler (copying : Bool) (b : Builder) {catches : List Tree.Catch}
    {clause : Tree.Catch} (member : clause ∈ catches) :
    ∃ handler, (handler, clause) ∈ (b.enterCatches copying catches).1.zip catches ∧
      (b.enterCatches copying catches).2.bare? handler.entry =
        some (Node.at clause.id copying (.catchParam clause.name clause.ty) []) := by
  induction catches generalizing b with
  | nil => cases member
  | cons first catches ih =>
      rcases List.mem_cons.1 member with rfl | later
      · refine ⟨_, List.mem_cons_self, (Extends.enterCatches copying _ catches).grows.nodes _ _ ?_⟩
        exact (bare?_addNode _ _ _).trans (if_pos rfl)
      · obtain ⟨handler, found, entered⟩ := ih ((b.mention first.ty).addNode
          (.at first.id copying (.catchParam first.name first.ty) [])).2 later
        exact ⟨handler, List.mem_cons_of_mem _ found, entered⟩

end Builder

/-- Exceptions that get past the handlers of a `try` leave it as if there were
none; jumps do so in any case. -/
theorem Escapes.handlers {scope : Scope} {cleanup : Option Tree.Block} {ending : Ending}
    {rest : List Nat} {landing : Landing}
    (escapes : Escapes (.region [] cleanup :: scope) ending rest landing) {handlers : List Handler}
    (passed : ending = .raises → handlers.any Handler.catchesAll = false) :
    Escapes (.region handlers cleanup :: scope) ending rest landing := by
  cases escapes with
  | caught member =>
      refine .caught ?_
      simp only [Scope.route, List.map_nil, List.any_nil, Bool.false_eq_true, ↓reduceIte,
        List.nil_append, passed rfl] at member ⊢
      split at member
      · cases member
      · rename_i absent
        rw [if_neg absent]
        exact List.mem_append_right _ member
  | uncaught found =>
      refine .uncaught ?_
      simp only [Scope.route, List.map_nil, List.any_nil, Bool.false_eq_true, ↓reduceIte,
        List.nil_append, passed rfl] at found ⊢
      split at found
      · rename_i present
        rw [if_pos present]
        exact found
      · rename_i absent
        rw [if_neg absent]
        exact found
  | resumed passes run further =>
      refine .resumed ?_ run further
      cases ending <;> exact passes
  | replaced passes run cut further =>
      refine .replaced ?_ run cut further
      cases ending <;> exact passes

/-- What leaves a `try` without a `finally` block leaves it at once. -/
theorem Escapes.unguarded {scope : Scope} {ending : Ending} {rest : List Nat} {landing : Landing}
    (escapes : Escapes scope ending rest landing) (cut : ending ≠ .normal) :
    Escapes (.region [] none :: scope) ending rest landing := by
  cases ending with
  | normal => exact absurd rfl cut
  | breaks | continues | returns => exact .pass trivial rfl escapes
  | raises =>
      cases escapes with
      | caught member => exact .caught member
      | uncaught found => exact .uncaught found
      | resumed passes => cases ‹Frame› <;> exact passes.elim
      | replaced passes => cases ‹Frame› <;> exact passes.elim

theorem Scope.mem_route_region {scope : Scope} {cleanup : Option Tree.Block}
    {handlers : List Handler} {handler : Handler} (member : handler ∈ handlers) :
    handler.entry ∈ (Scope.route (.region handlers cleanup :: scope)).1 := by
  have entry := List.mem_map_of_mem (f := Handler.entry) member
  simp only [Scope.route]
  split
  · exact entry
  · split
    · exact entry
    · exact List.mem_append_left _ entry

namespace Builder

open Behavior

variable {scope : Scope} {copying : Bool}

/-- What catch clauses do is what one of them does. -/
theorem exists_clause {catches : List Tree.Catch} {trace : List Nat} {ending : Ending}
    (run : Tree.behaviorCatches catches trace ending) :
    ∃ clause ∈ catches, clause.behavior trace ending := by
  induction catches with
  | nil => exact run.elim
  | cons first catches ih =>
      cases run with
      | first run => exact ⟨first, List.mem_cons_self, run⟩
      | second run =>
          obtain ⟨clause, member, run⟩ := ih run
          exact ⟨clause, List.mem_cons_of_mem _ member, run⟩

/-- A `try` without its `finally` block covers its executions: what the body raises
goes on in a catch clause or gets past all of them. -/
theorem covers_caught {drawn last : Builder} {tips : List Tip} {handlers : List Handler}
    {cleanup : Option Tree.Block} {body clauses : Behavior}
    (extended : Extends drawn last) (kept : ∀ tip ∈ drawn.tips, tip ∈ last.tips)
    (covers : drawn.CoversTips (.region handlers cleanup :: scope) tips body)
    (entered : ∀ {trace : List Nat} {ending : Ending}, clauses trace ending →
      ∃ handler ∈ handlers, ∃ behavior : Behavior, behavior trace ending ∧
        ∀ source, last.Arrow source handler.entry →
          last.Covers (.region [] cleanup :: scope) source behavior) :
    last.CoversTips (.region [] cleanup :: scope) tips
      (caught (handlers.any Handler.catchesAll) body clauses) := by
  intro tip member
  have handled : ∀ {trace rest : List Nat} {ending : Ending}, body trace .raises →
      clauses rest ending → ∃ middle, last.Leads tip.source trace middle ∧
        ∃ behavior : Behavior, behavior rest ending ∧
          last.Covers (.region [] cleanup :: scope) middle behavior := by
    intro trace rest ending raised run
    obtain ⟨handler, member', behavior, run, covered⟩ := entered run
    obtain ⟨middle, leads, arrow⟩ := ((covers tip member).abrupt raised Ending.noConfusion
      (.caught (Scope.mem_route_region member'))).extend extended
    rw [List.append_nil] at leads
    exact ⟨middle, leads, behavior, run, covered middle arrow⟩
  constructor
  · intro trace run
    cases run with
    | unraised run _ =>
        obtain ⟨last, open_, leads⟩ := (covers tip member).normal run
        exact ⟨last, kept last open_, leads.grow extended.grows⟩
    | handled raised run =>
        obtain ⟨middle, leads, behavior, run, covered⟩ := handled raised run
        obtain ⟨last, open_, further⟩ := covered.normal run
        exact ⟨last, open_, leads.trans further⟩
  · intro trace rest ending landing run cut escapes
    cases run with
    | unraised run other =>
        exact ((covers tip member).abrupt run cut
          (escapes.handlers fun raised => absurd raised other)).extend extended
    | handled raised run =>
        obtain ⟨middle, leads, behavior, run, covered⟩ := handled raised run
        rw [List.append_assoc]
        exact leads.lands (covered.abrupt run cut escapes)
    | passed raised unstopped =>
        exact ((covers tip member).abrupt raised cut
          (escapes.handlers fun _ => unstopped)).extend extended

/-- A `try` without its cleanup is covered if its body and its clauses are. -/
theorem covers_guarded {body : Tree.Block} {catches : List Tree.Catch}
    {cleanup : Option Tree.Block} (b : Builder)
    (drawn : ∀ handlers (b : Builder), (b.stmts (.region handlers cleanup :: scope) copying
      body.stmts).CoversTips (.region handlers cleanup :: scope) b.tips
        (Tree.behaviorStmts body.stmts))
    (handling : ∀ (b : Builder) entries,
      (∀ tip ∈ b.tips,
        tip ∈ (b.clauses (.region [] cleanup :: scope) copying entries catches).tips) ∧
      ∀ entry clause, (entry, clause) ∈ entries.zip catches →
        (b.clauses (.region [] cleanup :: scope) copying entries catches).Covers
          (.region [] cleanup :: scope) entry (Tree.behaviorStmts clause.body.stmts)) :
    (guarded scope copying (b.enterCatches copying catches).2 (b.enterCatches copying catches).1
      body catches cleanup).CoversTips (.region [] cleanup :: scope) b.tips
        (caught (Tree.stopsAll catches) body.behavior (Tree.behaviorCatches catches)) := by
  have started := drawn (b.enterCatches copying catches).1
    { (b.enterCatches copying catches).2 with parked := [] }
  have bodied := Extends.stmts (.region (b.enterCatches copying catches).1 cleanup :: scope) copying
    { (b.enterCatches copying catches).2 with parked := [] } body.stmts
  rw [← any_enterCatches copying b catches, body.behavior_eq, ← tips_enterCatches copying b catches]
  refine covers_caught (.clauses _ copying _ _ catches) (handling _ _).1 started ?_
  intro trace ending run
  obtain ⟨clause, member, run⟩ := exists_clause run
  obtain ⟨handler, paired, found⟩ := exists_handler copying b member
  have entry : (handler.entry, clause) ∈
      ((b.enterCatches copying catches).1.map Handler.entry).zip catches := by
    rw [List.zip_map_left]
    exact List.mem_map.2 ⟨(handler, clause), paired, rfl⟩
  refine ⟨handler, (List.of_mem_zip paired).1, clause.behavior, run, fun source arrow => ?_⟩
  rw [clause.behavior_eq]
  exact ((handling _ _).2 handler.entry clause entry).of_arrow arrow
    ((bodied.trans (.clauses _ copying _ _ catches)).grows.nodes _ _ found) rfl

/-! ### Cleaning up -/

/-- What escapes the cleanup still lands where it did when the frame is left. -/
theorem lands_leaveFrame_cleanup {b : Builder} {source : Nat} {trace rest : List Nat}
    {ending : Ending} {landing : Landing} (before : List (Exit × Tip))
    (escapes : Escapes scope ending rest landing) (lands : b.Lands source trace landing) :
    (b.leaveFrame before [.cleanup scope.length]).Lands source trace landing := by
  refine lands.leaveFrame before fun exit parked listed => ?_
  have below := escapes.exit_below parked
  rw [List.mem_singleton.1 listed] at below
  exact Nat.lt_irrefl _ below

/-- Without a `finally` block, a `try` is left at once. -/
theorem covers_cleanedUp_none {b : Builder} {tips : List Tip} {inner : Behavior}
    (before : List (Exit × Tip)) (covers : b.CoversTips (.region [] none :: scope) tips inner) :
    (b.leaveFrame before [.cleanup scope.length]).CoversTips scope tips
      (inner.cleanedUp nothing) := fun tip member =>
  { normal := fun run => by
      cases run with
      | resumed run cleanup =>
          cases cleanup
          obtain ⟨last, open_, leads⟩ := (covers tip member).normal run
          rw [List.append_nil]
          exact ⟨last, open_, leads.grow (.of_eq rfl rfl)⟩
      | replaced _ _ cut => exact absurd rfl cut
    abrupt := fun run cut escapes => by
      cases run with
      | resumed run cleanup =>
          cases cleanup
          rw [List.append_nil]
          exact lands_leaveFrame_cleanup before escapes
            ((covers tip member).abrupt run cut (escapes.unguarded cut))
      | replaced _ cleanup cut =>
          cases cleanup
          exact absurd rfl cut }

/-- The copy of a `finally` block that exceptions share covers the block and raises
again. -/
theorem covers_cleaningUp {b : Builder} {raised : List Tip} {block : Tree.Block}
    (drawn : ∀ b : Builder, (b.stmts scope true block.stmts).CoversTips scope b.tips
      block.behavior) :
    (b.cleaningUp scope raised block).CoversTips scope raised
      ((block.behavior.andThen nothing).andThen (ends .raises)) := by
  intro tip member
  have present : raised.isEmpty = false := by
    cases raised with
    | nil => cases member
    | cons => rfl
  have cleaned := drawn { b with tips := raised } tip member
  rw [cleaningUp, present]
  simp only [Bool.false_eq_true, ↓reduceIte]
  generalize stmts scope true { b with tips := raised } block.stmts = copied at cleaned ⊢
  have ended := covers_push_implicit copied scope .rethrow []
  exact (cleaned.andThen ended (.push _ _)).andThen
    (covers_raise (copied.push (.implicit .rethrow [])).2 scope copied.nodes.size _ .normal)
    (.raise _ scope _)

/-- A `try` with a `finally` block covers its executions.  Jumps out of it were drawn
with their own copies of the block, exceptions share one, and what ends normally goes
on in the block itself. -/
theorem covers_cleanedUp_some {b cleaned last : Builder} {tips : List Tip} {inner : Behavior}
    {block : Tree.Block} {before : List (Exit × Tip)}
    (covers : b.CoversTips (.region [] (some block) :: scope) tips inner)
    (extended : Extends (b.leaveFrame before [.cleanup scope.length]) cleaned)
    (copied : cleaned.CoversTips scope (b.parkedUnder (.cleanup scope.length))
      ((block.behavior.andThen nothing).andThen (ends .raises)))
    (finished : Extends cleaned last) (drawn : last.CoversTips scope b.tips block.behavior) :
    last.CoversTips scope tips (inner.cleanedUp block.behavior) := by
  intro tip member
  have whole := extended.trans finished
  have grows : Grows b last := ⟨whole.grows.edges, whole.grows.nodes⟩
  -- A jump lands behind the copy of the block that was drawn for it.
  have jumped : ∀ {ending : Ending} {trace rest : List Nat} {landing : Landing},
      inner trace ending → ending ≠ .normal →
      Escapes (.region [] (some block) :: scope) ending rest landing →
      (∀ exit, landing = .parked exit → exit.Below scope.length) →
      last.Lands tip.source (trace ++ rest) landing := by
    intro ending trace rest landing run cut escapes below
    refine (((covers tip member).abrupt run cut escapes).leaveFrame before ?_).extend whole
    intro exit parked listed
    have lower := below exit parked
    rw [List.mem_singleton.1 listed] at lower
    exact Nat.lt_irrefl _ lower
  -- An exception reaches the copy that exceptions share.
  have raised : ∀ {trace : List Nat}, inner trace .raises →
      ∃ tip' ∈ b.parkedUnder (.cleanup scope.length), last.Leads tip.source trace tip'.source := by
    intro trace run
    obtain ⟨middle, kind, leads, parked⟩ :=
      (covers tip member).abrupt run Ending.noConfusion (.uncaught rfl)
    rw [List.append_nil] at leads
    exact ⟨_, mem_parkedUnder.2 parked, leads.grow grows⟩
  constructor
  · intro trace run
    cases run with
    | resumed run cleanup =>
        obtain ⟨middle, open_, leads⟩ := (covers tip member).normal run
        obtain ⟨final, behind, further⟩ := (drawn middle open_).normal cleanup
        exact ⟨final, behind, (leads.grow grows).trans further⟩
    | replaced _ _ cut => exact absurd rfl cut
  · intro trace rest ending landing run cut escapes
    cases run with
    | @resumed start more _ run cleanup =>
        rw [List.append_assoc]
        cases ending with
        | normal => exact absurd rfl cut
        | breaks | continues | returns =>
            refine jumped run cut (.resumed ?_ cleanup escapes) fun exit parked =>
              escapes.exit_below parked
            trivial
        | raises =>
            obtain ⟨tip', parked, leads⟩ := raised run
            have rethrown := (copied tip' parked).abrupt (.next (.next cleanup .intro) .intro) cut
              escapes
            rw [List.append_nil, List.append_nil] at rethrown
            exact leads.lands (rethrown.extend finished)
    | @replaced start more ended _ run cleanup _ =>
        rw [List.append_assoc]
        cases ended with
        | normal =>
            obtain ⟨middle, open_, leads⟩ := (covers tip member).normal run
            exact (leads.grow grows).lands ((drawn middle open_).abrupt cleanup cut escapes)
        | breaks | continues | returns =>
            refine jumped run Ending.noConfusion (.replaced ?_ cleanup cut escapes)
              fun exit parked => escapes.exit_below parked
            trivial
        | raises =>
            obtain ⟨tip', parked, leads⟩ := raised run
            exact leads.lands (((copied tip' parked).abrupt (.cut (.cut cleanup cut) cut) cut
              escapes).extend finished)

/-! ### All statements -/

theorem mem_tipsAs {b : Builder} {tip : Tip} (member : tip ∈ b.tips) (kind : EdgeKind) :
    ∃ other ∈ b.tipsAs kind, other.source = tip.source :=
  ⟨{ tip with kind }, List.mem_map.2 ⟨tip, member, rfl⟩, rfl⟩

/-- Drawn code covers its executions if its jumps stay in loops. -/
theorem coverage : DrawingCases
    (fun scope list => Scope.JumpsWithin scope →
      Tree.jumpsWithinStmts (Scope.innermostLoop? scope).isSome list = true →
      ∀ copying b, (stmts scope copying b list).CoversTips scope b.tips (Tree.behaviorStmts list))
    (fun scope statement => Scope.JumpsWithin scope →
      statement.jumpsWithin (Scope.innermostLoop? scope).isSome = true →
      ∀ copying b, (stmt scope copying b statement).CoversTips scope b.tips statement.behavior)
    (fun scope list => Scope.JumpsWithin scope →
      Tree.jumpsWithinCatches (Scope.innermostLoop? scope).isSome list = true →
      ∀ copying b entries, (∀ tip ∈ b.tips, tip ∈ (clauses scope copying b entries list).tips) ∧
        ∀ entry clause, (entry, clause) ∈ entries.zip list →
          (clauses scope copying b entries list).Covers scope entry
            (Tree.behaviorStmts clause.body.stmts))
    (fun scope => Scope.JumpsWithin scope → ∀ keep (b : Builder) ending exit kind,
      Scope.Jumps scope ending keep exit →
        ((b.unwind scope keep).jump exit kind).CoversTips scope b.tips (ends ending)) where
  nil scope _ _ copying b := by
    rw [stmts_nil]
    exact CoversTips.nothing fun _ member => member
  cons scope first rest head tail inside within copying b := by
    rw [Tree.jumpsWithinStmts, Bool.and_eq_true] at within
    rw [stmts_cons]
    exact (head inside within.1 copying b).andThen (tail inside within.2 copying _)
      (.stmts scope copying _ rest)
  block scope inner drawn inside within copying b := by
    rw [Tree.Stmt.jumpsWithin, Tree.Block.jumpsWithin_eq] at within
    rw [stmt_block, Tree.Stmt.behavior, Tree.Block.behavior_eq]
    exact drawn inside within copying b
  localDecl scope id name ty init _ _ copying b := by
    rw [stmt_localDecl]
    exact (covers_expr? scope copying (b.mention ty) init).andThen
      (covers_push _ scope id copying _ _) (.push _ _)
  exprStmt scope id value _ _ copying b := by
    rw [stmt_exprStmt, Tree.Stmt.behavior]
    exact covers_expr scope copying b value
  ifElse scope id cond whenTrue whenFalse first second inside within copying b := by
    rw [Tree.Stmt.jumpsWithin, Bool.and_eq_true, Tree.Block.jumpsWithin_eq] at within
    rw [Tree.Stmt.behavior, Tree.Block.behavior_eq]
    have tested := covers_expr scope copying b cond
    cases whenFalse with
    | none =>
        rw [stmt_ifElse_none]
        refine tested.andThen (CoversTips.either ?_ ?_)
          ((Extends.of_tips (.stmts scope copying _ _)).to_tips _)
        · exact (CoversTips.of_tipsAs (first inside within.1 copying _)).extend
            ((Extends.refl _).to_tips _) fun _ member => List.mem_append_left _ member
        · exact CoversTips.of_tipsAs (CoversTips.nothing fun _ member =>
            List.mem_append_right _ member)
    | some block =>
        have other : Tree.jumpsWithinStmts (Scope.innermostLoop? scope).isSome
            block.stmts = true := by
          rw [← Tree.Block.jumpsWithin_eq]
          exact within.2
        rw [stmt_ifElse_some, Tree.behaviorBlock?, Tree.Block.behavior_eq]
        refine tested.andThen (CoversTips.either ?_ ?_)
          (((Extends.of_tips (.stmts scope copying _ _)).trans
            (.of_tips (.stmts scope copying _ _))).to_tips _)
        · exact (CoversTips.of_tipsAs (first inside within.1 copying _)).extend
            (Extends.to_tips _ (.of_tips (.stmts scope copying _ _)))
            fun _ member => List.mem_append_left _ member
        · exact (CoversTips.of_tipsAs (second block rfl inside other copying _)).extend
            ((Extends.refl _).to_tips _) fun _ member => List.mem_append_right _ member
  whileLoop scope id cond body drawn inside within copying b := by
    rw [Tree.Stmt.jumpsWithin, Tree.Block.jumpsWithin_eq] at within
    rw [stmt_whileLoop, Tree.Stmt.behavior, Tree.Block.behavior_eq]
    intro tip member
    have tested := covers_expr scope copying (b.push (.at id copying .loopHead [])).2 cond
    have extended := Extends.expr scope copying (b.push (.at id copying .loopHead [])).2 cond
    have arrow : (b.push (.at id copying .loopHead [])).2.Arrow tip.source b.nodes.size :=
      ⟨tip.kind, mem_edges_push.2 (Or.inr ⟨member, rfl⟩)⟩
    exact covers_looping (extended.grows.nodes _ _ (bare?_push_self b _)) rfl cond.behavior_plain
      (tested _ (List.mem_singleton_self _)) (fun _ member => mem_tipsAs member .onTrue)
      (fun _ _ member => mem_tipsAs member .onFalse)
      (drawn ⟨rfl, inside⟩ within copying) (extended.grows.arrow arrow)
  forLoop scope id init cond update body started drawn inside within copying b := by
    rw [Tree.Stmt.jumpsWithin, Bool.and_eq_true, Tree.Block.jumpsWithin_eq] at within
    rw [stmt_forLoop, Tree.Stmt.behavior, Tree.Block.behavior_eq]
    refine (started inside within.1 copying b).andThen (fun tip member => ?_)
      (((Extends.push _ _).trans (.expr? scope copying _ cond)).trans
        (.looping fun b => .stmts _ copying b body.stmts))
    generalize stmts scope copying b init = b at member ⊢
    have tested := covers_expr? scope copying (b.push (.at id copying .loopHead [])).2 cond
    have extended := Extends.expr? scope copying (b.push (.at id copying .loopHead [])).2 cond
    have arrow : (b.push (.at id copying .loopHead [])).2.Arrow tip.source b.nodes.size :=
      ⟨tip.kind, mem_edges_push.2 (Or.inr ⟨member, rfl⟩)⟩
    refine covers_looping (extended.grows.nodes _ _ (bare?_push_self b _)) rfl
      (Tree.behaviorExpr?_plain cond) (tested _ (List.mem_singleton_self _)) ?_ ?_
      (drawn ⟨rfl, inside⟩ within.2 copying) (extended.grows.arrow arrow)
    · intro tip member
      cases cond with
      | none => exact ⟨tip, member, rfl⟩
      | some cond => exact mem_tipsAs member .onTrue
    · intro canFail tip member
      rw [if_pos canFail]
      exact mem_tipsAs member .onFalse
  returnValue scope id value left inside _ copying b := by
    rw [stmt_returnValue]
    exact (covers_expr? scope copying b value).andThen
      ((covers_push _ scope id copying _ _).andThen
        (left inside 0 _ .returns .returns .returnValue .returns)
        ((Extends.unwind scope 0 _).trans (.jump _ _ _)))
      ((Extends.push _ _).trans ((Extends.unwind scope 0 _).trans (.jump _ _ _)))
  breakLoop scope id left inside within copying b := by
    obtain ⟨frame, found⟩ := Option.isSome_iff_exists.1 within
    rw [stmt_breakLoop scope copying b id found]
    exact left inside (frame + 1) b .breaks (.breaks frame) .breakLoop (.breaks found)
  continueLoop scope id left inside within copying b := by
    obtain ⟨frame, found⟩ := Option.isSome_iff_exists.1 within
    rw [stmt_continueLoop scope copying b id found]
    exact left inside (frame + 1) b .continues (.continues frame) .continueLoop (.continues found)
  throwValue scope id value _ _ copying b := by
    rw [stmt_throwValue]
    exact (covers_expr scope copying b value).andThen
      ((covers_push _ scope id copying _ _).andThen (covers_raise _ scope _ [] .normal)
        (.of_tips (.raise _ scope _)))
      ((Extends.push _ _).trans (.of_tips (.raise _ scope _)))
  tryCatch scope id body catches cleanup drawn handling finished inside within copying b := by
    rw [Tree.Stmt.jumpsWithin, Bool.and_eq_true, Bool.and_eq_true,
      Tree.Block.jumpsWithin_eq] at within
    obtain ⟨⟨bodyWithin, catchesWithin⟩, cleanupWithin⟩ := within
    have guarding := covers_guarded b
      (fun handlers => drawn handlers ⟨cleanupWithin, inside⟩ bodyWithin copying)
      (handling ⟨cleanupWithin, inside⟩ catchesWithin copying)
    rw [Tree.Stmt.behavior]
    cases cleanup with
    | none =>
        rw [stmt_tryCatch_none, Tree.behaviorBlock?]
        exact covers_cleanedUp_none _ guarding
    | some block =>
        rw [Tree.jumpsWithinBlock?, Tree.Block.jumpsWithin_eq] at cleanupWithin
        have cleaning : ∀ copying (b : Builder),
            (b.stmts scope copying block.stmts).CoversTips scope b.tips block.behavior := by
          rw [block.behavior_eq]
          exact finished block rfl inside cleanupWithin
        rw [stmt_tryCatch_some, Tree.behaviorBlock?]
        exact covers_cleanedUp_some guarding (.cleaningUp fun b => .stmts scope true b block.stmts)
          (covers_cleaningUp (cleaning true)) (.of_tips (.stmts scope copying _ block.stmts))
          (cleaning copying _)
  noClause scope _ _ copying b entries := by
    rw [clauses_nil]
    refine ⟨fun _ member => member, fun entry clause member => ?_⟩
    rw [List.zip_nil_right] at member
    cases member
  clause scope clause rest drawn others inside within copying b entries := by
    rw [Tree.jumpsWithinCatches, Bool.and_eq_true, Tree.Catch.jumpsWithin_eq] at within
    cases entries with
    | nil =>
        rw [clauses_noEntry]
        exact ⟨fun _ member => member, fun entry clause member => nomatch member⟩
    | cons entry entries =>
        rw [clauses_cons]
        have covered := drawn inside within.1 copying
          { b with tips := [{ source := entry, kind := .normal }] } _ (List.mem_singleton_self _)
        generalize stmts scope copying { b with tips := [{ source := entry, kind := .normal }] }
          clause.body.stmts = drawn at covered ⊢
        obtain ⟨kept, later⟩ := others inside within.2 copying
          { drawn with tips := b.tips ++ drawn.tips } entries
        refine ⟨fun tip member => kept tip (List.mem_append_left _ member), fun _ _ member => ?_⟩
        rcases List.mem_cons.1 member with same | member
        · cases same
          exact covered.extend (.of_tips (.clauses scope copying _ entries rest))
            fun tip member => kept tip (List.mem_append_right _ member)
        · exact later _ _ member
  unwound _ keep b ending exit kind jumps := by
    rw [unwind_nil]
    intro tip member
    refine ⟨fun run => ?_, fun run _ escapes => ?_⟩
    · cases run
      exact absurd rfl jumps.ne_normal
    · cases run
      cases jumps with
      | returns =>
          cases escapes
          exact lands_jump b _ kind member
      | breaks found | continues found => cases found
  unwind frame outer drawn left inside := by
    refine covers_unwind_cons (fun block present b => ?_) (left inside.2)
    have within := inside.1
    rw [present, Tree.jumpsWithinBlock?, Tree.Block.jumpsWithin_eq] at within
    exact drawn block present inside.2 within true b

end Builder

end FragmentFlow.Graph
