import FragmentFlow.Proofs.Cleanup.Fence

/-!
# Drawing keeps the fence

Every statement keeps the fence around the protected code, wherever it is drawn.  A
jump out of the protected code passes the frame of the `try`, so the `finally` block
is drawn on its way; exceptions wait there until the block is drawn for them.
-/

namespace FragmentFlow.Graph

namespace Builder

variable {guard : Tree.Protected} {held : Nat → Prop} {place inner : Option Nat} {scope : Scope}
  {b : Builder} {copying : Bool}

/-- A `try` at a place, and the place where its body and its catch clauses are. -/
structure Region (guard : Tree.Protected) (place inner : Option Nat) (scope : Scope)
    (cleanup : Option Tree.Block) : Prop where
  encloses : ∀ held handlers, Encloses guard held place scope →
    (inner.isSome = true → ∀ id ∈ handlers.map Handler.entry, held id) →
      Encloses guard held inner (.region handlers cleanup :: scope)
  leaves : ∀ exit, scope.Offers exit → exit.Leaves place → exit.Leaves inner
  suits : ∀ block, cleanup = some block → guard.Suits place block.toNode
  enter : inner = none → place = none
  resume : place = none → inner = none ∨ ∃ block, cleanup = some block ∧ guard.Opens block.stmts

namespace Region

/-- Any other `try` is inside the protected code exactly if its body is. -/
theorem same {cleanup : Option Tree.Block}
    (suits : ∀ block, cleanup = some block → guard.Suits place block.toNode) :
    Region guard place place scope cleanup where
  encloses _ _ encloses entries := .region suits entries encloses
  leaves _ _ leaves := leaves
  suits := suits
  enter outside := outside
  resume outside := Or.inl outside

/-- The body of the `try` itself is inside the protected code. -/
theorem own : Region guard none (some scope.length) scope (some guard.cleanup) where
  encloses _ _ encloses entries := .guard (entries rfl) encloses
  leaves exit offers _ := by
    rintro depth ⟨⟩
    exact offers.below
  suits block present := by
    cases present
    exact guard.suits_cleanup
  enter inside := by cases inside
  resume _ := Or.inr ⟨guard.cleanup, rfl, guard.opens_cleanup⟩

variable {cleanup : Option Tree.Block} {tips : List Tip}

/-- Tips that are loose around a region are loose in it. -/
theorem loose (region : Region guard place inner scope cleanup)
    (loose : b.Loose place held tips) : b.Loose inner held tips :=
  fun tip member => ⟨(loose tip member).1, fun outside =>
    (loose tip member).2 (region.enter outside)⟩

/-- Behind the body the `finally` block may be drawn. -/
theorem ready {block : Tree.Block} (region : Region guard place inner scope (some block))
    (loose : b.Loose inner held tips) : b.Ready guard place held tips block.stmts := by
  by_cases outside : place = none
  · rcases region.resume outside with same | ⟨other, present, opens⟩
    · left
      exact fun tip member => ⟨(loose tip member).1, fun _ => (loose tip member).2 same⟩
    · cases present
      exact Or.inr ⟨outside, opens, fun tip member => (loose tip member).1⟩
  · left
    exact fun tip member => ⟨(loose tip member).1, fun absent => absurd absent outside⟩

/-- Without a `finally` block control goes on behind the body. -/
theorem loose_of_none (region : Region guard place inner scope none)
    (loose : b.Loose inner held tips) : b.Loose place held tips := by
  refine fun tip member => ⟨(loose tip member).1, fun outside => ?_⟩
  rcases region.resume outside with same | ⟨other, absent, -⟩
  · exact (loose tip member).2 same
  · cases absent

end Region

/-! ### What drawing has to keep -/

/-- Some statements keep the fence wherever they may be drawn. -/
def FencesStmts (guard : Tree.Protected) (scope : Scope) (list : List Tree.Stmt) : Prop :=
  ∀ copying (b : Builder) held place, Encloses guard held place scope →
    (∀ statement ∈ list, guard.Suits place (.stmt statement)) → b.Fenced guard held →
      b.Ready guard place held b.tips list →
        Fences guard place scope held b (b.stmts scope copying list)

/-- A statement keeps the fence wherever it may be drawn. -/
def FencesStmt (guard : Tree.Protected) (scope : Scope) (statement : Tree.Stmt) : Prop :=
  ∀ copying (b : Builder) held place, Encloses guard held place scope →
    guard.Suits place (.stmt statement) → b.Fenced guard held → b.Loose place held b.tips →
      Fences guard place scope held b (b.stmt scope copying statement)

/-- Some catch clauses keep the fence wherever they may be drawn. -/
def FencesClauses (guard : Tree.Protected) (scope : Scope) (list : List Tree.Catch) : Prop :=
  ∀ copying (b : Builder) held place (entries : List Nat), Encloses guard held place scope →
    (∀ clause ∈ list, guard.Suits place (.catchClause clause)) → b.Fenced guard held →
      b.Loose place held b.tips →
        (∀ entry ∈ entries, b.Loose place held [⟨entry, .normal⟩]) →
          Fences guard place scope held b (b.clauses scope copying entries list)

/-- The way out of all frames keeps the fence.  If it leads out of the protected code,
no tip is open at a held node behind it. -/
def FencesUnwind (guard : Tree.Protected) (scope : Scope) : Prop :=
  ∀ keep (b : Builder) held place, Encloses guard held place scope → b.Fenced guard held →
    b.Loose place held b.tips → ∃ more inner,
      Keeps guard place scope held more b (b.unwind scope keep) ∧
        (b.unwind scope keep).Loose inner more (b.unwind scope keep).tips ∧
          ((∀ depth, place = some depth → keep ≤ depth) → inner = none)

/-- Statements may follow at other tips. -/
theorem FencesStmts.resume {list : List Tree.Stmt} {tips : List Tip}
    (drawn : FencesStmts guard scope list) (copying : Bool)
    (encloses : Encloses guard held place scope)
    (suits : ∀ statement ∈ list, guard.Suits place (.stmt statement))
    (fenced : b.Fenced guard held) (ready : b.Ready guard place held tips list) :
    Fences guard place scope held b (stmts scope copying { b with tips } list) := by
  obtain ⟨more, kept, loose⟩ := drawn copying { b with tips } held place encloses suits
    (fenced.of_eq rfl rfl) ready
  exact ⟨more, kept.of_tips, loose⟩

/-! ### Frames -/

/-- A loop keeps the fence. -/
theorem fences_looping {tips exits : List Tip} {head : Nat} {update : List Tree.Expr}
    {body : Tree.Block} (drawn : FencesStmts guard (.loop :: scope) body.stmts)
    (encloses : Encloses guard held place scope) (fenced : b.Fenced guard held)
    (suitsBody : guard.Suits place body.toNode)
    (suitsUpdate : ∀ value ∈ update, guard.Suits place (.expr value))
    (enter : b.Loose place held tips) (leave : b.Loose place held exits)
    (isHeld : place.isSome = true → held head) :
    Fences guard place scope held b (b.looping scope copying tips exits head update body) := by
  obtain ⟨more, kept, loose⟩ := drawn copying { b with tips, parked := [] } held place
    (.loop encloses) suitsBody.stmts (fenced.of_eq rfl rfl) (Or.inl enter)
  have left := kept.leaveFrame fun _ _ leaves => leaves
  -- the updates follow the body and what continues it, and lead back to the head
  have started := loose.append (kept.looseUnder rfl (.continues scope.length))
  obtain ⟨most, updated, ends, -⟩ := Fenced.straight (left.to_tips _).fenced
    (left.encloses encloses)
    (Passed.exprs scope copying _ fun value member => (suitsUpdate value member).expr) started
  have back := updated.connect ends fun inside =>
    updated.holds head (left.holds head (isHeld inside))
  have turned := left.trans back.of_tips
  refine ⟨most, turned.to_tips _, (turned.loose leave).append ?_⟩
  exact back.loose (kept.looseUnder rfl (.breaks scope.length))

/-- The copy of a `finally` block for exceptions raises again behind it. -/
theorem fences_cleaningUp {raised : List Tip} {block : Tree.Block}
    (drawn : FencesStmts guard scope block.stmts) (encloses : Encloses guard held place scope)
    (fenced : b.Fenced guard held) (suits : guard.Suits place block.toNode)
    (ready : b.Ready guard place held raised block.stmts) :
    ∃ more, Keeps guard place scope held more b (b.cleaningUp scope raised block) := by
  unfold cleaningUp
  split
  · exact ⟨held, .refl fenced⟩
  · obtain ⟨more, kept, loose⟩ := drawn.resume true encloses suits.stmts fenced ready
    obtain ⟨most, raisedAgain, -⟩ := kept.fenced.straight (kept.encloses encloses)
      (Passed.pushRaise (.refl _) (.implicit .rethrow []) (guard.belongs_none place)).toStraight
      loose
    exact ⟨most, kept.trans raisedAgain⟩

/-- A `try` without its cleanup keeps the fence. -/
theorem fences_guarded {handlers : List Handler} {body : Tree.Block} {catches : List Tree.Catch}
    {cleanup : Option Tree.Block}
    (drawn : FencesStmts guard (.region handlers cleanup :: scope) body.stmts)
    (caught : FencesClauses guard (.region [] cleanup :: scope) catches)
    (region : Region guard place inner scope cleanup) (encloses : Encloses guard held place scope)
    (fenced : b.Fenced guard held) (suitsBody : guard.Suits inner body.toNode)
    (suitsCatches : ∀ clause ∈ catches, guard.Suits inner (.catchClause clause))
    (loose : b.Loose inner held b.tips)
    (isHeld : ∀ id ∈ handlers.map Handler.entry, id < b.nodes.size ∧
      (held id ↔ inner.isSome = true)) :
    Fences guard inner (.region [] cleanup :: scope) held { b with parked := [] }
      (b.guarded scope copying handlers body catches cleanup) := by
  obtain ⟨more, kept, ends⟩ := drawn copying { b with parked := [] } held inner
    (region.encloses held handlers encloses fun inside id member => (isHeld id member).2.2 inside)
    suitsBody.stmts (fenced.of_eq rfl rfl) (Or.inl loose)
  obtain ⟨most, handled, last⟩ := caught copying _ more inner (handlers.map Handler.entry)
    (region.encloses more [] (kept.encloses encloses) fun _ _ never => by cases never)
    suitsCatches kept.fenced ends fun entry member tip isOnly => by
      cases List.mem_singleton.1 isOnly
      obtain ⟨bound, known⟩ := isHeld entry member
      refine ⟨kept.bound bound, fun outside again => ?_⟩
      have inside := known.1 (kept.only entry bound again)
      rw [outside] at inside
      cases inside
  have tried : Keeps guard inner (.region [] cleanup :: scope) held more _ _ :=
    kept.widen (fun _ offers => offers) fun _ leaves => leaves
  exact ⟨most, tried.trans handled, last⟩

/-- A `try` keeps the fence. -/
theorem fences_tryCatch {id : Nat} {body : Tree.Block} {catches : List Tree.Catch}
    {cleanup : Option Tree.Block} (region : Region guard place inner scope cleanup)
    (drawn : ∀ handlers, FencesStmts guard (.region handlers cleanup :: scope) body.stmts)
    (caught : FencesClauses guard (.region [] cleanup :: scope) catches)
    (finished : ∀ block, cleanup = some block → FencesStmts guard scope block.stmts)
    (encloses : Encloses guard held place scope) (fenced : b.Fenced guard held)
    (suitsBody : guard.Suits inner body.toNode)
    (suitsCatches : ∀ clause ∈ catches, guard.Suits inner (.catchClause clause))
    (loose : b.Loose place held b.tips) :
    Fences guard place scope held b (b.stmt scope copying (.tryCatch id body catches cleanup)) := by
  -- the entries of the catch clauses are drawn where the clauses are
  obtain ⟨more, entered, tips, fresh⟩ := fenced.straight
    (region.encloses held [] encloses fun _ _ never => by cases never)
    (Straight.enterCatches _ copying b fun clause member => (suitsCatches clause member).clause.1)
    (region.loose loose)
  obtain ⟨most, tried, ends⟩ := fences_guarded (drawn _) caught region (entered.encloses encloses)
    entered.fenced suitsBody suitsCatches tips fun id member =>
      ⟨(fresh_enterCatches member).2, fresh id (fresh_enterCatches member)⟩
  have kept : Keeps guard place scope held more b _ := entered.of_parked (parked_enterCatches ..)
  have left := kept.trans (tried.leaveFrame region.leaves)
  cases cleanup with
  | none =>
      rw [stmt_tryCatch_none]
      exact ⟨most, left, region.loose_of_none ends⟩
  | some block =>
      rw [stmt_tryCatch_some]
      have suits := region.suits block rfl
      obtain ⟨last, cleaned⟩ := fences_cleaningUp (finished block rfl) (left.encloses encloses)
        left.fenced suits (region.ready (tried.looseUnder rfl (.cleanup scope.length)))
      obtain ⟨final, closed, behind⟩ := (finished block rfl).resume copying
        (cleaned.encloses (left.encloses encloses)) suits.stmts cleaned.fenced
        (cleaned.ready (region.ready ends))
      exact ⟨final, (left.trans cleaned).trans closed, behind⟩

/-- A jump draws the `finally` blocks of the frames it leaves. -/
theorem fences_jump {keep : Nat} {exit : Exit} (left : FencesUnwind guard scope)
    (encloses : Encloses guard held place scope) (fenced : b.Fenced guard held)
    (loose : b.Loose place held b.tips) (kind : EdgeKind) (offers : scope.Offers exit)
    (leaves : exit.Leaves place → ∀ depth, place = some depth → keep ≤ depth) :
    Fences guard place scope held b ((b.unwind scope keep).jump exit kind) := by
  obtain ⟨more, inner, unwound, last, outside⟩ := left keep b held place encloses fenced loose
  refine ⟨more, unwound.jump kind offers (fun isLeaving => ?_) fun tip member =>
    (last tip member).1, Loose.nil⟩
  exact outside (leaves isLeaving) ▸ last

/-! ### All statements -/

/-- Each statement keeps the fence, if its parts do. -/
theorem drawingCases_fences (guard : Tree.Protected) : DrawingCases (FencesStmts guard)
    (FencesStmt guard) (FencesClauses guard) (FencesUnwind guard) where
  nil scope copying b held place encloses suits fenced ready := by
    rw [stmts_nil]
    rcases ready with loose | ⟨-, ⟨_, _, _, never, -⟩, -⟩
    · exact ⟨held, .refl fenced, loose⟩
    · cases never
  cons scope first rest head tail copying b held place encloses suits fenced ready := by
    rw [stmts_cons]
    have begun : Fences guard place scope held b (b.stmt scope copying first) := by
      have suitsFirst := suits first List.mem_cons_self
      rcases ready with loose | ⟨rfl, ⟨id, value, others, same, final⟩, bound⟩
      · exact head copying b held place encloses suitsFirst fenced loose
      · cases same
        rw [stmt_exprStmt]
        exact fenced.opening (suitsFirst.part rfl List.mem_cons_self) final bound
    obtain ⟨more, kept, loose⟩ := begun
    obtain ⟨most, after, ends⟩ := tail copying _ more place (kept.encloses encloses)
      (fun statement member => suits statement (List.mem_cons_of_mem _ member)) kept.fenced
      (Or.inl loose)
    exact ⟨most, kept.trans after, ends⟩
  block scope inner drawn copying b held place encloses suits fenced loose := by
    rw [stmt_block]
    exact drawn copying b held place encloses (Tree.Protected.Suits.stmts suits) fenced
      (Or.inl loose)
  localDecl scope id name ty init copying b held place encloses suits fenced loose := by
    rw [stmt_localDecl]
    have straight := (Straight.mention b ty).trans (Straight.expr? scope copying _
      fun value member => (suits.part rfl (List.mem_map_of_mem member)).expr)
    have declared := straight.push
      (.at id copying (.decl name) (expr? scope copying (b.mention ty) init).1) (suits.number rfl)
    obtain ⟨more, kept, ends, -⟩ := fenced.straight encloses declared.toStraight loose
    exact ⟨more, kept, ends⟩
  exprStmt scope id value copying b held place encloses suits fenced loose := by
    rw [stmt_exprStmt]
    have straight := Passed.expr scope copying b (suits.part rfl List.mem_cons_self).expr
    obtain ⟨more, kept, ends, -⟩ := fenced.straight encloses straight.toStraight loose
    exact ⟨more, kept, ends⟩
  ifElse scope id cond whenTrue whenFalse first second copying b held place encloses suits fenced
      loose := by
    have straight := Passed.expr scope copying b (suits.part rfl List.mem_cons_self).expr
    obtain ⟨more, tested, ends, -⟩ := fenced.straight encloses straight.toStraight loose
    obtain ⟨most, chosen, last⟩ := first.resume copying (tested.encloses encloses)
      (suits.part rfl (List.mem_cons_of_mem _ List.mem_cons_self)).stmts tested.fenced
      (Or.inl (ends.tipsAs .onTrue))
    have kept := tested.trans chosen
    have unchosen := chosen.loose (ends.tipsAs .onFalse)
    cases whenFalse with
    | none =>
        rw [stmt_ifElse_none]
        exact ⟨most, kept.to_tips _, last.append unchosen⟩
    | some block =>
        rw [stmt_ifElse_some]
        have isOther : block.toNode ∈ (Tree.Stmt.ifElse id cond whenTrue (some block)).children :=
          List.mem_cons_of_mem _ (List.mem_cons_of_mem _ List.mem_cons_self)
        obtain ⟨all, other, behind⟩ := (second block rfl).resume copying (kept.encloses encloses)
          (suits.part rfl isOther).stmts kept.fenced (Or.inl unchosen)
        exact ⟨all, (kept.trans other).to_tips _, (other.loose last).append behind⟩
  whileLoop scope id cond body drawn copying b held place encloses suits fenced loose := by
    rw [stmt_whileLoop]
    have condition := Passed.expr scope copying (b.push (.at id copying .loopHead [])).2
      (suits.part rfl List.mem_cons_self).expr
    obtain ⟨straight, isHead⟩ := condition.behind (suits.number rfl)
    obtain ⟨more, tested, ends, fresh⟩ := fenced.straight encloses straight loose
    have noUpdate : ∀ value ∈ ([] : List Tree.Expr), guard.Suits place (.expr value) :=
      fun _ never => by cases never
    obtain ⟨most, looped, last⟩ := fences_looping drawn (tested.encloses encloses) tested.fenced
      (suits.part rfl (List.mem_cons_of_mem _ List.mem_cons_self)) noUpdate (ends.tipsAs .onTrue)
      (ends.tipsAs .onFalse) (fresh _ isHead).2
    exact ⟨most, tested.trans looped, last⟩
  forLoop scope id init cond update body started drawn copying b held place encloses suits fenced
      loose := by
    rw [stmt_forLoop]
    have parts : ∀ child, child ∈ init.map Tree.Node.stmt ∨ child ∈ cond.toList.map Tree.Node.expr ∨
        child ∈ update.map Tree.Node.expr ∨ child = body.toNode → guard.Suits place child := by
      intro child isPart
      apply suits.part rfl
      simpa [Tree.Stmt.children, or_assoc] using isPart
    obtain ⟨more, begun, ready⟩ := started copying b held place encloses
      (fun statement member => parts _ (Or.inl (List.mem_map_of_mem member))) fenced (Or.inl loose)
    have condition := Straight.expr? scope copying
      ((stmts scope copying b init).push (.at id copying .loopHead [])).2 fun value member =>
        (parts _ (Or.inr (Or.inl (List.mem_map_of_mem member)))).expr
    obtain ⟨straight, isHead⟩ := condition.behind (suits.number rfl)
    obtain ⟨most, tested, ends, fresh⟩ := begun.fenced.straight (begun.encloses encloses) straight
      ready
    have kept := begun.trans tested
    obtain ⟨all, looped, last⟩ := fences_looping drawn (kept.encloses encloses) kept.fenced
      (parts _ (Or.inr (Or.inr (Or.inr rfl))))
      (fun value member => parts _ (Or.inr (Or.inr (Or.inl (List.mem_map_of_mem member)))))
      (ends.tested cond.isSome .onTrue) (ends.exits cond.isSome .onFalse) (fresh _ isHead).2
    exact ⟨all, kept.trans looped, last⟩
  returnValue scope id value left copying b held place encloses suits fenced loose := by
    rw [stmt_returnValue]
    have straight := Straight.expr? scope copying b fun value member =>
      (suits.part rfl (List.mem_map_of_mem member)).expr
    have returned := straight.push (.at id copying .returnValue (expr? scope copying b value).1)
      (suits.number rfl)
    obtain ⟨more, kept, ends, -⟩ := fenced.straight encloses returned.toStraight loose
    obtain ⟨most, jumped, last⟩ := fences_jump left (kept.encloses encloses) kept.fenced ends
      .returnValue scope.offers_returns fun _ _ _ => Nat.zero_le _
    exact ⟨most, kept.trans jumped, last⟩
  breakLoop scope id left copying b held place encloses suits fenced loose := by
    cases found : scope.innermostLoop? with
    | none =>
        rw [stmt_breakLoop_outside scope copying b id found]
        exact ⟨held, (Keeps.refl fenced).to_tips [], Loose.nil⟩
    | some frame =>
        rw [stmt_breakLoop scope copying b id found]
        exact fences_jump left encloses fenced loose _
          (Scope.offers_innermostLoop? found List.mem_cons_self)
          fun leaves depth inside => leaves depth inside
  continueLoop scope id left copying b held place encloses suits fenced loose := by
    cases found : scope.innermostLoop? with
    | none =>
        rw [stmt_continueLoop_outside scope copying b id found]
        exact ⟨held, (Keeps.refl fenced).to_tips [], Loose.nil⟩
    | some frame =>
        rw [stmt_continueLoop scope copying b id found]
        exact fences_jump left encloses fenced loose _
          (Scope.offers_innermostLoop? found (List.mem_cons_of_mem _ List.mem_cons_self))
          fun leaves depth inside => leaves depth inside
  throwValue scope id value copying b held place encloses suits fenced loose := by
    rw [stmt_throwValue]
    have drawn := Passed.expr scope copying b (suits.part rfl List.mem_cons_self).expr
    have thrown := drawn.push (.at id copying .throwValue [(expr scope copying b value).1])
      (suits.number rfl)
    obtain ⟨more, kept, ends, -⟩ := fenced.straight encloses
      ((thrown.retip [] fun _ never => by cases never).raise (fresh_push drawn.grows _)) loose
    exact ⟨more, kept, ends⟩
  tryCatch scope id body catches cleanup drawn caught finished copying b held place encloses
      suits fenced loose := by
    -- outside, the protected `try` itself leads inside; any other stays where it is
    by_cases isGuard : place = none ∧
        Tree.Node.stmt (.tryCatch id body catches cleanup) = guard.toNode
    · obtain ⟨rfl, same⟩ := isGuard
      cases same
      exact fences_tryCatch .own drawn caught finished encloses fenced
        (guard.suits_inside _ List.mem_cons_self)
        (fun clause member => guard.suits_inside _
          (List.mem_cons_of_mem _ (List.mem_map_of_mem member))) loose
    · have parts : ∀ child ∈ (Tree.Stmt.tryCatch id body catches cleanup).children,
          guard.Suits place child := fun child isChild =>
        suits.below (fun outside same => isGuard ⟨outside, same⟩) rfl isChild
      refine fences_tryCatch (.same fun block present => ?_) drawn caught finished encloses fenced
        (parts _ List.mem_cons_self) (fun clause member => ?_) loose
      · cases present
        exact parts _ (List.mem_cons_of_mem _ (List.mem_append_right _ List.mem_cons_self))
      · exact parts _ (List.mem_cons_of_mem _ (List.mem_append_left _ (List.mem_map_of_mem member)))
  noClause scope copying b held place entries encloses suits fenced loose free := by
    rw [clauses_nil]
    exact ⟨held, .refl fenced, loose⟩
  clause scope clause rest drawn others copying b held place entries encloses suits fenced loose
      free := by
    cases entries with
    | nil =>
        rw [clauses_noEntry]
        exact ⟨held, .refl fenced, loose⟩
    | cons entry entries =>
        rw [clauses_cons]
        obtain ⟨more, handled, ends⟩ := drawn.resume copying encloses
          (suits clause List.mem_cons_self).clause.2.stmts fenced
          (Or.inl (free entry List.mem_cons_self))
        obtain ⟨most, rested, last⟩ := others copying _ more place entries
          (handled.encloses encloses)
          (fun other member => suits other (List.mem_cons_of_mem _ member))
          (handled.to_tips _).fenced ((handled.loose loose).append ends)
          fun other member => handled.loose (free other (List.mem_cons_of_mem _ member))
        exact ⟨most, handled.trans rested.of_tips, last⟩
  unwound keep b held place encloses fenced loose := by
    rw [unwind_nil]
    refine ⟨held, place, .refl fenced, loose, fun _ => ?_⟩
    cases encloses
    rfl
  unwind frame outer drawn left keep b held place encloses fenced loose := by
    by_cases kept : outer.length < keep
    · rw [unwind_kept b frame outer kept]
      refine ⟨held, place, .refl fenced, loose, fun leaves => ?_⟩
      cases place with
      | none => rfl
      | some depth =>
          have within := Nat.lt_succ_iff.1 encloses.lt_length
          have := leaves depth rfl
          omega
    · have leaving := Nat.le_of_not_lt kept
      have further : ∀ exit, outer.Offers exit → Scope.Offers (frame :: outer) exit :=
        fun _ => Or.inr
      cases encloses with
      | loop around =>
          rw [unwind_left b _ outer leaving rfl]
          obtain ⟨more, inner, unwound, rest⟩ := left keep b held place around fenced loose
          exact ⟨more, inner, unwound.widen further fun _ leaves => leaves, rest⟩
      | @region _ _ handlers cleanup suits entries around =>
          cases cleanup with
          | none =>
              rw [unwind_left b _ outer leaving rfl]
              obtain ⟨more, inner, unwound, rest⟩ := left keep b held place around fenced loose
              exact ⟨more, inner, unwound.widen further fun _ leaves => leaves, rest⟩
          | some block =>
              rw [unwind_cleanup b _ outer leaving rfl]
              obtain ⟨more, closed, ends⟩ := drawn block rfl true b held place around
                (suits block rfl).stmts fenced (Or.inl loose)
              obtain ⟨most, inner, unwound, rest⟩ := left keep _ more place
                (closed.encloses around) closed.fenced ends
              exact ⟨most, inner, (closed.trans unwound).widen further fun _ leaves => leaves, rest⟩
      | guard entries around =>
          -- behind the `finally` block control is outside the protected code
          rw [unwind_cleanup b _ outer leaving rfl]
          obtain ⟨more, closed, ends⟩ := drawn guard.cleanup rfl true b held none around
            guard.suits_cleanup.stmts fenced
            (Or.inr ⟨rfl, guard.opens_cleanup, fun tip member => (loose tip member).1⟩)
          obtain ⟨most, inner, unwound, last, outside⟩ := left keep _ more none
            (closed.encloses around) closed.fenced ends
          refine ⟨most, inner, (closed.trans unwound).widen further fun exit _ => exit.leaves_none,
            last, fun _ => outside fun _ absent => by cases absent⟩

end Builder

end FragmentFlow.Graph
