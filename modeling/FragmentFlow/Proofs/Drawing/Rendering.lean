import FragmentFlow.Proofs.Drawing.Places
import FragmentFlow.Proofs.Drawing.Tracking

/-!
# Drawing renders the code

Drawing from a view that shows some code does what the recursion over that code does.  It never
meets a construct in the wrong place and never leaves a frame that it has not entered.  It nests
no deeper than there are nodes, because whatever it enters has fewer nodes at hand.  So it fails
only because of a type name.
-/

namespace FragmentFlow.Graph

variable {Ref : Type} {env : Environment} {view : View Ref} {ref : Tree.Node → Ref} {scope : Scope}
  {copying : Bool} {b : Builder} {limit : Nat}

/-! ### What can be drawn within a limit -/

/-- What is to be drawn at a place is shown, and no more nodes are at hand than the limit. -/
structure View.Ready (view : View Ref) (ref : Tree.Node → Ref) (limit : Nat) (place : Place) :
    Prop where
  shown : view.Shows ref place.node
  small : place.weight ≤ limit

namespace View.Ready

variable {place next : Place}

/-- Something is at hand. -/
theorem exists_succ (ready : view.Ready ref limit place) : ∃ less, limit = less + 1 :=
  Nat.exists_eq_add_one.2 (Nat.lt_of_lt_of_le place.weight_pos ready.small)

/-- What is entered is within a smaller limit. -/
theorem enter (ready : view.Ready ref (limit + 1) place) (enters : place.Enters next)
    (shown : view.Shows ref next.node) : view.Ready ref limit next :=
  ⟨shown, Nat.le_of_lt_succ (Nat.lt_of_lt_of_le enters.weight_lt ready.small)⟩

/-- The parts of a construct are within a smaller limit. -/
theorem part {node child : Tree.Node} (ready : view.Ready ref (limit + 1) ⟨scope, node⟩)
    (outside : node.isLambda = false) (isPart : child ∈ node.children) :
    view.Ready ref limit ⟨scope, child⟩ :=
  ready.enter (.part outside isPart) (ready.shown.part isPart)

/-- Outside of all frames, no more nodes are at hand than there are. -/
theorem outermost {node : Tree.Node} (shown : view.Shows ref node) (fits : node.size ≤ view.size) :
    view.Ready ref view.size ⟨[], node⟩ :=
  ⟨shown, by rwa [Place.weight_root]⟩

/-- The same for a part of what is shown. -/
theorem outermost_part {node child : Tree.Node} (shown : view.Shows ref node)
    (fits : node.size ≤ view.size) (isPart : child ∈ node.children) :
    view.Ready ref view.size ⟨[], child⟩ :=
  outermost (shown.part isPart)
    (Nat.le_trans (Nat.le_of_lt (Tree.Node.size_lt_of_mem_children isPart)) fits)

end View.Ready

/-- The `finally` blocks of some frames can be drawn, each outside of its frame. -/
def Scope.Ready (scope : Scope) (view : View Ref) (ref : Tree.Node → Ref) (limit : Nat) : Prop :=
  ∀ inner frame outer block, scope = inner ++ frame :: outer → frame.cleanup? = some block →
    view.Ready ref limit ⟨outer, block.toNode⟩

/-- A jump can draw the `finally` blocks that it passes. -/
theorem Scope.Shown.ready (around : scope.Shown view ref) {statement : Tree.Stmt}
    (jumps : statement.isJump = true)
    (ready : view.Ready ref (limit + 1) ⟨scope, .stmt statement⟩) :
    scope.Ready view ref limit := by
  rintro inner frame outer block rfl present
  exact ready.enter (.passes jumps present)
    (around frame (List.mem_append_right _ List.mem_cons_self) block present)

/-- What a jump can draw outside of a frame. -/
theorem Scope.Ready.outside {frame : Frame} {outer : Scope}
    (ready : Scope.Ready (frame :: outer) view ref limit) : outer.Ready view ref limit := by
  rintro inner other further block rfl present
  exact ready (frame :: inner) other further block rfl present

namespace Renders

/-! ### Expressions -/

mutual

/-- An expression is drawn as it is shown. -/
theorem expr (copying : Bool) (b : Builder) (value : Tree.Expr) (limit : Nat)
    (ready : view.Ready ref limit ⟨scope, .expr value⟩) :
    Renders env ref scope copying (Draft.expr view env limit (ref (.expr value))) b
      (b.expr scope copying value).1 (b.expr scope copying value).2 := by
  obtain ⟨limit, rfl⟩ := ready.exists_succ
  rw [Draft.expr, ready.shown.number]
  refine .fetch ready.shown ?_
  match value with
  | .literal id value => exact .push id _ _
  | .ident id name => exact .push id _ _
  | .assign id target value =>
      exact (expr copying b value limit (ready.part rfl (by simp [Tree.Node.children,
        Tree.Expr.children]))).bind (.push id _ _)
  | .binary id op lhs rhs =>
      have left : Renders env ref scope copying _ b _ _ := expr copying b lhs limit
        (ready.part rfl (by simp [Tree.Node.children, Tree.Expr.children]))
      have readyRight : view.Ready ref limit ⟨scope, .expr rhs⟩ :=
        ready.part rfl (by simp [Tree.Node.children, Tree.Expr.children])
      refine left.bind ?_
      rw [Builder.expr]
      cases shortCircuit : op.isShortCircuit with
      | true =>
          simp only [↓reduceIte]
          have right := fun tips =>
            expr copying { (b.expr scope copying lhs).2 with tips } rhs limit readyRight
          by_cases isAnd : op = .and
          · simp only [isAnd, ↓reduceIte]
            exact .bind .split (.bind (.setPending _) (.bind (right _)
              (.bind (.addPending _) (.push id _ _))))
          · simp only [isAnd, ↓reduceIte]
            exact .bind .split (.bind (.setPending _) (.bind (right _)
              (.bind (.addPending _) (.push id _ _))))
      | false =>
          simp only [Bool.false_eq_true, ↓reduceIte]
          refine .bind (expr copying _ rhs limit readyRight) (.bind (.push id _ _) ?_)
          cases canThrow : op.canThrow with
          | true => exact .bind (.raise _) (.pure _)
          | false => exact .pure _
  | .unary id op operand =>
      exact (expr copying b operand limit (ready.part rfl (by simp [Tree.Node.children,
        Tree.Expr.children]))).bind (.push id _ _)
  | .conditional id cond whenTrue whenFalse =>
      have parts : ∀ part ∈ [cond, whenTrue, whenFalse],
          view.Ready ref limit ⟨scope, .expr part⟩ := fun part isPart =>
        ready.part rfl (List.mem_map_of_mem isPart)
      simp only [List.forall_mem_cons] at parts
      obtain ⟨isCond, isTrue, isFalse, -⟩ := parts
      exact (expr copying b cond limit isCond).bind (.bind .split (.bind (.setPending _)
        ((expr copying _ whenTrue limit isTrue).bind (.bind .takePending (.bind (.setPending _)
          ((expr copying _ whenFalse limit isFalse).bind
            (.bind .takePending (.bind (.setPending _) (.push id _ _)))))))))
  | .call id callee args =>
      have operands := exprs copying b args limit fun value member =>
        ready.part rfl (List.mem_map_of_mem member)
      exact operands.bind (.bind (.push id _ _) (.bind (.raise _) (.pure _)))
  | .new id ty args =>
      have operands := exprs copying (b.mention ty) args limit fun value member =>
        ready.part rfl (List.mem_map_of_mem member)
      exact .bind (.lookUp ty) (operands.bind (.bind (.push id _ _) (.bind (.raise _) (.pure _))))
  | .lambda id params body => exact .push id _ _

/-- Expressions are drawn one after the other. -/
theorem exprs (copying : Bool) (b : Builder) (values : List Tree.Expr) (limit : Nat)
    (ready : ∀ value ∈ values, view.Ready ref limit ⟨scope, .expr value⟩) :
    Renders env ref scope copying
      (Draft.exprs (Draft.expr view env limit) ((values.map Tree.Node.expr).map ref)) b
      (b.exprs scope copying values).1 (b.exprs scope copying values).2 := by
  match values with
  | [] =>
      rw [List.map_nil, List.map_nil, Draft.exprs]
      exact .pure []
  | value :: values =>
      rw [List.map_cons, List.map_cons, Draft.exprs]
      exact (expr copying b value limit (ready value List.mem_cons_self)).bind
        ((exprs copying _ values limit fun other member =>
          ready other (List.mem_cons_of_mem _ member)).bind (.pure _))

end

/-- An expression that may be absent. -/
theorem expr? (copying : Bool) (b : Builder) (value : Option Tree.Expr)
    (ready : ∀ part ∈ value.toList, view.Ready ref limit ⟨scope, .expr part⟩) :
    Renders env ref scope copying
      (Draft.expr? (Draft.expr view env limit) ((value.map Tree.Node.expr).map ref)) b
      (b.expr? scope copying value).1 (b.expr? scope copying value).2 := by
  cases value with
  | none => exact .pure []
  | some value => exact (expr copying b value limit (ready value List.mem_cons_self)).bind (.pure _)

/-! ### Statements -/

/-- The entries of catch clauses. -/
theorem enterCatches (copying : Bool) (b : Builder) (catches : List Tree.Catch)
    (shown : ∀ clause ∈ catches, view.Shows ref (.catchClause clause)) :
    Renders env ref scope copying
      (Draft.enterCatches view env ((catches.map Tree.Node.catchClause).map ref)) b
      ((b.enterCatches copying catches).1.zip (catches.map fun clause => ref clause.body.toNode))
      (b.enterCatches copying catches).2 := by
  induction catches generalizing b with
  | nil => exact .pure []
  | cons clause catches ih =>
      have isShown := shown clause List.mem_cons_self
      rw [List.map_cons, List.map_cons, Draft.enterCatches, isShown.number]
      exact .fetch isShown (.bind (.lookUp clause.ty) (.bind (.addNode clause.id _ _)
        (.bind (ih _ fun other member => shown other (List.mem_cons_of_mem _ member)) (.pure _))))

/-- A block is drawn as its statements are. -/
theorem block {body : Tree.Block} (ready : view.Ready ref limit ⟨scope, body.toNode⟩)
    (drawn : ∀ limit, (∀ part ∈ body.stmts, view.Ready ref limit ⟨scope, .stmt part⟩) →
      Renders env ref scope copying
        (Draft.stmts (Draft.stmt view env limit) ((body.stmts.map Tree.Node.stmt).map ref)) b ()
        (b.stmts scope copying body.stmts)) :
    Renders env ref scope copying (Draft.stmt view env limit (ref body.toNode)) b ()
      (b.stmts scope copying body.stmts) := by
  obtain ⟨limit, rfl⟩ := ready.exists_succ
  rw [Draft.stmt]
  exact .fetch ready.shown (drawn limit fun part member =>
    ready.part rfl (List.mem_map_of_mem member))

/-- The body of a loop, from the tips that enter it. -/
theorem loopBody {draw : Ref → Drawing Ref Unit} {body : Tree.Block} (b : Builder)
    (update : List Tree.Expr) (head : Nat) (tips exits : List Tip)
    (drawn : ∀ b : Builder, Renders env ref (.loop :: scope) copying (draw (ref body.toNode)) b ()
      (b.stmts (.loop :: scope) copying body.stmts))
    (ready : ∀ value ∈ update, view.Ready ref limit ⟨scope, .expr value⟩) :
    Renders env ref scope copying
      (Draft.loopBody draw (Draft.expr view env limit) (ref body.toNode)
        ((update.map Tree.Node.expr).map ref) head exits)
      { b with tips } () (b.looping scope copying tips exits head update body) :=
  .inLoop (drawn _) (.bind (.addPending _) (.bind (exprs copying _ update limit ready)
    (.bind (.connectPending head) (.setPending _))))

/-- The way out of all frames but some outer ones. -/
theorem exitThrough {draw : Ref → Drawing Ref Unit} {keep : Nat} (kind : EdgeKind) {later : Builder}
    (unwound : Renders env ref scope copying (Draft.unwind draw keep scope.length) b () later) :
    Renders env ref scope copying (Draft.exitThrough draw keep kind) b
      (later.tips.map fun tip => if tip.kind = .normal then { tip with kind } else tip)
      { later with tips := [] } :=
  .bind .depth (unwound.bind (.takeJump kind))

/-- A jump to the innermost loop. -/
theorem jump {draw : Ref → Drawing Ref Unit} (exit : Nat → Exit) {kind : EdgeKind}
    {wait : List Tip → Draft.Frame Ref → Draft.Frame Ref}
    (ends : ∀ depth, exit depth ∈ Frame.loop.exits depth)
    (waits : ∀ depth tips breaks continues, wait tips (.loop breaks continues) =
      .loop (breaks ++ if exit depth = .breaks depth then tips else [])
        (continues ++ if exit depth = .continues depth then tips else []))
    (unwound : ∀ keep, Renders env ref scope copying (Draft.unwind draw keep scope.length) b ()
      (b.unwind scope keep)) :
    Renders env ref scope copying (Draft.jump draw kind wait) b ()
      (match scope.innermostLoop? with
      | none => { b with tips := [] }
      | some depth => (b.unwind scope (depth + 1)).jump (exit depth) kind) := by
  refine .bind .loopDepth? ?_
  cases found : scope.innermostLoop? with
  | none => exact .setPending []
  | some depth =>
      exact .bind (exitThrough kind (unwound _))
        (.addJumps found (ends depth) (waits depth _))

/-- The `finally` block of a `try`, for exceptions that passed the `try` and for all else. -/
theorem cleanup {draw : Ref → Drawing Ref Unit} {final : Tree.Block}
    (raised continuation : List Tip)
    (drawn : ∀ (copying : Bool) (b : Builder), Renders env ref scope copying
      (draw (ref final.toNode)) b () (b.stmts scope copying final.stmts)) :
    Renders env ref scope copying
      (if raised.isEmpty then do
        Draft.setPending continuation
        draw (ref final.toNode)
      else do
        Draft.setPending raised
        Draft.beginCopy
        draw (ref final.toNode)
        Draft.endCopy
        let node ← Draft.push none .rethrow []
        Draft.setPending []
        Draft.raise node
        Draft.setPending continuation
        draw (ref final.toNode)) { b with tips := [] } ()
      ({ b.cleaningUp scope raised final with tips := continuation }.stmts scope copying
        final.stmts) := by
  rw [Builder.cleaningUp]
  cases raised.isEmpty with
  | true => exact .bind (.setPending _) (drawn copying _)
  | false =>
      refine .bind (.setPending _) (.copy (drawn true _) (.bind (.pushImplicit _ _)
        (.bind (.setPending []) (.bind (.raise _) ?_))))
      rw [Builder.raise_tips]
      exact .bind (.setPending _) (drawn copying _)

/-- All sorts of statements, in any frames.  The induction is that over the code; a limit is
there only to be large enough for what is at hand. -/
theorem drawingCases (env : Environment) (view : View Ref) (ref : Tree.Node → Ref) : DrawingCases
    (fun scope list => scope.Shown view ref →
      ∀ limit, (∀ part ∈ list, view.Ready ref limit ⟨scope, .stmt part⟩) →
        ∀ copying (b : Builder), Renders env ref scope copying
          (Draft.stmts (Draft.stmt view env limit) ((list.map Tree.Node.stmt).map ref)) b ()
          (b.stmts scope copying list))
    (fun scope statement => scope.Shown view ref →
      ∀ limit, view.Ready ref limit ⟨scope, .stmt statement⟩ →
        ∀ copying (b : Builder), Renders env ref scope copying
          (Draft.stmt view env limit (ref (.stmt statement))) b () (b.stmt scope copying statement))
    (fun scope list => scope.Shown view ref →
      ∀ limit, (∀ clause ∈ list, view.Ready ref limit ⟨scope, clause.body.toNode⟩) →
        ∀ copying (b : Builder) (handlers : List Handler), Renders env ref scope copying
          (Draft.handlers (Draft.stmt view env limit) b.tips
            (handlers.zip (list.map fun clause => ref clause.body.toNode)))
          { b with tips := [] } (b.clauses scope copying (handlers.map Handler.entry) list).tips
          { b.clauses scope copying (handlers.map Handler.entry) list with tips := [] })
    (fun scope => scope.Shown view ref → ∀ limit, scope.Ready view ref limit →
      ∀ inner copying keep (b : Builder), Renders env ref (inner ++ scope) copying
        (Draft.unwind (Draft.stmt view env limit) keep scope.length) b ()
          (b.unwind scope keep)) where
  nil scope around limit ready copying b := by
    rw [Builder.stmts_nil, List.map_nil, List.map_nil, Draft.stmts]
    exact .pure ()
  cons scope first rest head tail around limit ready copying b := by
    rw [Builder.stmts_cons, List.map_cons, List.map_cons, Draft.stmts]
    exact (head around limit (ready first List.mem_cons_self) copying b).bind
      (tail around limit (fun part member => ready part (List.mem_cons_of_mem _ member)) copying _)
  block scope inner drawn around limit ready copying b := by
    rw [Builder.stmt_block]
    exact block ready fun limit parts => drawn around limit parts copying b
  localDecl scope id name ty init around limit ready copying b := by
    obtain ⟨limit, rfl⟩ := ready.exists_succ
    rw [Builder.stmt_localDecl, Draft.stmt, ready.shown.number]
    exact .fetch ready.shown (.bind (.lookUp ty) (.bind (expr? copying _ init fun part member =>
      ready.part rfl (List.mem_map_of_mem member)) (.bind (.push id _ _) (.pure ()))))
  exprStmt scope id value around limit ready copying b := by
    obtain ⟨limit, rfl⟩ := ready.exists_succ
    rw [Builder.stmt_exprStmt, Draft.stmt]
    exact .fetch ready.shown (.bind
      (expr copying b value limit (ready.part rfl List.mem_cons_self)) (.pure ()))
  ifElse scope id cond whenTrue whenFalse first second around limit ready copying b := by
    obtain ⟨limit, rfl⟩ := ready.exists_succ
    rw [Draft.stmt]
    have test : Renders env ref scope copying _ b _ _ :=
      expr copying b cond limit (ready.part rfl List.mem_cons_self)
    have isTrue : view.Ready ref limit ⟨scope, whenTrue.toNode⟩ :=
      ready.part rfl (by simp [Tree.Node.children, Tree.Stmt.children])
    have onTrue : ∀ b : Builder, Renders env ref scope copying
        (Draft.stmt view env limit (ref whenTrue.toNode)) b ()
        (b.stmts scope copying whenTrue.stmts) :=
      fun b => block isTrue fun limit parts => first around limit parts copying b
    refine .fetch ready.shown (test.bind (.bind .split (.bind (.setPending _) ((onTrue _).bind
      (.bind .takePending (.bind (.setPending _) ?_))))))
    cases whenFalse with
    | none =>
        rw [Builder.stmt_ifElse_none]
        exact .bind .takePending (.setPending _)
    | some other =>
        rw [Builder.stmt_ifElse_some]
        have isFalse : view.Ready ref limit ⟨scope, other.toNode⟩ :=
          ready.part rfl (by simp [Tree.Node.children, Tree.Stmt.children])
        exact .bind (block isFalse fun limit parts => second other rfl around limit parts copying _)
          (.bind .takePending (.setPending _))
  whileLoop scope id cond body drawn around limit ready copying b := by
    obtain ⟨limit, rfl⟩ := ready.exists_succ
    rw [Builder.stmt_whileLoop, Draft.stmt, ready.shown.number]
    have isBody : view.Ready ref limit ⟨.loop :: scope, body.toNode⟩ :=
      ready.enter .whileBody (ready.shown.part (by simp [Tree.Node.children, Tree.Stmt.children]))
    have turn := fun b => block isBody fun limit parts => drawn around.loop limit parts copying b
    exact .fetch ready.shown (.bind (.push id _ _) (.bind (expr copying _ cond limit
      (ready.part rfl List.mem_cons_self)) (.bind .split (.bind (.setPending _)
        (loopBody (Builder.expr scope copying (b.push (.at id copying .loopHead [])).2 cond).2 [] _
          _ _ turn (List.forall_mem_nil _))))))
  forLoop scope id init cond update body started drawn around limit ready copying b := by
    obtain ⟨limit, rfl⟩ := ready.exists_succ
    rw [Builder.stmt_forLoop, Draft.stmt, ready.shown.number]
    have parts : ∀ part ∈ (Tree.Stmt.forLoop id init cond update body).children,
        view.Ready ref limit ⟨scope, part⟩ := fun _ isPart => ready.part rfl isPart
    simp only [Tree.Stmt.children, List.forall_mem_append, List.forall_mem_map,
      List.forall_mem_singleton] at parts
    obtain ⟨⟨⟨isInit, isCond⟩, isUpdate⟩, inScope⟩ := parts
    have isBody : view.Ready ref limit ⟨.loop :: scope, body.toNode⟩ :=
      ready.enter .forBody inScope.shown
    have turn := fun b => block isBody fun limit parts => drawn around.loop limit parts copying b
    let headed := ((Builder.stmts scope copying b init).push (.at id copying .loopHead [])).2
    refine .fetch ready.shown
      (.bind (started around limit isInit copying b) (.bind (.push id _ _) ?_))
    cases cond with
    | none => exact loopBody headed update _ _ _ turn isUpdate
    | some cond =>
        exact .bind (expr copying _ cond limit (isCond cond List.mem_cons_self)) (.bind .split
          (.bind (.setPending _) (loopBody (Builder.expr scope copying headed cond).2 update _ _ _
            turn isUpdate)))
  returnValue scope id value left around limit ready copying b := by
    obtain ⟨limit, rfl⟩ := ready.exists_succ
    rw [Builder.stmt_returnValue, Draft.stmt, ready.shown.number]
    exact .fetch ready.shown (.bind (expr? copying b value fun part member =>
      ready.part rfl (List.mem_map_of_mem member)) (.bind (.push id _ _)
        (.bind (exitThrough _ (left around limit (around.ready rfl ready) [] copying 0 _))
          (.addReturns _))))
  breakLoop scope id left around limit ready copying b := by
    obtain ⟨limit, rfl⟩ := ready.exists_succ
    rw [Builder.stmt, Draft.stmt]
    exact .fetch ready.shown (jump .breaks (by simp [Frame.exits])
      (by simp [Draft.Frame.breaking]) fun keep =>
        left around limit (around.ready rfl ready) [] copying keep b)
  continueLoop scope id left around limit ready copying b := by
    obtain ⟨limit, rfl⟩ := ready.exists_succ
    rw [Builder.stmt, Draft.stmt]
    exact .fetch ready.shown (jump .continues (by simp [Frame.exits])
      (by simp [Draft.Frame.continuing]) fun keep =>
        left around limit (around.ready rfl ready) [] copying keep b)
  throwValue scope id value around limit ready copying b := by
    obtain ⟨limit, rfl⟩ := ready.exists_succ
    rw [Builder.stmt_throwValue, Draft.stmt, ready.shown.number]
    exact .fetch ready.shown (.bind (expr copying b value limit
      (ready.part rfl List.mem_cons_self)) (.bind (.push id _ _)
        (.bind (.setPending []) (.raise _))))
  tryCatch scope id body catches cleanup drawn caught finished around limit ready copying b := by
    obtain ⟨limit, rfl⟩ := ready.exists_succ
    rw [Draft.stmt]
    have parts : ∀ part ∈ (Tree.Stmt.tryCatch id body catches cleanup).children,
        view.Ready ref limit ⟨scope, part⟩ := fun _ isPart => ready.part rfl isPart
    simp only [Tree.Stmt.children, List.forall_mem_cons, List.forall_mem_append,
      List.forall_mem_map] at parts
    obtain ⟨isBody, isCatch, isCleanup⟩ := parts
    have final : ∀ block, cleanup = some block → view.Shows ref block.toNode :=
      fun block present => (isCleanup block (Option.mem_toList.2 present)).shown
    have bodies : ∀ clause ∈ catches,
        view.Ready ref limit ⟨.region [] cleanup :: scope, clause.body.toNode⟩ :=
      fun clause member => ready.enter (.clause member)
        ((isCatch clause member).shown.part List.mem_cons_self)
    let entered := Builder.enterCatches copying b catches
    have inRegion : view.Ready ref limit ⟨.region entered.1 cleanup :: scope, body.toNode⟩ :=
      ready.enter (.tryBody _) isBody.shown
    have tried := block inRegion fun limit parts =>
      drawn entered.1 (around.cons final) limit parts copying { entered.2 with parked := [] }
    have clauses := caught (around.cons final) limit bodies copying
      (Builder.stmts (.region entered.1 cleanup :: scope) copying { entered.2 with parked := [] }
        body.stmts) entered.1
    have names : (entered.1.zip (catches.map fun clause => ref clause.body.toNode)).map Prod.fst =
        entered.1 :=
      List.map_fst_zip (Nat.le_of_eq (by rw [List.length_map, Builder.length_enterCatches]))
    refine .fetch ready.shown
      (.bind (enterCatches copying b catches fun clause member => (isCatch clause member).shown) ?_)
    rw [names]
    cases cleanup with
    | none =>
        rw [Builder.stmt_tryCatch_none]
        exact .inRegion tried clauses (.setPending _)
    | some last =>
        rw [Builder.stmt_tryCatch_some]
        exact .inRegion tried clauses (Renders.cleanup _ _ fun copying b =>
          block (isCleanup last List.mem_cons_self) fun limit parts =>
            finished last rfl around limit parts copying b)
  noClause scope around limit ready copying b handlers := by
    rw [Builder.clauses_nil, List.map_nil, List.zip_nil_right, Draft.handlers]
    exact .pure _
  clause scope clause rest drawn others around limit ready copying b handlers := by
    have isBody := ready clause List.mem_cons_self
    cases handlers with
    | nil =>
        rw [List.map_nil, Builder.clauses_noEntry, List.zip_nil_left, Draft.handlers]
        exact .pure _
    | cons handler handlers =>
        rw [List.map_cons, List.map_cons, Builder.clauses_cons, List.zip_cons_cons, Draft.handlers]
        exact .bind (.setPending _) (.bind (block isBody fun limit parts =>
          drawn around limit parts copying _) (.bind .takePending
            (others around limit (fun other member => ready other (List.mem_cons_of_mem _ member))
              copying
              { Builder.stmts scope copying
                  { b with tips := [{ source := handler.entry, kind := .normal }] }
                  clause.body.stmts with
                tips := b.tips ++ (Builder.stmts scope copying
                  { b with tips := [{ source := handler.entry, kind := .normal }] }
                  clause.body.stmts).tips } handlers)))
  unwound around limit ready inner copying keep b := by
    rw [Builder.unwind_nil, List.length_nil, Draft.unwind]
    exact .pure ()
  unwind frame outer drawn left around limit ready inner copying keep b := by
    rw [List.length_cons, Draft.unwind]
    by_cases kept : outer.length < keep
    · rw [if_pos kept, Builder.unwind_kept b frame outer kept]
      exact .pure ()
    · have left' := Nat.le_of_not_lt kept
      have further := fun b =>
        left around.outside limit ready.outside (inner ++ [frame]) copying keep b
      simp only [List.append_assoc, List.singleton_append] at further
      rw [if_neg kept]
      refine .bind .cleanupAt ?_
      cases present : frame.cleanup? with
      | none =>
          rw [Builder.unwind_left b frame outer left' present]
          exact further b
      | some final =>
          rw [Builder.unwind_cleanup b frame outer left' present]
          have copied := block (ready [] frame outer final rfl present) fun limit parts =>
            drawn final present around.outside limit parts true b
          have split : inner ++ frame :: outer = (inner ++ [frame]) ++ outer := by simp
          rw [split] at further ⊢
          exact .copyOutside copied (further _)

/-! ### Fragments -/

theorem params (b : Builder) (names : List String) :
    Renders env ref scope copying (Draft.params names) b () (b.params names) := by
  induction names generalizing b with
  | nil => exact .pure ()
  | cons name names ih => exact .bind (.pushImplicit _ _) (ih _)

theorem typedParams (b : Builder) (list : List Source.Param) :
    Renders env ref scope copying (Draft.typedParams env list) b ()
      (list.foldl (fun b param => (b.mention param.ty).params [param.name]) b) := by
  induction list generalizing b with
  | nil => exact .pure ()
  | cons param list ih => exact .bind (.lookUp param.ty) (.bind (.pushImplicit _ _) (ih _))

/-- A block outside of all frames. -/
theorem outermost (b : Builder) {body : Tree.Block}
    (ready : view.Ready ref limit ⟨[], body.toNode⟩) :
    Renders env ref [] false (Draft.stmt view env limit (ref body.toNode)) b ()
      (b.stmts [] false body.stmts) :=
  block ready fun limit parts =>
    (drawingCases env view ref).stmts [] body.stmts (List.forall_mem_nil _) limit parts false b

/-- The code of a fragment. -/
theorem code (b : Builder) {code : Fragment.Code} (name : String)
    (shown : view.Shows ref code.node) (fits : code.node.size ≤ view.size)
    (isCode : code.body?.isSome = true) :
    Renders env ref [] false (Draft.code view env code.kind name (ref code.node)) b ()
      (b.code code) := by
  rw [Draft.code]
  refine .fetch shown ?_
  have parts : ∀ part ∈ code.node.children, view.Ready ref view.size ⟨[], part⟩ :=
    fun _ isPart => .outermost_part shown fits isPart
  match code with
  | .method ⟨id, name, list, annotations, some body⟩ =>
      exact .bind (typedParams b list)
        (outermost _ (parts _ (by simp [Fragment.Code.node, Tree.Node.children])))
  | .lambda id names (.block body) =>
      have isBody := parts body.toNode (by simp [Fragment.Code.node, Tree.Node.children,
        Tree.Expr.children, Tree.LambdaBody.toNode])
      exact .bind (params b names) (.fetch isBody.shown (outermost _ isBody))
  | .lambda id names (.value result) =>
      have isResult := parts (.expr result) (by simp [Fragment.Code.node, Tree.Node.children,
        Tree.Expr.children, Tree.LambdaBody.toNode])
      have unwound : ∀ {b : Builder},
          Renders env ref [] false (Draft.unwind (Draft.stmt view env view.size) 0 0) b () b := by
        rw [Draft.unwind]
        exact .pure ()
      have returned : Renders env ref [] false (do
          let operand ← Draft.expr view env view.size (ref (.expr result))
          let _ ← Draft.push none .returnValue [operand]
          Draft.addReturns (← Draft.exitThrough (Draft.stmt view env view.size) 0 .returnValue))
          (b.params names) () (b.code (.lambda id names (.value result))) :=
        .bind (expr false _ result _ isResult) (.bind (.pushImplicit _ _)
          (.bind (exitThrough _ unwound) (.addReturns _)))
      refine .bind (params b names) (.fetch isResult.shown ?_)
      cases result <;> exact returned
  | .initializer body => exact outermost b (.outermost shown fits)
  | .fieldInitializer decl init =>
      have isInit := parts (.expr init) (by simp [Fragment.Code.node, Tree.Node.children])
      rw [shown.number]
      exact .bind (.lookUp decl.ty) (.bind (expr false _ init _ isInit)
        (.bind (.push decl.id _ _) (.pure ())))

end Renders

/-- A method without a body has no code to draw. -/
theorem Draft.code_of_noBody {code : Fragment.Code} (name : String)
    (shown : view.Shows ref code.node) (noCode : code.body?.isSome = false) (draft : Draft Ref) :
    Draft.code view env code.kind name (ref code.node) draft =
      some (.error (.internal (name ++ " has no body to build a CFG for"))) := by
  have read : Draft.fetch view (ref code.node) draft =
      some (.ok (code.node.shape.map ref, draft)) := by
    rw [Draft.fetch, shown.kind]
  rw [Draft.code, Drawing.bind_ok read]
  cases code with
  | method decl =>
      obtain ⟨id, name, list, annotations, body⟩ := decl
      cases body with
      | none => rfl
      | some body => cases noCode
  | lambda | initializer | fieldInitializer => cases noCode

/-- Drawing all code fails with the first type name that is not known, or leads to a draft of
what the recursion over the code draws. -/
theorem Draft.code_start (env : Environment) {code : Fragment.Code} (name : String)
    (shown : view.Shows ref code.node) (fits : code.node.size ≤ view.size)
    (isCode : code.body?.isSome = true) :
    match (Builder.start.code code).unknown? env with
    | some ty => Draft.code view env code.kind name (ref code.node) .start =
        some (.error (.unresolved ty))
    | none => ∃ draft, Draft.code view env code.kind name (ref code.node) .start =
        some (.ok ((), draft)) ∧ Tracks ref (fun _ => []) [] 0 (Builder.start.code code) draft := by
  have begun : Tracks ref (fun _ => []) [] 0 Builder.start (Draft.start : Draft Ref) :=
    ⟨rfl, rfl, .nil, rfl, rfl, rfl⟩
  have rendered : Renders env ref [] false _ _ _ _ := .code Builder.start name shown fits isCode
  exact rendered.follows _ 0 rfl _ begun rfl

/-- Behind all code no frame is left, and nothing is being copied. -/
theorem Draft.closed_of_code {code : Fragment.Code} {name : String} {draft : Draft Ref}
    (shown : view.Shows ref code.node) (fits : code.node.size ≤ view.size)
    (isCode : code.body?.isSome = true)
    (ran : Draft.code view env code.kind name (ref code.node) .start = some (.ok ((), draft))) :
    draft.frames = [] ∧ draft.duplicating = 0 := by
  have drawn := Draft.code_start env name shown fits isCode
  split at drawn
  · cases drawn.symm.trans ran
  · obtain ⟨last, ended, tracks⟩ := drawn
    cases ended.symm.trans ran
    refine ⟨?_, tracks.duplicating⟩
    have framed := tracks.frames
    generalize draft.frames = frames at framed
    cases framed
    rfl

/-- The exits are drawn on the canvas. -/
theorem Builder.finish_eq (b : Builder) (label : String) :
    b.finish label = b.toCanvas.finish label (b.tips ++ b.parkedUnder .returns)
      (b.parkedUnder .uncaught) := by
  have canvas : ∀ (b : Builder) (action : Action) (tips : List Tip),
      (b.endAt action tips).toCanvas = b.toCanvas.endAt action tips :=
    fun b action tips => Renders.toCanvas_connect _ _ _
  rw [finish, Canvas.finish, ended, canvas, canvas]

/-- The outcome of drawing all code of a fragment. -/
def drawnFrom (env : Environment) (code : Fragment.Code) (name : String) :
    Except Failure Graph :=
  if code.body?.isSome then
    match (Builder.start.code code).unknown? env with
    | some ty => .error (.unresolved ty)
    | none => .ok ((Builder.start.code code).finish name)
  else .error (.internal (name ++ " has no body to build a CFG for"))

/-- Drawing a fragment from a view that shows it ends, and fails only for lack of a body or of a
type. -/
theorem ofView_eq (code : Fragment.Code) (name : String) (shown : view.Shows ref code.node)
    (fits : code.node.size ≤ view.size) :
    ofView view env code.kind name (ref code.node) = some (drawnFrom env code name) := by
  have outcome : ∀ result, Draft.code view env code.kind name (ref code.node) .start = some result →
      ofView view env code.kind name (ref code.node) =
        some (result.map fun drawn => drawn.2.finish name) := by
    intro result ran
    change Option.map _ (Draft.code view env code.kind name (ref code.node) .start) = _
    rw [ran]
    rfl
  unfold drawnFrom
  split
  · rename_i isCode
    have drawn := Draft.code_start env name shown fits isCode
    split at drawn
    · exact outcome _ drawn
    · obtain ⟨last, ran, tracks⟩ := drawn
      rw [outcome _ ran, Builder.finish_eq]
      refine congrArg (some ∘ Except.ok) ?_
      change Canvas.finish _ _ (last.pending ++ last.returns) _ = _
      rw [tracks.canvas, tracks.pending, tracks.returns, tracks.uncaught, List.nil_append,
        List.nil_append]
  · rename_i noCode
    exact outcome _ (Draft.code_of_noBody name shown (eq_false_of_ne_true noCode) _)

/-- A construct shows itself and all below it. -/
theorem View.shows_below (root node : Tree.Node) : (View.below root).Shows id node :=
  fun inner _ => ⟨congrArg some (Tree.Kind.map_id inner.shape).symm, rfl⟩

/-- The graph of a fragment is the one that the recursion over its code draws, if all type names
that are met are known. -/
theorem ofFragment_eq (fragment : Fragment) (env : Environment) :
    ofFragment fragment env = drawnFrom env fragment.code fragment.name := by
  have drawn : ofView (.below fragment.code.node) env fragment.code.kind fragment.name
      fragment.code.node = some (drawnFrom env fragment.code fragment.name) :=
    ofView_eq fragment.code fragment.name (View.shows_below _ _) (Nat.le_refl _)
  rw [ofFragment, drawn]

end FragmentFlow.Graph
