import FragmentFlow.Proofs.Drawing.TypeNames
import FragmentFlow.Proofs.Raising.Additions
import FragmentFlow.Proofs.Ways.Basic

/-!
# Drawn code loses no way

Expressions, loops, `try` statements and jumps one by one, and then all statements by
induction on drawn code.  A jump finds its loop, and only conditions are marked as such.
-/

namespace FragmentFlow

/-- Each of some catch clauses jumps only within loops. -/
theorem Tree.jumpsWithin_of_mem {inLoop : Bool} {catches : List Tree.Catch}
    (within : Tree.jumpsWithinCatches inLoop catches = true) {clause : Tree.Catch}
    (member : clause ∈ catches) : clause.jumpsWithin inLoop = true := by
  induction catches with
  | nil => cases member
  | cons first rest ih =>
      rw [Tree.jumpsWithinCatches, Bool.and_eq_true] at within
      rcases List.mem_cons.1 member with rfl | later
      · exact within.1
      · exact ih within.2 later

namespace Graph

namespace Builder

variable {marked : Nat → Prop} {aside : Tip → Prop} {b : Builder}

/-- Behind an expression the current place is that of its value. -/
theorem tips_expr (scope : Scope) (copying : Bool) (b : Builder) (value : Tree.Expr) :
    (b.expr scope copying value).2.tips = [⟨(b.expr scope copying value).1, .normal⟩] := by
  cases value with
  | binary id op lhs rhs =>
      rw [expr]
      dsimp only
      split
      · rfl
      · split
        · exact tips_raise _ _ _
        · rfl
  | call | new => exact tips_raise _ _ _
  | literal | ident | assign | unary | conditional | lambda => rfl

namespace Whole

mutual

/-- An expression keeps a drawing whole but for the outcome of its own condition. -/
theorem expr {aside : Tip → Prop} {b : Builder} (scope : Scope) (copying : Bool)
    (value : Tree.Expr) (only : (Tree.Node.expr value).OnlyConditions marked)
    (whole : Whole marked aside b) :
    Whole marked
      (fun tip => Undecided marked (some value.id) (b.expr scope copying value).1 tip ∨ aside tip)
      (b.expr scope copying value).2 := by
  match value with
  | .literal id value => exact whole.pushQuiet (.at id copying (.literal value) []) rfl rfl
  | .ident id name => exact whole.pushQuiet (.at id copying (.ident name) []) rfl rfl
  | .assign id target operand =>
      have part := only.other rfl List.mem_cons_self
      have drawn := (expr scope copying operand part.below whole).decided part.not_marked
      exact drawn.pushQuiet (.at id copying (.assign target) _) rfl rfl
  | .binary id op lhs rhs =>
      rw [Builder.expr]
      dsimp only
      split
      · rename_i isShort
        have tested := expr scope copying lhs (only.condition (if_pos isShort)) whole
        have opposite : (if op = .and then EdgeKind.onTrue else .onFalse).Opposite
            (if op = .and then .onFalse else .onTrue) := by
          split
          · exact Or.inl ⟨rfl, rfl⟩
          · exact Or.inr ⟨rfl, rfl⟩
        have branched := tested.branch (tips_expr scope copying b lhs) opposite
        have isOther : .expr rhs ∈ (Tree.Node.expr (.binary id op lhs rhs)).others := by
          rw [Tree.Node.others, if_pos isShort]
          exact List.mem_cons_self
        have part := only.other rfl isOther
        have second := (expr scope copying rhs part.below branched).decided part.not_marked
        exact (second.join fun tip => List.mem_append).pushQuiet (.at id copying (.binary op) _)
          rfl (by cases op <;> first | rfl | cases isShort)
      · rename_i isLong
        have others : (Tree.Node.expr (.binary id op lhs rhs)).others = [.expr lhs, .expr rhs] :=
          if_neg isLong
        have left := only.other rfl (others ▸ List.mem_cons_self)
        have right := only.other rfl (others ▸ List.mem_cons_of_mem _ List.mem_cons_self)
        have first := (expr scope copying lhs left.below whole).decided left.not_marked
        have second := (expr scope copying rhs right.below first).decided right.not_marked
        split
        · rename_i throws
          exact second.pushRaise scope (.at id copying (.binary op) _) rfl throws
        · rename_i quiet
          exact second.pushQuiet (.at id copying (.binary op) _) rfl
            (Bool.eq_false_of_not_eq_true quiet)
  | .unary id op operand =>
      have part := only.other rfl List.mem_cons_self
      have drawn := (expr scope copying operand part.below whole).decided part.not_marked
      exact drawn.pushQuiet (.at id copying (.unary op) _) rfl rfl
  | .conditional id cond whenTrue whenFalse =>
      have tested := expr scope copying cond (only.condition rfl) whole
      have branched := tested.branch (tips_expr scope copying b cond) (Or.inl ⟨rfl, rfl⟩)
      have one := only.other rfl List.mem_cons_self
      have two := only.other rfl (List.mem_cons_of_mem _ List.mem_cons_self)
      have first := (expr scope copying whenTrue one.below branched).decided one.not_marked
      have second := (expr scope copying whenFalse two.below first.swap).decided two.not_marked
      exact (second.join fun tip => List.mem_append.trans or_comm).pushQuiet
        (.at id copying .conditional _) rfl rfl
  | .call id callee args =>
      have drawn := exprs scope copying args
        (fun value member => only.other rfl (List.mem_map_of_mem member)) whole
      exact drawn.pushRaise scope (.at id copying (.call callee) _) rfl rfl
  | .new id ty args =>
      have drawn := exprs scope copying args
        (fun value member => only.other rfl (List.mem_map_of_mem member)) (whole.mention ty)
      exact drawn.pushRaise scope (.at id copying (.new ty) _) rfl rfl
  | .lambda id params body => exact whole.pushQuiet (.at id copying .lambda []) rfl rfl

theorem exprs {aside : Tip → Prop} {b : Builder} (scope : Scope) (copying : Bool)
    (values : List Tree.Expr) (parts : ∀ value ∈ values, (Tree.Node.expr value).Unmarked marked)
    (whole : Whole marked aside b) : Whole marked aside (b.exprs scope copying values).2 := by
  match values with
  | [] => exact whole
  | value :: values =>
      have part := parts value List.mem_cons_self
      exact exprs scope copying values
        (fun other member => parts other (List.mem_cons_of_mem _ member))
        ((expr scope copying value part.below whole).decided part.not_marked)

end

/-- An expression that is not a condition. -/
theorem operandExpr (scope : Scope) (copying : Bool) (value : Tree.Expr)
    (part : (Tree.Node.expr value).Unmarked marked) (whole : Whole marked aside b) :
    Whole marked aside (b.expr scope copying value).2 :=
  (expr scope copying value part.below whole).decided part.not_marked

theorem expr? (scope : Scope) (copying : Bool) (value : Option Tree.Expr)
    (parts : ∀ inner ∈ value.toList, (Tree.Node.expr inner).Unmarked marked)
    (whole : Whole marked aside b) : Whole marked aside (b.expr? scope copying value).2 := by
  cases value with
  | none => exact whole
  | some value => exact operandExpr scope copying value (parts value List.mem_cons_self) whole

/-! ### Frames -/

/-- What was parked before a frame is set aside inside it. -/
theorem enterFrame {tips : List Tip} (whole : Whole marked aside { b with tips }) :
    Whole marked (fun tip => (∃ exit, (exit, tip) ∈ b.parked) ∨ aside tip)
      { b with tips, parked := [] } := by
  refine whole.regroup rfl rfl fun tip => ?_
  simp only [Pending, List.not_mem_nil, exists_false, or_false, or_assoc]

/-- Behind a frame, what ends there is set aside. -/
theorem leaveFrame {before : List (Exit × Tip)}
    (whole : Whole marked (fun tip => (∃ exit, (exit, tip) ∈ before) ∨ aside tip) b)
    (ending : List Exit) :
    Whole marked (fun tip => (∃ exit ∈ ending, tip ∈ b.parkedUnder exit) ∨ aside tip)
      (b.leaveFrame before ending) := by
  refine whole.regroup rfl rfl fun tip => ?_
  have parted : (∃ exit, (exit, tip) ∈ (b.leaveFrame before ending).parked) ∨
      (∃ exit ∈ ending, tip ∈ b.parkedUnder exit) ↔
      (∃ exit, (exit, tip) ∈ b.parked) ∨ ∃ exit, (exit, tip) ∈ before := by
    constructor
    · rintro (⟨exit, isParked⟩ | ⟨exit, -, isParked⟩)
      · rcases List.mem_append.1 isParked with old | inside
        · exact Or.inr ⟨exit, old⟩
        · exact Or.inl ⟨exit, (List.mem_filter.1 inside).1⟩
      · exact Or.inl ⟨exit, mem_parkedUnder.1 isParked⟩
    · rintro (⟨exit, isParked⟩ | ⟨exit, old⟩)
      · by_cases ends : exit ∈ ending
        · exact Or.inr ⟨exit, ends, mem_parkedUnder.2 isParked⟩
        · exact Or.inl ⟨exit, List.mem_append_right _
            (List.mem_filter.2 ⟨isParked, by simpa using ends⟩)⟩
      · exact Or.inl ⟨exit, List.mem_append_left _ old⟩
  rw [Pending, Pending, or_assoc, or_assoc]
  refine or_congr_right ?_
  rw [← or_assoc, parted, or_assoc]

/-- A loop goes on to its updates, back to its head, and behind itself. -/
theorem looping {scope : Scope} {copying : Bool} {tips exits : List Tip} {head : Nat}
    {update : List Tree.Expr} {body : Tree.Block}
    (drawn : ∀ aside b, Whole marked aside b →
      Whole marked aside (stmts (.loop :: scope) copying b body.stmts))
    (updates : ∀ value ∈ update, (Tree.Node.expr value).Unmarked marked)
    (whole : Whole marked (fun tip => tip ∈ exits ∨ aside tip) { b with tips }) :
    Whole marked aside (b.looping scope copying tips exits head update body) := by
  have left := (drawn _ _ whole.enterFrame).leaveFrame
    [.breaks scope.length, .continues scope.length]
  rw [Builder.looping, closeLoop_eq]
  generalize stmts (.loop :: scope) copying { b with tips, parked := [] } body.stmts = inner at left
  have continued : Whole marked
      (fun tip => tip ∈ exits ++ inner.parkedUnder (.breaks scope.length) ∨ aside tip)
      (inner.atUpdates scope b.parked) := by
    refine left.regroup rfl rfl fun tip => ?_
    simp only [Pending, atUpdates, List.mem_append, List.mem_cons, List.not_mem_nil, or_false,
      exists_eq_or_imp, exists_eq_left, Builder.leaveFrame]
    exact Iff.of_eq (by ac_rfl)
  exact (exprs scope copying update updates continued).connect head

/-- The entries of catch clauses are set aside. -/
theorem enterCatches (copying : Bool) {catches : List Tree.Catch}
    (unmarked : ∀ clause ∈ catches, ¬ marked clause.id) (whole : Whole marked aside b) :
    Whole marked
      (fun tip => tip ∈ ((b.enterCatches copying catches).1.map Handler.entry).map (⟨·, .normal⟩) ∨
        aside tip) (b.enterCatches copying catches).2 := by
  induction catches generalizing b aside with
  | nil => exact whole.regroup rfl rfl fun tip => by simp [Builder.enterCatches]
  | cons clause catches ih =>
      have notCondition : ∀ id, some clause.id = some id → ¬ marked id := by
        rintro _ ⟨⟩
        exact unmarked clause List.mem_cons_self
      have added := (whole.mention clause.ty).addNode
        (.at clause.id copying (.catchParam clause.name clause.ty) [])
        fun _ needs => needs.allows (Or.inl rfl)
      have first : Whole marked (fun tip => tip = ⟨b.nodes.size, .normal⟩ ∨ aside tip)
          ((b.mention clause.ty).addNode
            (.at clause.id copying (.catchParam clause.name clause.ty) [])).2 := by
        refine added.regroup rfl rfl fun tip => or_congr_right (or_congr_left ⟨?_, ?_⟩)
        · rintro rfl
          exact ⟨rfl, .normal rfl⟩
        · rintro ⟨isNew, needs⟩
          obtain ⟨source, kind⟩ := tip
          cases needs.eq_normal rfl notCondition
          exact congrArg (Tip.mk · _) isNew
      refine (ih (fun other member => unmarked other (List.mem_cons_of_mem _ member)) first).regroup
        rfl rfl fun tip => or_congr_right ?_
      exact (or_congr_left List.mem_cons).trans (or_assoc.trans or_left_comm)

end Whole

namespace Whole

/-- A `try` sets aside what waits for its `finally` block. -/
theorem guarded {scope : Scope} {copying : Bool} {handlers : List Handler} {body : Tree.Block}
    {catches : List Tree.Catch} {cleanup : Option Tree.Block}
    (drawn : ∀ aside b, Whole marked aside b →
      Whole marked aside (stmts (.region handlers cleanup :: scope) copying b body.stmts))
    (caught : ∀ aside b,
      Whole marked (fun tip =>
        tip ∈ (handlers.map Handler.entry).map (⟨·, .normal⟩) ∨ aside tip) b →
      Whole marked aside (clauses (.region [] cleanup :: scope) copying b
        (handlers.map Handler.entry) catches))
    (whole : Whole marked (fun tip =>
      tip ∈ (handlers.map Handler.entry).map (⟨·, .normal⟩) ∨ aside tip) b) :
    Whole marked
      (fun tip => tip ∈ (b.guarded scope copying handlers body catches cleanup).parkedUnder
        (.cleanup scope.length) ∨ aside tip)
      ((b.guarded scope copying handlers body catches cleanup).leaveFrame b.parked
        [.cleanup scope.length]) := by
  have entered : Whole marked (fun tip =>
      tip ∈ (handlers.map Handler.entry).map (⟨·, .normal⟩) ∨
        (∃ exit, (exit, tip) ∈ b.parked) ∨ aside tip) { b with parked := [] } :=
    (show Whole marked _ { b with tips := b.tips } from whole).enterFrame.regroup rfl rfl fun tip =>
      or_congr_right or_left_comm
  have left := (caught _ _ (drawn _ _ entered)).leaveFrame [.cleanup scope.length]
  refine left.regroup rfl rfl fun tip => or_congr_right (or_congr_left ?_)
  simp only [List.mem_singleton, exists_eq_left]
  rfl

/-- Exceptions pass the copy of a `finally` block and are raised again behind it. -/
theorem cleaningUp {scope : Scope} {raised : List Tip} {block : Tree.Block}
    (drawn : ∀ aside b, Whole marked aside b →
      Whole marked aside (stmts scope true b block.stmts))
    (whole : Whole marked (fun tip => tip ∈ raised ∨ aside tip) b) :
    Whole marked aside { b.cleaningUp scope raised block with tips := b.tips } := by
  unfold Builder.cleaningUp
  split
  · rename_i isEmpty
    refine whole.regroup rfl rfl fun tip => or_congr_right ?_
    rw [List.isEmpty_iff.1 isEmpty]
    simp
  · have copied := drawn _ _ whole.swap
    have rethrown := copied.pushThrow scope (.implicit .rethrow []) rfl fun id absent => by
      cases absent
    rw [raise_tips] at rethrown
    exact rethrown

end Whole

/-- Without a `finally` block, nothing waits for one. -/
theorem parkedUnder_guarded (scope : Scope) (copying : Bool) (b : Builder)
    (handlers : List Handler) (body : Tree.Block) (catches : List Tree.Catch) :
    (b.guarded scope copying handlers body catches none).parkedUnder (.cleanup scope.length) =
      [] := by
  refine List.eq_nil_iff_forall_not_mem.2 fun tip member => ?_
  have adds : Adds (.region handlers none :: scope) _ { b with parked := [] }
      (b.guarded scope copying handlers body catches none) :=
    (Adds.stmts _ copying _ body.stmts).trans
      ((Adds.clauses _ copying _ (handlers.map Handler.entry) catches).widen
        fun exit offers => offers)
  rcases adds.exits _ (mem_parkedUnder.1 member) with never | ⟨⟨-, cleans⟩ | further, -⟩
  · cases never
  · cases cleans rfl
  · exact Nat.lt_irrefl _ further.below

/-! ### All statements -/

/-- Statements that may be drawn within some frames: every jump finds its loop, and only
conditions are marked. -/
structure Drawable (marked : Nat → Prop) (scope : Scope) (list : List Tree.Stmt) : Prop where
  jumps : Tree.jumpsWithinStmts scope.innermostLoop?.isSome list = true
  parts : ∀ statement ∈ list, (Tree.Node.stmt statement).Unmarked marked

/-- The `finally` blocks of some frames may be drawn outside them. -/
def Enclosed (marked : Nat → Prop) : Scope → Prop
  | [] => True
  | frame :: outer =>
    (∀ block, frame.cleanup? = some block → Drawable marked outer block.stmts) ∧
      Enclosed marked outer

theorem Enclosed.loop {scope : Scope} (enclosed : Enclosed marked scope) :
    Enclosed marked (.loop :: scope) := by
  refine ⟨fun block absent => ?_, enclosed⟩
  cases absent

namespace Drawable

variable {scope : Scope} {first statement : Tree.Stmt} {rest : List Tree.Stmt}

/-- A block without marked conditions is drawable. -/
theorem of_block {block : Tree.Block} (unmarked : block.toNode.Unmarked marked)
    (jumps : block.jumpsWithin scope.innermostLoop?.isSome = true) :
    Drawable marked scope block.stmts where
  jumps := by
    rw [← Tree.Block.jumpsWithin_eq]
    exact jumps
  parts statement member := unmarked.below.other rfl (List.mem_map_of_mem member)

theorem head (drawable : Drawable marked scope (first :: rest)) :
    Drawable marked scope [first] where
  jumps := by
    have jumps := drawable.jumps
    rw [Tree.jumpsWithinStmts, Bool.and_eq_true] at jumps
    rw [Tree.jumpsWithinStmts, jumps.1]
    rfl
  parts statement member := by
    cases List.mem_singleton.1 member
    exact drawable.parts _ List.mem_cons_self

theorem tail (drawable : Drawable marked scope (first :: rest)) : Drawable marked scope rest where
  jumps := by
    have jumps := drawable.jumps
    rw [Tree.jumpsWithinStmts, Bool.and_eq_true] at jumps
    exact jumps.2
  parts statement member := drawable.parts statement (List.mem_cons_of_mem _ member)

theorem self (drawable : Drawable marked scope [statement]) : ¬ marked statement.id :=
  (drawable.parts statement List.mem_cons_self).self

/-- In a drawable statement only the condition may be marked. -/
theorem other (drawable : Drawable marked scope [statement]) {part : Tree.Node}
    (isOther : part ∈ (Tree.Node.stmt statement).others) : part.Unmarked marked :=
  (drawable.parts statement List.mem_cons_self).below.other rfl isOther

/-- The condition of a drawable statement is marked as a condition only. -/
theorem condition (drawable : Drawable marked scope [statement]) {cond : Tree.Expr}
    (isDecider : (Tree.Node.stmt statement).decider? = some cond) :
    (Tree.Node.expr cond).OnlyConditions marked :=
  (drawable.parts statement List.mem_cons_self).below.condition isDecider

/-- A drawable statement jumps only within loops. -/
theorem jumpsWithin (drawable : Drawable marked scope [statement]) :
    statement.jumpsWithin scope.innermostLoop?.isSome = true := by
  have jumps := drawable.jumps
  rw [Tree.jumpsWithinStmts, Bool.and_eq_true] at jumps
  exact jumps.1

end Drawable

namespace Whole

/-- The node of a statement is not a condition. -/
theorem pushStmt (whole : Whole marked aside b) (copying : Bool) {id : Nat} (action : Action)
    (operands : List Nat) (completes : action.completes = true) (quiet : action.canThrow = false)
    (unmarked : ¬ marked id) : Whole marked aside (b.push (.at id copying action operands)).2 := by
  refine whole.pushPlain (.at id copying action operands) completes quiet ?_
  rintro _ ⟨⟩
  exact unmarked

/-- Each statement keeps a drawing whole, if its parts do. -/
theorem drawingCases : DrawingCases
    (fun scope list => ∀ copying aside b, Enclosed marked scope → Drawable marked scope list →
      Whole marked aside b → Whole marked aside (stmts scope copying b list))
    (fun scope statement => ∀ copying aside b, Enclosed marked scope →
      Drawable marked scope [statement] → Whole marked aside b →
        Whole marked aside (stmt scope copying b statement))
    (fun scope list => ∀ copying aside b entries, Enclosed marked scope →
      (∀ clause ∈ list, Drawable marked scope clause.body.stmts) →
        entries.length ≤ list.length →
        Whole marked (fun tip => tip ∈ entries.map (⟨·, .normal⟩) ∨ aside tip) b →
          Whole marked aside (clauses scope copying b entries list))
    (fun scope => ∀ keep aside b, Enclosed marked scope → Whole marked aside b →
      Whole marked aside (unwind scope keep b)) where
  nil scope copying aside b _ _ whole := by
    rw [stmts_nil]
    exact whole
  cons scope first rest head tail copying aside b enclosed drawable whole := by
    rw [stmts_cons]
    exact tail copying aside _ enclosed drawable.tail
      (head copying aside b enclosed drawable.head whole)
  block scope inner drawn copying aside b enclosed drawable whole := by
    rw [stmt_block]
    exact drawn copying aside b enclosed
      (.of_block (drawable.parts _ List.mem_cons_self) drawable.jumpsWithin) whole
  localDecl scope id name ty init copying aside b _ drawable whole := by
    rw [stmt_localDecl]
    have initialized := (whole.mention ty).expr? scope copying init fun inner member =>
      drawable.other (List.mem_map_of_mem member)
    exact initialized.pushStmt copying (.decl name) _ rfl rfl drawable.self
  exprStmt scope id value copying aside b _ drawable whole := by
    rw [stmt_exprStmt]
    exact whole.operandExpr scope copying value (drawable.other List.mem_cons_self)
  ifElse scope id cond whenTrue whenFalse first second copying aside b enclosed drawable whole := by
    have jumps := drawable.jumpsWithin
    rw [Tree.Stmt.jumpsWithin, Bool.and_eq_true] at jumps
    have tested := whole.expr scope copying cond (drawable.condition rfl)
    have branched := tested.branch (tips_expr scope copying b cond) (Or.inl ⟨rfl, rfl⟩)
    have one := first copying _ _ enclosed
      (.of_block (drawable.other List.mem_cons_self) jumps.1) branched
    cases whenFalse with
    | none =>
        rw [stmt_ifElse_none]
        exact one.join fun tip => List.mem_append
    | some block =>
        rw [stmt_ifElse_some]
        have two := second block rfl copying _ _ enclosed
          (.of_block (drawable.other (List.mem_cons_of_mem _ List.mem_cons_self)) jumps.2) one.swap
        exact two.join fun tip => List.mem_append.trans or_comm
  whileLoop scope id cond body drawn copying aside b enclosed drawable whole := by
    have jumps := drawable.jumpsWithin
    rw [Tree.Stmt.jumpsWithin] at jumps
    rw [stmt_whileLoop]
    have headed := whole.pushStmt copying .loopHead [] rfl rfl drawable.self
    have tested := headed.expr scope copying cond (drawable.condition rfl)
    have branched := tested.branch (tips_expr scope copying _ cond) (Or.inl ⟨rfl, rfl⟩)
    refine looping (fun aside b => drawn copying aside b enclosed.loop
      (.of_block (drawable.other List.mem_cons_self) jumps)) ?_ branched
    intro value never
    cases never
  forLoop scope id init cond update body started drawn copying aside b enclosed drawable whole := by
    have jumps := drawable.jumpsWithin
    rw [Tree.Stmt.jumpsWithin, Bool.and_eq_true] at jumps
    rw [stmt_forLoop]
    have first : Drawable marked scope init := ⟨jumps.1, fun statement member =>
      drawable.other (List.mem_append_left _ (List.mem_append_left _ (List.mem_map_of_mem member)))⟩
    have updates : ∀ value ∈ update, (Tree.Node.expr value).Unmarked marked := fun value member =>
      drawable.other (List.mem_append_left _ (List.mem_append_right _ (List.mem_map_of_mem member)))
    have inner : Drawable marked (.loop :: scope) body.stmts :=
      .of_block (drawable.other (List.mem_append_right _ List.mem_cons_self)) jumps.2
    have headed := (started copying aside b enclosed first whole).pushStmt copying .loopHead [] rfl
      rfl drawable.self
    refine looping (fun aside b => drawn copying aside b enclosed.loop inner) updates ?_
    cases cond with
    | none =>
        refine headed.regroup rfl rfl fun tip => or_congr_right (or_iff_right fun never => ?_)
        cases never
    | some value =>
        have tested := headed.expr scope copying value (drawable.condition rfl)
        exact tested.branch (tips_expr scope copying _ value) (Or.inl ⟨rfl, rfl⟩)
  returnValue scope id value left copying aside b enclosed drawable whole := by
    rw [stmt_returnValue]
    have evaluated := whole.expr? scope copying value fun inner member =>
      drawable.other (List.mem_map_of_mem member)
    have returned := evaluated.pushStmt copying .returnValue (b.expr? scope copying value).1 rfl rfl
      drawable.self
    exact (left 0 aside _ enclosed returned).jump .returns EdgeKind.noConfusion
  breakLoop scope id left copying aside b enclosed drawable whole := by
    obtain ⟨frame, found⟩ := Option.isSome_iff_exists.1 drawable.jumpsWithin
    rw [stmt_breakLoop scope copying b id found]
    exact (left (frame + 1) aside b enclosed whole).jump (.breaks frame) EdgeKind.noConfusion
  continueLoop scope id left copying aside b enclosed drawable whole := by
    obtain ⟨frame, found⟩ := Option.isSome_iff_exists.1 drawable.jumpsWithin
    rw [stmt_continueLoop scope copying b id found]
    exact (left (frame + 1) aside b enclosed whole).jump (.continues frame) EdgeKind.noConfusion
  throwValue scope id value copying aside b _ drawable whole := by
    rw [stmt_throwValue]
    have evaluated := whole.operandExpr scope copying value (drawable.other List.mem_cons_self)
    have nothing : Whole marked (fun tip => tip ∈ [] ∨ aside tip) (b.expr scope copying value).2 :=
      evaluated.regroup rfl rfl fun tip => by simp
    refine nothing.pushThrow scope (.at id copying .throwValue _) rfl ?_
    rintro _ ⟨⟩
    exact drawable.self
  tryCatch scope id body catches cleanup drawn caught finished copying aside b enclosed drawable
      whole := by
    have jumps := drawable.jumpsWithin
    rw [Tree.Stmt.jumpsWithin, Bool.and_eq_true, Bool.and_eq_true] at jumps
    have final : ∀ block, cleanup = some block → Drawable marked scope block.stmts := by
      rintro block rfl
      exact .of_block (drawable.other (List.mem_cons_of_mem _
        (List.mem_append_right _ List.mem_cons_self))) jumps.2
    have isClause : ∀ clause ∈ catches, (Tree.Node.catchClause clause).Unmarked marked :=
      fun clause member => drawable.other (List.mem_cons_of_mem _
        (List.mem_append_left _ (List.mem_map_of_mem member)))
    have bodies : ∀ clause ∈ catches, Drawable marked (.region [] cleanup :: scope)
        clause.body.stmts := by
      intro clause member
      refine .of_block ((isClause clause member).below.other rfl List.mem_cons_self) ?_
      rw [Tree.Block.jumpsWithin_eq, ← Tree.Catch.jumpsWithin_eq]
      exact Tree.jumpsWithin_of_mem jumps.1.2 member
    have entered := whole.enterCatches copying fun clause member => (isClause clause member).self
    have left := entered.guarded
      (fun aside inner => drawn (b.enterCatches copying catches).1 copying aside inner
        ⟨final, enclosed⟩ (.of_block (drawable.other List.mem_cons_self) jumps.1.1))
      (fun aside inner => caught copying aside inner _ ⟨final, enclosed⟩ bodies
        (by rw [List.length_map, length_enterCatches]))
    cases cleanup with
    | none =>
        rw [stmt_tryCatch_none]
        rw [parkedUnder_guarded] at left
        exact left.regroup rfl rfl fun tip => by simp
    | some block =>
        rw [stmt_tryCatch_some]
        have cleaned := left.cleaningUp fun aside b => finished block rfl true aside b enclosed
          (final block rfl)
        exact finished block rfl copying aside _ enclosed (final block rfl) cleaned
  noClause scope copying aside b entries _ _ few whole := by
    rw [clauses_nil]
    cases List.length_eq_zero_iff.1 (Nat.le_zero.1 few)
    exact whole.regroup rfl rfl fun tip => by simp
  clause scope clause rest drawn others copying aside b entries enclosed drawable few whole := by
    cases entries with
    | nil =>
        rw [clauses_noEntry]
        exact whole.regroup rfl rfl fun tip => by simp
    | cons entry entries =>
        rw [clauses_cons]
        have opened : Whole marked (fun tip => tip ∈ [⟨entry, .normal⟩] ∨
            tip ∈ entries.map (⟨·, .normal⟩) ∨ aside tip) b :=
          whole.regroup rfl rfl fun tip => by simp [or_assoc]
        have one := drawn copying _ _ enclosed (drawable clause List.mem_cons_self) opened.swap
        exact others copying aside _ entries enclosed
          (fun other member => drawable other (List.mem_cons_of_mem _ member))
          (Nat.le_of_succ_le_succ few) (one.join fun tip => List.mem_append.trans or_comm)
  unwound keep aside b _ whole := by
    rw [unwind_nil]
    exact whole
  unwind frame outer drawn left keep aside b enclosed whole := by
    by_cases kept : outer.length < keep
    · rw [unwind_kept b frame outer kept]
      exact whole
    · cases present : frame.cleanup? with
      | none =>
          rw [unwind_left b frame outer (Nat.le_of_not_lt kept) present]
          exact left keep aside b enclosed.2 whole
      | some block =>
          rw [unwind_cleanup b frame outer (Nat.le_of_not_lt kept) present]
          exact left keep aside _ enclosed.2
            (drawn block present true aside b enclosed.2 (enclosed.1 block present) whole)

end Whole

end Builder

end Graph

end FragmentFlow
