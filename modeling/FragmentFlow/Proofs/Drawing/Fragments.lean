import FragmentFlow.Proofs.Drawing.Confined
import FragmentFlow.Proofs.Drawing.Rendering

/-!
# The graph of a fragment is drawn in steps

The drawing discipline for statements, by induction over statements and the frames
around them, and from it for whole fragments.
-/

namespace FragmentFlow.Graph

namespace Builder

variable {first b : Builder} {guarded : Nat → Prop} {scope : Scope}

theorem Fits.expr? (fits : Fits first guarded b) (guards : ∀ id, scope.Guards id → guarded id)
    (copying : Bool) (value : Option Tree.Expr) :
    Fits first guarded (b.expr? scope copying value).2 := by
  cases value with
  | none => exact fits
  | some value => exact (fits.expr guards copying value).fits

/-- The value of an expression that may be missing is a value if it is there. -/
theorem Fits.valued_expr? (fits : Fits first guarded b)
    (guards : ∀ id, scope.Guards id → guarded id) (copying : Bool) (value : Option Tree.Expr) :
    ∀ operand ∈ (b.expr? scope copying value).1,
      (b.expr? scope copying value).2.Valued operand := by
  cases value with
  | none => exact fun _ never => nomatch never
  | some value =>
      intro operand member
      cases List.mem_singleton.1 member
      exact (fits.expr guards copying value).valued

/-- The initial value of a variable is evaluated right before its declaration. -/
theorem Fits.shape_decl (fits : Fits first guarded b)
    (guards : ∀ id, scope.Guards id → guarded id) (copying : Bool) (name : String)
    (value : Option Tree.Expr) :
    (b.expr? scope copying value).2.Shape (.decl name) (b.expr? scope copying value).1
      (b.expr? scope copying value).2.tips := by
  cases value with
  | none => exact .bare
  | some value =>
      have drawn := fits.expr guards copying value
      change Shape _ _ _ (b.expr scope copying value).2.tips
      rw [drawn.tips]
      exact .one rfl drawn.valued

/-! ### Frames -/

/-- The entry of a catch clause waits from now on. -/
theorem Fits.enterCatch (fits : Fits first guarded b) (node : Node) {name ty : String}
    (isBare : node.bare = node) (isClause : node.action = .catchParam name ty)
    (none : node.operands = []) :
    Fits first (fun id => guarded id ∨ id = b.nodes.size) (b.addNode node).2 := by
  have shape : b.Shape node.action node.operands [] := by
    rw [isClause, none]
    exact .alone rfl []
  have added := fits.grown isBare [] (fun _ member => nomatch member) shape
  have free : ∀ {id}, b.Free guarded id →
      (b.addNode node).2.Free (fun id => guarded id ∨ id = b.nodes.size) id := by
    rintro id free
    refine ⟨Nat.lt_of_lt_of_le free.bound (Grows.addNode b node).size_le, ?_⟩
    rintro (isGuarded | rfl)
    · exact free.unguarded isGuarded
    · exact Nat.lt_irrefl _ free.bound
  refine ⟨fits.origin, .moved added.draws rfl rfl rfl, ?_,
    fun tip member => free (fits.tips tip member),
    fun entry member => free (fits.parked entry member)⟩
  rintro id (isGuarded | rfl)
  · exact ⟨(added.waiting id isGuarded).clause, (added.waiting id isGuarded).unused⟩
  · refine ⟨⟨node.bare, name, ty, ?_, isClause⟩, fun edge member => ?_⟩
    · rw [bare?_addNode, if_pos rfl]
    · exact Nat.ne_of_lt (fits.drawn.edge_bounds member).1

theorem Fits.enterCatches (fits : Fits first guarded b) (copying : Bool)
    (catches : List Tree.Catch) :
    Fits first
      (fun id => guarded id ∨ id ∈ (b.enterCatches copying catches).1.map Handler.entry)
      (b.enterCatches copying catches).2 := by
  induction catches generalizing b guarded with
  | nil =>
      refine fits.weaken ?_
      rintro id (isGuarded | ⟨⟨⟩⟩)
      exact isGuarded
  | cons clause clauses ih =>
      have entered := ih ((fits.mention clause.ty).enterCatch
        (.at clause.id copying (.catchParam clause.name clause.ty) []) rfl rfl rfl)
      refine entered.weaken ?_
      rintro id (isGuarded | member)
      · exact Or.inl (Or.inl isGuarded)
      · rcases List.mem_cons.1 member with rfl | later
        · exact Or.inl (Or.inr rfl)
        · exact Or.inr later

/-- The entries of catch clauses are new. -/
theorem le_of_mem_enterCatches {copying : Bool} {catches : List Tree.Catch} {id : Nat}
    (member : id ∈ (b.enterCatches copying catches).1.map Handler.entry) : b.nodes.size ≤ id := by
  induction catches generalizing b with
  | nil => cases member
  | cons clause clauses ih =>
      rcases List.mem_cons.1 member with rfl | later
      · exact Nat.le_refl _
      · refine Nat.le_trans ?_ (ih later)
        exact (Grows.addNode (b.mention clause.ty) _).size_le

theorem Fits.looping {copying : Bool} {head : Nat} {node : Node} {tips exits : List Tip}
    {update : List Tree.Expr} {body : Tree.Block} (fits : Fits first guarded b)
    (guards : ∀ id, scope.Guards id → guarded id)
    (drawn : ∀ b, Fits first guarded b → Fits first guarded (stmts (.loop :: scope) copying b
      body.stmts))
    (found : b.bare? head = some node) (isLoop : node.action = .loopHead)
    (entering : ∀ tip ∈ tips, b.Free guarded tip.source)
    (leaving : ∀ tip ∈ exits, b.Free guarded tip.source)
    (above : ∀ tip ∈ (((stmts (.loop :: scope) copying { b with tips, parked := [] }
      body.stmts).atUpdates scope b.parked).exprs scope copying update).2.tips, head ≤ tip.source) :
    Fits first guarded (b.looping scope copying tips exits head update body) := by
  have started : Fits first guarded { b with tips, parked := [] } :=
    fits.move entering fun _ member => nomatch member
  have inner := drawn _ started
  have grows := (Extends.stmts (.loop :: scope) copying { b with tips, parked := [] }
    body.stmts).grows
  rw [Builder.looping, closeLoop_eq]
  generalize stmts (.loop :: scope) copying { b with tips, parked := [] } body.stmts = bodied
    at inner grows above ⊢
  have turned : Fits first guarded (bodied.atUpdates scope b.parked) := by
    refine (inner.leaveFrame (fun entry member =>
      (fits.parked entry member).grow grows.size_le) _).withTips fun tip member => ?_
    rcases List.mem_append.1 member with behind | continued
    · exact inner.tips tip behind
    · exact inner.parkedUnder _ tip continued
  have updated := turned.exprs guards copying update
  have entered : Grows b (bodied.atUpdates scope b.parked) := ⟨grows.edges, grows.nodes⟩
  have grown := entered.trans updated.draws.grows
  have closed := updated.fits.connectBack (grown.nodes _ _ found) isLoop updated.fits.tips above
  refine closed.withTips fun tip member => ?_
  rcases List.mem_append.1 member with exit | broken
  · exact (leaving tip exit).grow (Nat.le_trans grown.size_le (Grows.connect _ _ _).size_le)
  · exact (inner.parkedUnder _ tip broken).grow
      (Nat.le_trans updated.draws.grows.size_le (Grows.connect _ _ _).size_le)

/-- The clauses of a `try` wait during its body and are drawn after it. -/
theorem Fits.tryBody {copying : Bool} {handlers : List Handler} {body : Tree.Block}
    {catches : List Tree.Catch} {cleanup : Option Tree.Block}
    (fits : Fits first (fun id => guarded id ∨ id ∈ handlers.map Handler.entry) b)
    (fresh : ∀ id ∈ handlers.map Handler.entry, ¬ guarded id)
    (drawn : ∀ b, Fits first (fun id => guarded id ∨ id ∈ handlers.map Handler.entry) b →
      Fits first (fun id => guarded id ∨ id ∈ handlers.map Handler.entry)
        (stmts (.region handlers cleanup :: scope) copying b body.stmts))
    (caught : ∀ b entries, Fits first guarded b → (∀ entry ∈ entries, b.Free guarded entry) →
      Fits first guarded (clauses (.region [] cleanup :: scope) copying b entries catches)) :
    Fits first guarded (b.guarded scope copying handlers body catches cleanup) := by
  have started : Fits first (fun id => guarded id ∨ id ∈ handlers.map Handler.entry)
      { b with parked := [] } := fits.move fits.tips fun _ member => nomatch member
  have bodied := (drawn _ started).weaken fun id isGuarded => Or.inl isGuarded
  refine caught _ (handlers.map Handler.entry) bodied fun entry member => ?_
  have bound := (fits.waiting entry (Or.inr member)).lt_size
  have larger := (Extends.stmts (.region handlers cleanup :: scope) copying
    { b with parked := [] } body.stmts).grows.size_le
  exact ⟨Nat.lt_of_lt_of_le bound larger, fresh entry member⟩

theorem size_le_guarded (scope : Scope) (copying : Bool) (b : Builder) (handlers : List Handler)
    (body : Tree.Block) (catches : List Tree.Catch) (cleanup : Option Tree.Block) :
    b.nodes.size ≤ (b.guarded scope copying handlers body catches cleanup).nodes.size := by
  have bodied := Extends.stmts (.region handlers cleanup :: scope) copying { b with parked := [] }
    body.stmts
  exact (bodied.trans (Extends.clauses _ _ _ _ _)).grows.size_le

theorem Fits.cleaningUp {raised : List Tip} {block : Tree.Block} (fits : Fits first guarded b)
    (guards : ∀ id, scope.Guards id → guarded id)
    (free : ∀ tip ∈ raised, b.Free guarded tip.source)
    (drawn : ∀ b, Fits first guarded b → Fits first guarded (stmts scope true b block.stmts)) :
    Fits first guarded (b.cleaningUp scope raised block) := by
  unfold Builder.cleaningUp
  split
  · exact fits
  · have ended := drawn _ (fits.withTips free)
    exact (ended.pushPlain _ rfl rfl rfl).raise guards (ended.free_push _)

/-! ### Statements -/

/-- Each statement keeps a drawing fitting, if its parts do. -/
theorem Fits.drawingCases : DrawingCases
    (fun scope list => ∀ copying first guarded b, (∀ id, scope.Guards id → guarded id) →
      Fits first guarded b → Fits first guarded (stmts scope copying b list))
    (fun scope statement => ∀ copying first guarded b, (∀ id, scope.Guards id → guarded id) →
      Fits first guarded b → Fits first guarded (stmt scope copying b statement))
    (fun scope list => ∀ copying first guarded b entries,
      (∀ id, scope.Guards id → guarded id) → Fits first guarded b →
        (∀ entry ∈ entries, b.Free guarded entry) →
          Fits first guarded (clauses scope copying b entries list))
    (fun scope => ∀ keep first guarded b, (∀ id, scope.Guards id → guarded id) →
      Fits first guarded b → Fits first guarded (unwind scope keep b)) where
  nil scope copying first guarded b guards fits := by
    rw [stmts_nil]
    exact fits
  cons scope one rest head tail copying first guarded b guards fits := by
    rw [stmts_cons]
    exact tail copying first guarded _ guards (head copying first guarded b guards fits)
  block scope inner drawn copying first guarded b guards fits := by
    rw [stmt_block]
    exact drawn copying first guarded b guards fits
  localDecl scope id name ty init copying first guarded b guards fits := by
    rw [stmt_localDecl]
    have mentioned := fits.mention ty
    exact (mentioned.expr? guards copying init).push rfl
      (mentioned.shape_decl guards copying name init)
  exprStmt scope id value copying first guarded b guards fits := by
    rw [stmt_exprStmt]
    exact (fits.expr guards copying value).fits
  ifElse scope id cond whenTrue whenFalse onTrue onFalse copying first guarded b guards fits := by
    have tested := (fits.expr guards copying cond).fits
    have drawn := onTrue copying first guarded _ guards (tested.withTips (tested.tipsAs .onTrue))
    have grows := (Extends.stmts scope copying { (b.expr scope copying cond).2 with
      tips := (b.expr scope copying cond).2.tipsAs .onTrue } whenTrue.stmts).grows.size_le
    have others : ∀ tip ∈ (b.expr scope copying cond).2.tipsAs .onFalse,
        Free _ guarded tip.source :=
      fun tip member => (tested.tipsAs .onFalse tip member).grow grows
    cases whenFalse with
    | none =>
        rw [stmt_ifElse_none]
        refine drawn.withTips fun tip member => ?_
        rcases List.mem_append.1 member with old | new
        · exact drawn.tips tip old
        · exact others tip new
    | some block =>
        rw [stmt_ifElse_some]
        have second := onFalse block rfl copying first guarded _ guards (drawn.withTips others)
        refine second.withTips fun tip member => ?_
        rcases List.mem_append.1 member with old | new
        · exact (drawn.tips tip old).grow
            (Extends.of_tips (Extends.stmts scope copying _ block.stmts)).grows.size_le
        · exact second.tips tip new
  whileLoop scope id cond body drawn copying first guarded b guards fits := by
    rw [stmt_whileLoop]
    have headed := fits.pushPlain (.at id copying .loopHead []) rfl rfl rfl
    have tested := headed.expr guards copying cond
    have behind := Confined.expr scope copying (b.push (.at id copying .loopHead [])).2 cond
    have updated := behind.updated (behind.tipsAs .onTrue)
      (.stmts (.loop :: scope) copying _ body.stmts) copying []
    exact tested.fits.looping guards
      (fun b => drawn copying first guarded b fun id isGuard => guards id isGuard.of_loop)
      (tested.draws.grows.nodes _ _ (bare?_push_self b _)) rfl (tested.fits.tipsAs _)
      (tested.fits.tipsAs _) fun tip member => ((updated.tips tip member).of_push updated.grows).1
  forLoop scope id init cond update body started drawn copying first guarded b guards fits := by
    rw [stmt_forLoop]
    have ready := started copying first guarded b guards fits
    have headed := ready.pushPlain (.at id copying .loopHead []) rfl rfl rfl
    have tested := headed.expr? guards copying cond
    have found := (Extends.expr? scope copying _ cond).grows.nodes _ _
      (bare?_push_self (stmts scope copying b init) (.at id copying .loopHead []))
    have behind := Confined.expr? scope copying
      ((stmts scope copying b init).push (.at id copying .loopHead [])).2 cond
    refine tested.looping guards
      (fun b => drawn copying first guarded b fun id isGuard => guards id isGuard.of_loop)
      found rfl ?_ ?_ fun tip member => ?_
    · split
      · exact tested.tipsAs _
      · exact tested.tips
    · split
      · exact tested.tipsAs _
      · exact fun _ member => nomatch member
    · have updated := behind.updated (behind.tested cond.isSome .onTrue)
        (.stmts (.loop :: scope) copying _ body.stmts) copying update
      exact ((updated.tips tip member).of_push updated.grows).1
  returnValue scope id value left copying first guarded b guards fits := by
    rw [stmt_returnValue]
    exact (left 0 first guarded _ guards
      ((fits.expr? guards copying value).push rfl
        (.plain rfl (fits.valued_expr? guards copying value)))).jump _ _
  breakLoop scope id left copying first guarded b guards fits := by
    cases found : scope.innermostLoop? with
    | none =>
        rw [stmt_breakLoop_outside scope copying b id found]
        exact fits.stop
    | some frame =>
        rw [stmt_breakLoop scope copying b id found]
        exact (left _ first guarded b guards fits).jump _ _
  continueLoop scope id left copying first guarded b guards fits := by
    cases found : scope.innermostLoop? with
    | none =>
        rw [stmt_continueLoop_outside scope copying b id found]
        exact fits.stop
    | some frame =>
        rw [stmt_continueLoop scope copying b id found]
        exact (left _ first guarded b guards fits).jump _ _
  throwValue scope id value copying first guarded b guards fits := by
    rw [stmt_throwValue]
    have drawn := fits.expr guards copying value
    have valued := List.forall_mem_singleton.2 drawn.valued
    exact (drawn.fits.push rfl (.plain rfl valued)).stop.raise guards (drawn.fits.free_push _)
  tryCatch scope id body catches cleanup drawn caught finished copying first guarded b guards
      fits := by
    have fresh : ∀ id ∈ (b.enterCatches copying catches).1.map Handler.entry, ¬ guarded id :=
      fun id member isGuarded => absurd (fits.waiting id isGuarded).lt_size
        (Nat.not_lt.2 (le_of_mem_enterCatches member))
    have guardsBody : ∀ id, Scope.Guards (.region (b.enterCatches copying catches).1 cleanup ::
        scope) id → guarded id ∨ id ∈ (b.enterCatches copying catches).1.map Handler.entry :=
      fun id isGuard => isGuard.of_region.symm.imp_left (guards id)
    have guardsClauses : ∀ id, Scope.Guards (.region [] cleanup :: scope) id → guarded id :=
      fun id isGuard => guards id isGuard.of_clauses
    have entered := fits.enterCatches copying catches
    have bodied := entered.tryBody fresh (fun b => drawn _ copying first _ b guardsBody)
      (fun b entries => caught copying first guarded b entries guardsClauses)
    have left := bodied.leaveFrame (fun entry member =>
      ((entered.weaken fun _ => Or.inl).parked entry member).grow (size_le_guarded ..))
        [.cleanup scope.length]
    cases cleanup with
    | none =>
        rw [stmt_tryCatch_none]
        exact left
    | some block =>
        rw [stmt_tryCatch_some]
        have cleaned := left.cleaningUp guards (bodied.parkedUnder (.cleanup scope.length))
          fun b => finished block rfl true first guarded b guards
        exact finished block rfl copying first guarded _ guards
          (cleaned.withTips fun tip member => (left.tips tip member).grow
            (Extends.cleaningUp (Extends.stmts scope true · block.stmts)).grows.size_le)
  noClause scope copying first guarded b entries guards fits free := by
    rw [clauses_nil]
    exact fits
  clause scope clause rest drawn others copying first guarded b entries guards fits free := by
    cases entries with
    | nil =>
        rw [clauses_noEntry]
        exact fits
    | cons entry entries =>
        rw [clauses_cons]
        have entering : ∀ tip ∈ [(⟨entry, .normal⟩ : Tip)], b.Free guarded tip.source := by
          intro tip member
          cases List.mem_singleton.1 member
          exact free entry List.mem_cons_self
        have bodied := drawn copying first guarded _ guards (fits.withTips entering)
        have larger := (Extends.stmts scope copying
          { b with tips := [(⟨entry, .normal⟩ : Tip)] } clause.body.stmts).grows.size_le
        refine others copying first guarded _ entries guards (bodied.withTips fun tip member => ?_)
          fun other member => ?_
        · rcases List.mem_append.1 member with old | new
          · exact (fits.tips tip old).grow larger
          · exact bodied.tips tip new
        · exact (free other (List.mem_cons_of_mem _ member)).grow larger
  unwound keep first guarded b guards fits := by
    rw [unwind_nil]
    exact fits
  unwind frame outer drawn left keep first guarded b guards fits := by
    have further : ∀ id, Scope.Guards outer id → guarded id := fun id isGuard =>
      guards id (isGuard.inside frame)
    by_cases kept : outer.length < keep
    · rw [unwind_kept b frame outer kept]
      exact fits
    · cases present : frame.cleanup? with
      | none =>
          rw [unwind_left b frame outer (Nat.le_of_not_lt kept) present]
          exact left keep first guarded b further fits
      | some block =>
          rw [unwind_cleanup b frame outer (Nat.le_of_not_lt kept) present]
          exact left keep first guarded _ further
            (drawn block present true first guarded b further fits)

/-- Statements keep a drawing fitting. -/
theorem Fits.stmts (fits : Fits first guarded b) (copying : Bool) (list : List Tree.Stmt)
    (guards : ∀ id, scope.Guards id → guarded id) :
    Fits first guarded (b.stmts scope copying list) :=
  drawingCases.stmts scope list copying first guarded b guards fits

/-! ### Fragments -/

/-- Outside all frames no entries wait. -/
theorem guards_nil (guarded : Nat → Prop) : ∀ id, Scope.Guards [] id → guarded id := by
  rintro id ⟨_, _, ⟨⟩, _⟩

theorem Fits.params (fits : Fits first guarded b) (names : List String) :
    Fits first guarded (b.params names) :=
  params_keep (motive := Fits first guarded)
    (fun _ _ fits => fits.pushPlain _ rfl rfl rfl) fits names

theorem Fits.typedParams (fits : Fits first guarded b) (list : List Source.Param) :
    Fits first guarded
      (list.foldl (fun b param => (b.mention param.ty).params [param.name]) b) :=
  typedParams_keep (motive := Fits first guarded)
    (fun _ _ fits => fits.pushPlain _ rfl rfl rfl)
    (fun _ ty fits => fits.mention ty) fits list

/-- The code of a fragment keeps a drawing fitting. -/
theorem Fits.code (fits : Fits first guarded b) (code : Fragment.Code) :
    Fits first guarded (b.code code) := by
  have guards := guards_nil guarded
  match code with
  | .method decl =>
      have bound := fits.typedParams decl.params
      rw [Builder.code]
      cases decl.body with
      | none => exact bound
      | some body => exact bound.stmts false body.stmts guards
  | .lambda id names (.block body) => exact (fits.params names).stmts false body.stmts guards
  | .lambda id names (.value result) =>
      have drawn := (fits.params names).expr guards false result
      have valued := List.forall_mem_singleton.2 drawn.valued
      exact (drawn.fits.push rfl (.plain rfl valued)).jump _ _
  | .initializer body => exact fits.stmts false body.stmts guards
  | .fieldInitializer decl init =>
      have drawn := (fits.mention decl.ty).expr guards false init
      refine drawn.fits.push rfl ?_
      rw [drawn.tips]
      exact .one rfl drawn.valued

/-- A drawing fits at its start. -/
theorem fits_start : Fits {} (fun _ => False) start := by
  have empty : Fits {} (fun _ => False) {} :=
    ⟨.refl, .refl, fun _ never => never.elim, fun _ member => (nomatch member),
      fun _ member => (nomatch member)⟩
  exact empty.pushPlain _ rfl rfl rfl

end Builder

/-- A graph as a finished drawing. -/
def toBuilder (graph : Graph) : Builder where
  nodes := graph.nodes
  edges := graph.edges
  index := graph.index

theorem bare?_toBuilder {graph : Graph} {id : Nat} {node : Node}
    (found : graph.nodes[id]? = some node) : graph.toBuilder.bare? id = some node.bare := by
  rw [Builder.bare?, toBuilder, found]
  rfl

/-- A drawing that fits can be finished. -/
theorem Builder.Fits.finish {first b : Builder} {guarded : Nat → Prop}
    (fits : first.Fits guarded b) (label : String) :
    first.Draws (b.finish label).toBuilder := by
  let atExit := (b.addNode (.implicit .exit [])).2.connect (b.tips ++ b.parkedUnder .returns)
    b.nodes.size
  have exitDrawn : first.Draws atExit := by
    refine .grown fits.draws rfl (fun tip member => ?_) (.alone rfl _)
    rcases List.mem_append.1 member with unended | returned
    · exact (fits.tips tip unended).bound
    · exact (fits.parkedUnder _ tip returned).bound
  have larger : b.nodes.size ≤ atExit.nodes.size :=
    ((Grows.addNode b _).trans (.connect _ _ _)).size_le
  have bothDrawn : first.Draws ((atExit.addNode (.implicit .exceptionalExit [])).2.connect
      (b.parkedUnder .uncaught) atExit.nodes.size) :=
    .grown exitDrawn rfl (fun tip member => ((fits.parkedUnder _ tip member).grow larger).bound)
      (.alone rfl _)
  exact .moved bothDrawn rfl rfl rfl

/-- A graph is drawn in steps from its entry. -/
structure WellDrawn (graph : Graph) : Prop where
  drawn : Builder.Drawn graph.toBuilder
  entry : graph.toBuilder.bare? Graph.entry = some (.implicit .entry [])
  free : graph.freeNames = (usedNames graph.nodes).diff (declaredNames graph.nodes)

/-- A graph is the finished drawing of a fragment with code. -/
theorem eq_finish_of_ofFragment {fragment : Fragment} {env : Environment} {graph : Graph}
    (built : ofFragment fragment env = .ok graph) :
    fragment.hasBody = true ∧ graph = (draw fragment).finish fragment.name := by
  rw [ofFragment_eq, drawnFrom] at built
  split at built
  · rename_i hasBody
    split at built
    · cases built
    · cases built
      exact ⟨hasBody, rfl⟩
  · cases built

/-- The drawing of a fragment gives a well-drawn graph. -/
theorem wellDrawn_finish (fragment : Fragment) (label : String) :
    ((draw fragment).finish label).WellDrawn := by
  have started := Builder.fits_start
  exact ⟨(started.code fragment.code).finish label,
    ((started.restart.code fragment.code).finish label).grows.nodes _ _ rfl, rfl⟩

/-- A built graph is drawn in steps from its entry. -/
theorem wellDrawn_of_ofFragment {fragment : Fragment} {env : Environment} {graph : Graph}
    (built : ofFragment fragment env = .ok graph) : graph.WellDrawn := by
  obtain ⟨-, rfl⟩ := eq_finish_of_ofFragment built
  exact wellDrawn_finish fragment fragment.name

end FragmentFlow.Graph
