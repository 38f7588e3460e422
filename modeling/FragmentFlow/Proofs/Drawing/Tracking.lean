import FragmentFlow.Proofs.Drawing.Frames
import FragmentFlow.Proofs.Drawing.Growth

/-!
# Drafts beside builders

A draft keeps what is open in a stack of frames, a builder parks it under names of exits.  The
two are compared step by step: a part of drawing renders what a builder does if it leads from
every draft that tracks the builder to one that tracks the builder behind it, unless one of the
type names met on the way is not known; then it fails with the first of them.

What a frame of the draft holds is what is parked under its exits.  Code inside other frames
leaves it alone, so a frame that is put aside while a `finally` block is copied is still right
when it comes back.
-/

namespace FragmentFlow.Graph

variable {Ref α β : Type}

/-! ### Reading code -/

/-- A view shows a construct and all below it under certain references. -/
def View.Shows (view : View Ref) (ref : Tree.Node → Ref) (node : Tree.Node) : Prop :=
  ∀ inner ∈ node.preorder,
    view.kind? (ref inner) = some (inner.shape.map ref) ∧ view.number (ref inner) = inner.id

namespace View.Shows

variable {view : View Ref} {ref : Tree.Node → Ref} {node : Tree.Node}

/-- What is shown of the construct itself. -/
theorem kind (shown : view.Shows ref node) : view.kind? (ref node) = some (node.shape.map ref) :=
  (shown node (by rw [Tree.Node.preorder_eq]; exact List.mem_cons_self)).1

theorem number (shown : view.Shows ref node) : view.number (ref node) = node.id :=
  (shown node (by rw [Tree.Node.preorder_eq]; exact List.mem_cons_self)).2

/-- The parts of a construct are shown with it. -/
theorem part (shown : view.Shows ref node) {part : Tree.Node} (isPart : part ∈ node.children) :
    view.Shows ref part := by
  intro inner below
  apply shown inner
  rw [Tree.Node.preorder_eq]
  exact List.mem_cons_of_mem _ (List.mem_flatMap.2 ⟨part, isPart, below⟩)

end View.Shows

/-- The `finally` blocks of some frames are shown. -/
def Scope.Shown (scope : Scope) (view : View Ref) (ref : Tree.Node → Ref) : Prop :=
  ∀ frame ∈ scope, ∀ block, frame.cleanup? = some block → view.Shows ref block.toNode

namespace Scope.Shown

variable {view : View Ref} {ref : Tree.Node → Ref} {scope outer : Scope}

/-- A frame whose `finally` block is shown. -/
theorem cons {frame : Frame} (around : scope.Shown view ref)
    (shown : ∀ block, frame.cleanup? = some block → view.Shows ref block.toNode) :
    Scope.Shown (frame :: scope) view ref :=
  List.forall_mem_cons.2 ⟨shown, around⟩

/-- A loop has no `finally` block. -/
theorem loop (around : scope.Shown view ref) : Scope.Shown (.loop :: scope) view ref :=
  around.cons fun _ absent => by cases absent

/-- The frames outside of the innermost one. -/
theorem outside {frame : Frame} (around : Scope.Shown (frame :: outer) view ref) :
    outer.Shown view ref :=
  (List.forall_mem_cons.1 around).2

end Scope.Shown

/-! ### What is parked -/

namespace Builder

variable (b : Builder)

/-- More is parked behind what is parked already. -/
theorem parkedUnder_append {parked more : List (Exit × Tip)} (exit : Exit) :
    { b with parked := parked ++ more }.parkedUnder exit =
      { b with parked }.parkedUnder exit ++ { b with parked := more }.parkedUnder exit :=
  List.filterMap_append

/-- What is parked under one exit. -/
theorem parkedUnder_park (exit other : Exit) (tips : List Tip) :
    (b.park exit tips).parkedUnder other =
      b.parkedUnder other ++ if exit = other then tips else [] := by
  have more : { b with parked := tips.map fun tip => (exit, tip) }.parkedUnder other =
      if exit = other then tips else [] := by
    rw [parkedUnder, List.filterMap_map]
    by_cases same : exit = other
    · have all : ((fun entry : Exit × Tip => if entry.1 = other then some entry.2 else none) ∘
          fun tip => (exit, tip)) = some := funext fun tip => if_pos same
      rw [if_pos same, all, List.filterMap_some]
    · rw [if_neg same]
      exact List.filterMap_eq_nil_iff.2 fun tip _ => if_neg same
  rw [← more]
  exact b.parkedUnder_append other

/-- Under other exits nothing changes. -/
theorem parkedUnder_park_of_ne {exit other : Exit} (apart : exit ≠ other) (tips : List Tip) :
    (b.park exit tips).parkedUnder other = b.parkedUnder other := by
  rw [parkedUnder_park, if_neg apart, List.append_nil]

/-- Behind a frame its exits are as they were before it. -/
theorem parkedUnder_leaveFrame (before : List (Exit × Tip)) (ending : List Exit) (exit : Exit) :
    (b.leaveFrame before ending).parkedUnder exit =
      { b with parked := before }.parkedUnder exit ++
        if exit ∈ ending then [] else b.parkedUnder exit := by
  have inside : { b with
      parked := b.parked.filter fun entry => !ending.contains entry.1 }.parkedUnder exit =
        if exit ∈ ending then [] else b.parkedUnder exit := by
    simp only [parkedUnder, List.filterMap_filter]
    split
    · rename_i ends
      refine List.filterMap_eq_nil_iff.2 fun entry _ => ?_
      by_cases same : entry.1 = exit
      · simp [same, ends]
      · simp [same]
    · rename_i stays
      congr 1
      funext entry
      by_cases same : entry.1 = exit
      · simp [same, stays]
      · simp [same]
  rw [← inside]
  exact b.parkedUnder_append exit

theorem parkedUnder_congr {b later : Builder} (same : later.parked = b.parked) (exit : Exit) :
    later.parkedUnder exit = b.parkedUnder exit := by
  rw [parkedUnder, same, parkedUnder]

/-- An exception is parked under the exit that it takes. -/
theorem parkedUnder_raise (scope : Scope) (source : Nat) (exit : Exit) :
    (b.raise scope source).parkedUnder exit =
      b.parkedUnder exit ++ if scope.route.2 = some exit then [⟨source, .exception⟩] else [] := by
  rw [parkedUnder, parked_raise, List.filterMap_append, ← parkedUnder]
  cases scope.route.2 with
  | none => simp
  | some taken => by_cases same : taken = exit <;> simp [same]

/-- The first type name that was met and is not known. -/
def unknown? (b : Builder) (env : Environment) : Option String :=
  b.typeNames.toList.find? fun ty => !env.resolves ty

/-- The first unknown name stays the first one. -/
theorem unknown?_of_prefix {b later : Builder} {env : Environment} {ty : String}
    (types : b.typeNames.toList <+: later.typeNames.toList) (found : b.unknown? env = some ty) :
    later.unknown? env = some ty := by
  obtain ⟨more, same⟩ := types
  rw [unknown?, ← same, List.find?_append]
  rw [unknown?] at found
  rw [found]
  rfl

theorem unknown?_congr {b later : Builder} (same : later.typeNames = b.typeNames)
    (env : Environment) : later.unknown? env = b.unknown? env := by
  rw [unknown?, same, unknown?]

end Builder

/-! ### Tracking -/

/-- A frame of a draft is a frame of a scope, and holds what waits under its exits. -/
inductive Framed (ref : Tree.Node → Ref) (waiting : Exit → List Tip) :
    Scope → List (Draft.Frame Ref) → Prop
  | nil : Framed ref waiting [] []
  | loop {outer : Scope} {frames : List (Draft.Frame Ref)} {breaks continues : List Tip} :
      breaks = waiting (.breaks outer.length) → continues = waiting (.continues outer.length) →
        Framed ref waiting outer frames →
          Framed ref waiting (.loop :: outer) (.loop breaks continues :: frames)
  | region {outer : Scope} {frames : List (Draft.Frame Ref)} {entered handlers : List Handler}
      {cleanup : Option Tree.Block} {block : Option Ref} {inHandlers : Bool}
      {exceptional : List Tip} :
      entered = (if inHandlers then [] else handlers) →
        block = cleanup.map (fun block => ref block.toNode) →
          exceptional = waiting (.cleanup outer.length) → Framed ref waiting outer frames →
            Framed ref waiting (.region entered cleanup :: outer)
              (.region handlers block inHandlers exceptional :: frames)

namespace Framed

variable {ref : Tree.Node → Ref} {waiting other : Exit → List Tip} {scope inner outer : Scope}
  {frames : List (Draft.Frame Ref)}

theorem length_eq (framed : Framed ref waiting scope frames) : frames.length = scope.length := by
  induction framed with
  | nil => rfl
  | loop _ _ _ ih => exact congrArg Nat.succ ih
  | region _ _ _ _ ih => exact congrArg Nat.succ ih

/-- Only what waits at the frames themselves counts. -/
theorem congr (framed : Framed ref waiting scope frames)
    (same : ∀ exit, exit.Inside scope.length → waiting exit = other exit) :
    Framed ref other scope frames := by
  induction framed with
  | nil => exact .nil
  | loop breaks continues _ ih =>
      exact .loop (breaks.trans (same _ (Nat.lt_succ_self _)))
        (continues.trans (same _ (Nat.lt_succ_self _)))
        (ih fun exit inside => same exit (inside.mono (Nat.le_succ _)))
  | region entered block exceptional _ ih =>
      exact .region entered block (exceptional.trans (same _ (Nat.lt_succ_self _)))
        (ih fun exit inside => same exit (inside.mono (Nat.le_succ _)))

/-- Frames further in and further out. -/
theorem split (framed : Framed ref waiting (inner ++ outer) frames) :
    ∃ near far, frames = near ++ far ∧ near.length = inner.length ∧
      Framed ref waiting outer far := by
  induction inner generalizing frames with
  | nil => exact ⟨[], frames, rfl, rfl, framed⟩
  | cons frame inner ih =>
      cases framed with
      | loop _ _ rest | region _ _ _ rest =>
          obtain ⟨near, far, rfl, length, isFar⟩ := ih rest
          exact ⟨_ :: near, far, rfl, congrArg Nat.succ length, isFar⟩

/-- Frames that were put aside fit the frames around them again, if what waits in them has not
changed. -/
theorem restore {near far later : List (Draft.Frame Ref)}
    (framed : Framed ref waiting (inner ++ outer) (near ++ far))
    (length : near.length = inner.length)
    (same : ∀ exit, ¬ exit.Below outer.length → waiting exit = other exit)
    (rest : Framed ref other outer later) : Framed ref other (inner ++ outer) (near ++ later) := by
  induction inner generalizing near with
  | nil =>
      cases List.eq_nil_of_length_eq_zero length
      exact rest
  | cons frame inner ih =>
      cases near with
      | nil => cases length
      | cons head near =>
          have apart : ¬ (inner ++ outer).length < outer.length := by
            rw [List.length_append]
            omega
          cases framed with
          | loop breaks continues framed =>
              exact .loop (breaks.trans (same _ apart)) (continues.trans (same _ apart))
                (ih framed (Nat.succ.inj length))
          | region entered block exceptional framed =>
              exact .region entered block (exceptional.trans (same _ apart))
                (ih framed (Nat.succ.inj length))

/-- The innermost loop is the same. -/
theorem innermostLoop?_eq (framed : Framed ref waiting scope frames) :
    Draft.innermostLoop? frames = scope.innermostLoop? := by
  induction framed with
  | nil => rfl
  | loop _ _ rest _ => exact congrArg some rest.length_eq
  | region _ _ _ _ ih => exact ih

/-- The frame with so many frames around it. -/
theorem frameAt? {frame : Frame} (framed : Framed ref waiting (inner ++ frame :: outer) frames) :
    ∃ found, Draft.frameAt? outer.length frames = some found ∧
      found.cleanup? = frame.cleanup?.map fun block => ref block.toNode := by
  induction inner generalizing frames with
  | nil =>
      cases framed with
      | loop _ _ rest => exact ⟨_, if_pos rest.length_eq, rfl⟩
      | region _ block _ rest => exact ⟨_, if_pos rest.length_eq, block⟩
  | cons head inner ih =>
      have further : (inner ++ frame :: outer).length ≠ outer.length := by
        rw [List.length_append, List.length_cons]
        omega
      cases framed with
      | loop _ _ rest | region _ _ _ rest =>
          obtain ⟨found, isAt, cleanup⟩ := ih rest
          refine ⟨found, ?_, cleanup⟩
          rw [Draft.frameAt?, if_neg, isAt]
          exact rest.length_eq ▸ further

/-- What jumps to the innermost loop waits there. -/
theorem changeAt {depth : Nat} (framed : Framed ref waiting scope frames)
    (change : Draft.Frame Ref → Draft.Frame Ref) (other : Exit → List Tip)
    (found : scope.innermostLoop? = some depth)
    (changes : ∀ breaks continues, breaks = waiting (.breaks depth) →
      continues = waiting (.continues depth) →
        change (.loop breaks continues) = .loop (other (.breaks depth)) (other (.continues depth)))
    (same : ∀ exit, exit ∉ Frame.loop.exits depth → waiting exit = other exit) :
    (∃ frame, Draft.frameAt? depth frames = some frame) ∧
      Framed ref other scope (Draft.changeAt depth change frames) := by
  induction framed with
  | nil => cases found
  | @loop outer frames _ _ breaks continues rest ih =>
      cases found
      have isHere := rest.length_eq
      refine ⟨⟨_, if_pos isHere⟩, ?_⟩
      rw [Draft.changeAt, if_pos isHere, changes _ _ breaks continues]
      exact .loop rfl rfl (rest.congr fun exit inside => same exit fun ends =>
        Frame.not_below_of_mem_exits ends inside.below)
  | @region outer frames _ _ _ _ _ _ entered block exceptional rest ih =>
      have inside : depth < outer.length := Scope.innermostLoop?_lt found
      have further : frames.length ≠ depth := by
        rw [rest.length_eq]
        exact Nat.ne_of_gt inside
      obtain ⟨⟨frame, isAt⟩, changed⟩ := ih found
      refine ⟨⟨frame, (if_neg further).trans isAt⟩, ?_⟩
      rw [Draft.changeAt, if_neg further]
      refine .region entered block (exceptional.trans (same _ fun ends => ?_)) changed
      rcases Frame.mem_exits_loop.1 ends with absurd | absurd <;> cases absurd

/-- An exception takes the same way. -/
theorem route (framed : Framed ref waiting scope frames) (raised : Tip)
    (other : Exit → List Tip) (more : ∀ exit, other exit =
      waiting exit ++ if scope.route.2 = some exit then [raised] else []) :
    ∃ later, Draft.route raised frames =
        (scope.route.1, !decide (scope.route.2 = some .uncaught), later) ∧
      Framed ref other scope later := by
  have passes : ∀ (outer : Scope) {exit : Exit}, outer.route.2 = some exit →
      exit.Below outer.length := fun _ _ taken => (Scope.offers_route taken).below
  induction framed with
  | nil => exact ⟨[], rfl, .nil⟩
  | @loop outer frames _ _ breaks continues rest ih =>
      obtain ⟨later, routed, isFramed⟩ := ih more
      refine ⟨.loop _ _ :: later, by rw [Draft.route, routed]; rfl, .loop ?_ ?_ isFramed⟩
      · rw [breaks, more, if_neg, List.append_nil]
        exact fun taken => Nat.lt_irrefl outer.length (passes outer taken)
      · rw [continues, more, if_neg, List.append_nil]
        exact fun taken => Nat.lt_irrefl outer.length (passes outer taken)
  | @region outer frames entered handlers cleanup block inHandlers exceptional isEntered isBlock
      isWaiting rest ih =>
      subst isEntered isBlock isWaiting
      rw [Scope.route] at more ⊢
      rw [Draft.route]
      dsimp only at more ⊢
      by_cases catchesAll : (if inHandlers then [] else handlers).any Handler.catchesAll = true
      · simp only [catchesAll, ↓reduceIte] at more ⊢
        refine ⟨_, rfl, .region rfl rfl ?_ (rest.congr fun exit _ => ?_)⟩
        · rw [more]
          simp
        · rw [more]
          simp
      · simp only [catchesAll, Bool.false_eq_true, ↓reduceIte, Option.isSome_map] at more ⊢
        cases cleanup with
        | some final =>
            simp only [Option.isSome_some, ↓reduceIte, Option.some.injEq] at more ⊢
            refine ⟨_, rfl, .region rfl rfl ?_ (rest.congr fun exit below => ?_)⟩
            · rw [more, if_pos rfl]
            · rw [more, if_neg, List.append_nil]
              rintro rfl
              exact Nat.lt_irrefl _ below
        | none =>
            simp only [Option.isSome_none, Bool.false_eq_true, ↓reduceIte] at more ⊢
            obtain ⟨later, routed, isFramed⟩ := ih more
            refine ⟨_ :: later, by rw [routed], .region rfl rfl ?_ isFramed⟩
            rw [more, if_neg, List.append_nil]
            exact fun taken => Nat.lt_irrefl outer.length (passes outer taken)

end Framed

/-- A draft is what a builder has drawn, in a place within some frames.  Before the builder
began to park anything, something may have been waiting already. -/
structure Tracks (ref : Tree.Node → Ref) (base : Exit → List Tip) (scope : Scope) (count : Nat)
    (b : Builder) (draft : Draft Ref) : Prop where
  canvas : draft.toCanvas = b.toCanvas
  pending : draft.pending = b.tips
  frames : Framed ref (fun exit => base exit ++ b.parkedUnder exit) scope draft.frames
  returns : draft.returns = base .returns ++ b.parkedUnder .returns
  uncaught : draft.uncaught = base .uncaught ++ b.parkedUnder .uncaught
  duplicating : draft.duplicating = count

namespace Tracks

variable {ref : Tree.Node → Ref} {base : Exit → List Tip} {scope : Scope} {count : Nat}
  {b later : Builder} {draft : Draft Ref}

/-- Only canvas and tips have moved on. -/
theorem move (tracks : Tracks ref base scope count b draft) (parked : later.parked = b.parked) :
    Tracks ref base scope count later
      { draft with toCanvas := later.toCanvas, pending := later.tips } where
  canvas := rfl
  pending := rfl
  frames := tracks.frames.congr fun exit _ => by rw [Builder.parkedUnder_congr parked]
  returns := by rw [Builder.parkedUnder_congr parked]; exact tracks.returns
  uncaught := by rw [Builder.parkedUnder_congr parked]; exact tracks.uncaught
  duplicating := tracks.duplicating

end Tracks

/-- Raising an exception, where its way through the frames is known. -/
theorem Draft.raise_apply {draft : Draft Ref} {source : Nat} {targets : List Nat} {handled : Bool}
    {frames : List (Draft.Frame Ref)}
    (routed : Draft.route { source, kind := .exception } draft.frames =
      (targets, handled, frames)) :
    Draft.raise source draft = some (.ok ((), { draft with
      toCanvas := targets.foldl
        (fun canvas target => canvas.addEdge { source, target, kind := .exception }) draft.toCanvas
      frames
      uncaught := if handled then draft.uncaught
        else draft.uncaught ++ [{ source, kind := .exception }] })) := by
  change some (Except.ok ((), _)) = _
  dsimp only
  rw [routed]

/-! ### Rendering -/

/-- Drawing that goes on after a result. -/
theorem Drawing.bind_ok {part : Drawing Ref α} {next : α → Drawing Ref β} {draft later : Draft Ref}
    {value : α} (ran : part draft = some (.ok (value, later))) :
    (part >>= next) draft = next value later := by
  change ExceptT.bind (part draft) (fun result => next result.1 result.2) = _
  rw [ran]
  rfl

/-- Drawing ends with a failure. -/
theorem Drawing.bind_error {part : Drawing Ref α} {next : α → Drawing Ref β} {draft : Draft Ref}
    {failure : Failure} (ran : part draft = some (.error failure)) :
    (part >>= next) draft = some (.error failure) := by
  change ExceptT.bind (part draft) (fun result => next result.1 result.2) = _
  rw [ran]
  rfl

/-- What a part of drawing makes of certain drafts while a builder goes on: it fails with the
first type name met that is not known, or has a value and leads to certain drafts again. -/
def Follows (env : Environment) (part : Drawing Ref α) (now : Draft Ref → Prop) (b : Builder)
    (value : α) (later : Builder) (done : Draft Ref → Prop) : Prop :=
  ∀ draft, now draft → b.unknown? env = none →
    match later.unknown? env with
    | some ty => part draft = some (.error (.unresolved ty))
    | none => ∃ next, part draft = some (.ok (value, next)) ∧ done next

/-- The first step decides if a name that it meets is not known, and otherwise the second. -/
theorem Follows.bind {env : Environment} {part : Drawing Ref α} {next : α → Drawing Ref β}
    {now between done : Draft Ref → Prop} {b middle later : Builder} {value : α} {result : β}
    (first : Follows env part now b value middle between)
    (second : Follows env (next value) between middle result later done)
    (types : middle.typeNames.toList <+: later.typeNames.toList) :
    Follows env (part >>= next) now b result later done := by
  intro draft holds known
  have outcome := first draft holds known
  cases met : middle.unknown? env with
  | some ty =>
      rw [met] at outcome
      rw [Builder.unknown?_of_prefix types met]
      exact Drawing.bind_error outcome
  | none =>
      rw [met] at outcome
      obtain ⟨drawn, ran, holdsNow⟩ := outcome
      rw [Drawing.bind_ok ran]
      exact second drawn holdsNow met

/-- A step that meets no type name and always succeeds. -/
theorem Follows.of_step {env : Environment} {part : Drawing Ref α} {now done : Draft Ref → Prop}
    {b later : Builder} {value : α} (types : later.typeNames = b.typeNames)
    (step : ∀ draft, now draft → ∃ next, part draft = some (.ok (value, next)) ∧ done next) :
    Follows env part now b value later done := by
  intro draft holds known
  rw [Builder.unknown?_congr types, known]
  exact step draft holds

/-- A part of drawing does what leads from one builder to another, in a place within some frames.
Exits that do not end at these frames or outside of them are left alone. -/
structure Renders (env : Environment) (ref : Tree.Node → Ref) (scope : Scope) (copying : Bool)
    (part : Drawing Ref α) (b : Builder) (value : α) (later : Builder) : Prop where
  types : b.typeNames.toList <+: later.typeNames.toList
  kept : ∀ exit, ¬ scope.Offers exit → later.parkedUnder exit = b.parkedUnder exit
  follows : ∀ base count, decide (0 < count) = copying →
    Follows env part (Tracks ref base scope count b) b value later
      (Tracks ref base scope count later)

namespace Renders

variable {env : Environment} {view : View Ref} {ref : Tree.Node → Ref} {scope : Scope}
  {copying : Bool} {b middle later : Builder} {part : Drawing Ref α} {value : α}

/-- Renderings follow each other. -/
theorem bind {next : α → Drawing Ref β} {result : β}
    (first : Renders env ref scope copying part b value middle)
    (second : Renders env ref scope copying (next value) middle result later) :
    Renders env ref scope copying (part >>= next) b result later where
  types := first.types.trans second.types
  kept exit apart := (second.kept exit apart).trans (first.kept exit apart)
  follows base count isCopying :=
    (first.follows base count isCopying).bind (second.follows base count isCopying) second.types

/-- A step that parks nothing and meets no type name. -/
theorem of_move (types : later.typeNames = b.typeNames) (parked : later.parked = b.parked)
    (step : ∀ base count draft, decide (0 < count) = copying →
      Tracks ref base scope count b draft → part draft = some (.ok (value,
        { draft with toCanvas := later.toCanvas, pending := later.tips }))) :
    Renders env ref scope copying part b value later where
  types := types ▸ List.prefix_rfl
  kept exit _ := Builder.parkedUnder_congr parked exit
  follows base count isCopying := .of_step types fun draft tracks =>
    ⟨_, step base count draft isCopying tracks, tracks.move parked⟩

theorem pure (value : α) : Renders env ref scope copying (Pure.pure value) b value b :=
  .of_move rfl rfl fun _ _ draft _ tracks => by
    rw [← tracks.canvas, ← tracks.pending]
    rfl

/-- A node that is shown is read. -/
theorem fetch {node : Tree.Node} {next : Tree.Kind Ref → Drawing Ref β} {result : β}
    (shown : view.Shows ref node)
    (rest : Renders env ref scope copying (next (node.shape.map ref)) b result later) :
    Renders env ref scope copying (Draft.fetch view (ref node) >>= next) b result later := by
  have read : Renders env ref scope copying (Draft.fetch view (ref node)) b (node.shape.map ref)
      b := .of_move rfl rfl fun _ _ draft _ tracks => by
    rw [Draft.fetch, shown.kind, ← tracks.canvas, ← tracks.pending]
  exact read.bind rest

/-- A type name that is met is looked up. -/
theorem lookUp (ty : String) :
    Renders env ref scope copying (Draft.lookUp env ty) b () (b.mention ty) where
  types := by
    rw [Builder.mention, Array.toList_push]
    exact List.prefix_append ..
  kept _ _ := rfl
  follows base count isCopying draft tracks known := by
    have met : (b.mention ty).unknown? env = if env.resolves ty then none else some ty := by
      rw [Builder.unknown?, Builder.mention, Array.toList_push, List.find?_append]
      rw [Builder.unknown?] at known
      rw [known]
      cases resolved : env.resolves ty <;> simp [resolved]
    rw [met, Draft.lookUp, Environment.resolve]
    cases env.resolves ty with
    | true => exact ⟨draft, rfl, { tracks with }⟩
    | false => rfl

/-- The pending tips are taken as they are. -/
theorem takePending :
    Renders env ref scope copying Draft.takePending b b.tips { b with tips := [] } :=
  .of_move rfl rfl fun _ _ draft _ tracks => by
    rw [← tracks.canvas, ← tracks.pending]
    rfl

/-- The pending tips are replaced. -/
theorem setPending (tips : List Tip) :
    Renders env ref scope copying (Draft.setPending tips) b () { b with tips } :=
  .of_move rfl rfl fun _ _ draft _ tracks => by
    rw [← tracks.canvas]
    rfl

/-- Tips are added to the pending ones. -/
theorem addPending (tips : List Tip) :
    Renders env ref scope copying (Draft.addPending tips) b () { b with tips := b.tips ++ tips } :=
  .of_move rfl rfl fun _ _ draft _ tracks => by
    rw [← tracks.canvas, ← tracks.pending]
    rfl

/-- The pending tips are split by the outcome of a test. -/
theorem split : Renders env ref scope copying Draft.split b (b.tipsAs .onTrue, b.tipsAs .onFalse)
    { b with tips := [] } :=
  takePending.bind (pure _)

/-- Tips that end at a node. -/
theorem toCanvas_connect (b : Builder) (tips : List Tip) (target : Nat) :
    (b.connect tips target).toCanvas = b.toCanvas.connect tips target := by
  unfold Builder.connect Canvas.connect
  induction tips generalizing b with
  | nil => rfl
  | cons tip tips ih => exact ih _

/-- The pending tips are connected to a node. -/
theorem connectPending (target : Nat) :
    Renders env ref scope copying (Draft.connectPending target) b ()
      { b.connect b.tips target with tips := [] } := by
  refine .of_move (Builder.typeNames_connect ..) (Builder.parked_connect ..)
    fun _ _ draft _ tracks => ?_
  change _ = some (Except.ok ((), { draft with
    toCanvas := (b.connect b.tips target).toCanvas, pending := [] }))
  rw [toCanvas_connect, ← tracks.canvas, ← tracks.pending]
  rfl

/-- A node in its place. -/
theorem addNode (id : Nat) (action : Action) (operands : List Nat) :
    Renders env ref scope copying (Draft.addNode (some id) action operands) b
      (b.addNode (.at id copying action operands)).1
      (b.addNode (.at id copying action operands)).2 :=
  .of_move rfl rfl fun _ _ draft isCopying tracks => by
    change _ = some (Except.ok ((b.toCanvas.addNode (.at id copying action operands)).1,
      { draft with
        toCanvas := (b.toCanvas.addNode (.at id copying action operands)).2
        pending := b.tips }))
    rw [← isCopying, ← tracks.duplicating, ← tracks.canvas, ← tracks.pending]
    rfl

/-- A node without a part of the tree is added. -/
theorem addImplicit (action : Action) (operands : List Nat) :
    Renders env ref scope copying (Draft.addNode none action operands) b
      (b.addNode (.implicit action operands)).1 (b.addNode (.implicit action operands)).2 :=
  .of_move rfl rfl fun _ _ draft _ tracks => by
    change _ = some (Except.ok ((b.toCanvas.addNode (.implicit action operands)).1, { draft with
      toCanvas := (b.toCanvas.addNode (.implicit action operands)).2, pending := b.tips }))
    rw [← tracks.canvas, ← tracks.pending]
    rfl

/-- A node at the current place. -/
theorem push (id : Nat) (action : Action) (operands : List Nat) :
    Renders env ref scope copying (Draft.push (some id) action operands) b
      (b.push (.at id copying action operands)).1 (b.push (.at id copying action operands)).2 :=
  (addNode id action operands).bind ((connectPending _).bind ((setPending _).bind (pure _)))

/-- A node without a part of the tree is pushed. -/
theorem pushImplicit (action : Action) (operands : List Nat) :
    Renders env ref scope copying (Draft.push none action operands) b
      (b.push (.implicit action operands)).1 (b.push (.implicit action operands)).2 :=
  (addImplicit action operands).bind ((connectPending _).bind ((setPending _).bind (pure _)))

/-- The edges of an exception. -/
theorem toCanvas_raise (b : Builder) (scope : Scope) (source : Nat) :
    (b.raise scope source).toCanvas = scope.route.1.foldl
      (fun canvas target => canvas.addEdge { source, target, kind := .exception })
      b.toCanvas := by
  have edges : ∀ (targets : List Nat) (b : Builder),
      (b.addEdges (targets.map fun target => { source, target, kind := .exception })).toCanvas =
        targets.foldl (fun canvas target =>
          canvas.addEdge { source, target, kind := .exception }) b.toCanvas := by
    intro targets
    induction targets with
    | nil => exact fun _ => rfl
    | cons target targets ih => exact fun b => ih _
  rw [Builder.raise_eq, edges]

/-- An exception goes to the same catch clauses and waits in the same frame. -/
theorem raise (source : Nat) :
    Renders env ref scope copying (Draft.raise source) b () (b.raise scope source) where
  types := Builder.typeNames_raise b scope source ▸ List.prefix_rfl
  kept exit apart := by
    rw [Builder.parkedUnder_raise, if_neg, List.append_nil]
    exact fun taken => apart (Scope.offers_route taken)
  follows base count _ := .of_step (Builder.typeNames_raise ..) fun draft tracks => by
    obtain ⟨later, routed, framed⟩ := tracks.frames.route ⟨source, .exception⟩
      (fun exit => base exit ++ (b.raise scope source).parkedUnder exit) fun exit => by
        rw [Builder.parkedUnder_raise, List.append_assoc]
    refine ⟨_, Draft.raise_apply routed, ?_⟩
    refine ⟨?_, ?_, framed, ?_, ?_, tracks.duplicating⟩
    · rw [toCanvas_raise, ← tracks.canvas]
    · rw [Builder.tips_raise]
      exact tracks.pending
    · rw [Builder.parkedUnder_raise, if_neg scope.route_ne_returns, List.append_nil]
      exact tracks.returns
    · rw [Builder.parkedUnder_raise, ← List.append_assoc, ← tracks.uncaught]
      by_cases uncaught : scope.route.2 = some .uncaught <;> simp [uncaught]

/-! ### Jumps -/

/-- The frames are as many as those of the scope. -/
theorem depth : Renders env ref scope copying Draft.depth b scope.length b :=
  .of_move rfl rfl fun _ _ draft _ tracks => by
    rw [← tracks.canvas, ← tracks.pending, ← tracks.frames.length_eq]
    rfl

/-- The innermost loop is that of the scope. -/
theorem loopDepth? : Renders env ref scope copying Draft.loopDepth? b scope.innermostLoop? b :=
  .of_move rfl rfl fun _ _ draft _ tracks => by
    rw [← tracks.canvas, ← tracks.pending, ← tracks.frames.innermostLoop?_eq]
    rfl

/-- The `finally` block of a frame further out. -/
theorem cleanupAt {inner outer : Scope} {frame : Frame} :
    Renders env ref (inner ++ frame :: outer) copying (Draft.cleanupAt outer.length) b
      (frame.cleanup?.map fun block => ref block.toNode) b :=
  .of_move rfl rfl fun _ _ draft _ tracks => by
    obtain ⟨found, isAt, cleanup⟩ := tracks.frames.frameAt?
    rw [Draft.cleanupAt, isAt, ← cleanup, ← tracks.canvas, ← tracks.pending]

/-- The pending tips are taken for a jump. -/
theorem takeJump (kind : EdgeKind) :
    Renders env ref scope copying (Draft.takeJump kind) b
      (b.tips.map fun tip => if tip.kind = .normal then { tip with kind } else tip)
      { b with tips := [] } :=
  takePending.bind (pure _)

/-- A result waits for the end of the fragment. -/
theorem addReturns (tips : List Tip) :
    Renders env ref scope copying (Draft.addReturns tips) b () (b.park .returns tips) where
  types := List.prefix_rfl
  kept exit apart := by
    apply Builder.parkedUnder_park_of_ne
    rintro rfl
    exact apart scope.offers_returns
  follows base count _ := .of_step rfl fun draft tracks => by
    refine ⟨_, rfl, tracks.canvas, tracks.pending, tracks.frames.congr fun exit inside => ?_,
      ?_, ?_, tracks.duplicating⟩
    · rw [Builder.parkedUnder_park_of_ne]
      rintro rfl
      exact inside
    · rw [Builder.parkedUnder_park, if_pos rfl, ← List.append_assoc, ← tracks.returns]
    · rw [Builder.parkedUnder_park_of_ne _ Exit.noConfusion]
      exact tracks.uncaught

/-- What jumps to the innermost loop waits in its frame. -/
theorem addJumps {exit : Exit} {depth : Nat} {change : Draft.Frame Ref → Draft.Frame Ref}
    {tips : List Tip} (found : scope.innermostLoop? = some depth)
    (ends : exit ∈ Frame.loop.exits depth)
    (changes : ∀ breaks continues, change (.loop breaks continues) =
      .loop (breaks ++ if exit = .breaks depth then tips else [])
        (continues ++ if exit = .continues depth then tips else [])) :
    Renders env ref scope copying (Draft.addJumps depth change) b () (b.park exit tips) where
  types := List.prefix_rfl
  kept other apart := by
    apply Builder.parkedUnder_park_of_ne
    rintro rfl
    exact apart (Scope.offers_innermostLoop? found ends)
  follows base count _ := .of_step rfl fun draft tracks => by
    have elsewhere : ∀ other, other ∉ Frame.loop.exits depth →
        base other ++ b.parkedUnder other = base other ++ (b.park exit tips).parkedUnder other := by
      intro other apart
      rw [Builder.parkedUnder_park_of_ne]
      rintro rfl
      exact apart ends
    obtain ⟨⟨frame, isAt⟩, framed⟩ := tracks.frames.changeAt change
      (fun other => base other ++ (b.park exit tips).parkedUnder other) found
      (fun breaks continues isBreaks isContinues => by
        rw [changes, isBreaks, isContinues, Builder.parkedUnder_park, Builder.parkedUnder_park,
          List.append_assoc, List.append_assoc])
      elsewhere
    refine ⟨{ draft with frames := Draft.changeAt depth change draft.frames }, ?_, tracks.canvas,
      tracks.pending, framed, ?_, ?_, tracks.duplicating⟩
    · rw [Draft.addJumps, isAt]
    · exact tracks.returns.trans (elsewhere .returns (by simp [Frame.mem_exits_loop]))
    · exact tracks.uncaught.trans (elsewhere .uncaught (by simp [Frame.mem_exits_loop]))

end Renders

/-! ### Frames -/

section Frames

variable {env : Environment} {view : View Ref} {ref : Tree.Node → Ref} {scope inner : Scope}
  {copying : Bool} {b middle later last : Builder} {base : Exit → List Tip} {count : Nat}
  {body : Drawing Ref Unit} {result : β}

/-- What waits at the exits when a frame is entered: nothing at its own ones. -/
def atEntry (base : Exit → List Tip) (frame : Frame) (depth : Nat) (b : Builder) (exit : Exit) :
    List Tip :=
  if exit ∈ frame.exits depth then [] else base exit ++ b.parkedUnder exit

/-- An exit of an outer frame is none of this frame. -/
theorem not_mem_exits (frame : Frame) {depth : Nat} {exit : Exit} (below : exit.Below depth) :
    exit ∉ frame.exits depth :=
  fun ends => Frame.not_below_of_mem_exits ends below

/-- A draft enters a frame. -/
theorem Tracks.enter {draft : Draft Ref} {entered : Draft.Frame Ref} (frame : Frame)
    (tracks : Tracks ref base scope count b draft)
    (framed : ∀ waiting : Exit → List Tip, (∀ exit ∈ frame.exits scope.length, waiting exit = []) →
      Framed ref waiting scope draft.frames →
        Framed ref waiting (frame :: scope) (entered :: draft.frames)) :
    Tracks ref (atEntry base frame scope.length b) (frame :: scope) count { b with parked := [] }
      { draft with frames := entered :: draft.frames } := by
  have nothing : ∀ exit, atEntry base frame scope.length b exit ++
      { b with parked := [] }.parkedUnder exit = atEntry base frame scope.length b exit :=
    fun exit => List.append_nil _
  have outside : ∀ exit : Exit, exit.Below scope.length →
      base exit ++ b.parkedUnder exit = atEntry base frame scope.length b exit :=
    fun _ below => (if_neg (not_mem_exits frame below)).symm
  refine ⟨tracks.canvas, tracks.pending, framed _ (fun exit ends => ?_) (tracks.frames.congr
    fun exit inside => ?_), ?_, ?_, tracks.duplicating⟩
  · rw [nothing, atEntry, if_pos ends]
  · rw [nothing, outside exit inside.below]
  · rw [nothing, ← outside .returns trivial]
    exact tracks.returns
  · rw [nothing, ← outside .uncaught trivial]
    exact tracks.uncaught

/-- A draft leaves a frame. -/
theorem Tracks.leave {draft : Draft Ref} {left : Draft.Frame Ref}
    {frames : List (Draft.Frame Ref)} (frame : Frame)
    (tracks : Tracks ref (atEntry base frame scope.length b) (frame :: scope) count later draft)
    (isFrames : draft.frames = left :: frames)
    (framed : ∀ waiting : Exit → List Tip, Framed ref waiting (frame :: scope) (left :: frames) →
      Framed ref waiting scope frames) :
    Tracks ref base scope count (later.leaveFrame b.parked (frame.exits scope.length))
      { draft with frames } := by
  have outside : ∀ exit : Exit, exit.Below scope.length →
      atEntry base frame scope.length b exit ++ later.parkedUnder exit =
        base exit ++
          (later.leaveFrame b.parked (frame.exits scope.length)).parkedUnder exit := by
    intro exit below
    rw [Builder.parkedUnder_leaveFrame, if_neg (not_mem_exits frame below), atEntry,
      if_neg (not_mem_exits frame below), List.append_assoc]
    rfl
  refine ⟨tracks.canvas, tracks.pending, ?_, tracks.returns.trans (outside .returns trivial),
    tracks.uncaught.trans (outside .uncaught trivial), tracks.duplicating⟩
  exact (framed _ (isFrames ▸ tracks.frames)).congr fun exit inside => outside exit inside.below

/-- Exits that end neither at a frame nor outside of it are left alone behind the frame, if they
are inside of it. -/
theorem kept_leaveFrame (frame : Frame)
    (kept : ∀ exit, ¬ Scope.Offers (frame :: scope) exit → later.parkedUnder exit = [])
    (exit : Exit) (apart : ¬ scope.Offers exit) :
    (later.leaveFrame b.parked (frame.exits scope.length)).parkedUnder exit =
      b.parkedUnder exit := by
  rw [Builder.parkedUnder_leaveFrame]
  refine (congrArg (_ ++ ·) ?_).trans (List.append_nil _)
  split
  · rfl
  · rename_i elsewhere
    refine kept exit ?_
    rintro (⟨ends, -⟩ | offers)
    · exact elsewhere ends
    · exact apart offers

/-- The body of a loop, between entering and leaving its frame. -/
theorem Renders.inLoop {next : List Tip × List Tip → Drawing Ref β}
    (drawn : Renders env ref (.loop :: scope) copying body { b with parked := [] } () later)
    (rest : Renders env ref scope copying
      (next (later.parkedUnder (.breaks scope.length), later.parkedUnder (.continues scope.length)))
      (later.leaveFrame b.parked (Frame.loop.exits scope.length)) result last) :
    Renders env ref scope copying (do
      Draft.enter (.loop [] [])
      body
      let left ← Draft.leaveLoop
      next left) b result last where
  types := drawn.types.trans rest.types
  kept exit apart := (rest.kept exit apart).trans
    (kept_leaveFrame .loop (fun exit apart => drawn.kept exit apart) exit apart)
  follows base count isCopying := by
    have entering : Follows env (Draft.enter (.loop [] [])) (Tracks ref base scope count b) b ()
        { b with parked := [] } (Tracks ref (atEntry base .loop scope.length b) (.loop :: scope)
          count { b with parked := [] }) := .of_step rfl fun draft tracks =>
      ⟨_, rfl, tracks.enter .loop fun waiting none framed =>
        .loop (none _ (by simp [Frame.exits])).symm (none _ (by simp [Frame.exits])).symm framed⟩
    have leaving : Follows env Draft.leaveLoop
        (Tracks ref (atEntry base .loop scope.length b) (.loop :: scope) count later) later
        (later.parkedUnder (.breaks scope.length), later.parkedUnder (.continues scope.length))
        (later.leaveFrame b.parked (Frame.loop.exits scope.length))
        (Tracks ref base scope count
          (later.leaveFrame b.parked (Frame.loop.exits scope.length))) :=
      .of_step rfl fun draft tracks => by
        have empty : ∀ exit ∈ Frame.loop.exits scope.length,
            atEntry base .loop scope.length b exit ++ later.parkedUnder exit =
              later.parkedUnder exit := fun exit ends => by
          rw [atEntry, if_pos ends, List.nil_append]
        have framed := tracks.frames
        generalize isFrames : draft.frames = frames at framed
        cases framed with
        | loop breaks continues framed =>
            refine ⟨_, ?_, tracks.leave .loop isFrames fun waiting whole => ?_⟩
            · rw [Draft.leaveLoop, isFrames, breaks, continues,
                empty _ (by simp [Frame.exits]), empty _ (by simp [Frame.exits])]
            · cases whole with
              | loop _ _ framed => exact framed
    exact entering.bind ((drawn.follows _ count isCopying).bind
      (leaving.bind (rest.follows base count isCopying) rest.types) rest.types)
      (drawn.types.trans rest.types)

/-- The body of a `try` and its catch clauses, between entering and leaving its frame.  The
catch clauses are drawn in the same frame, which no exception from there enters any more. -/
theorem Renders.inRegion {cleanup : Option Tree.Block} {handlers : List Handler}
    {clauses : List Tip → Drawing Ref (List Tip)} {next : List Tip → List Tip → Drawing Ref β}
    (drawn : Renders env ref (.region handlers cleanup :: scope) copying body
      { b with parked := [] } () middle)
    (caught : Renders env ref (.region [] cleanup :: scope) copying (clauses middle.tips)
      { middle with tips := [] } later.tips { later with tips := [] })
    (rest : Renders env ref scope copying
      (next later.tips (later.parkedUnder (.cleanup scope.length)))
      { later.leaveFrame b.parked [.cleanup scope.length] with tips := [] } result last) :
    Renders env ref scope copying (do
      Draft.enter (.region handlers (cleanup.map fun block => ref block.toNode) false [])
      body
      let continuation ← Draft.takePending
      Draft.enterHandlers
      let continuation ← clauses continuation
      let exceptional ← Draft.leaveRegion
      next continuation exceptional) b result last where
  types := drawn.types.trans (caught.types.trans rest.types)
  kept exit apart := by
    refine (rest.kept exit apart).trans
      (kept_leaveFrame (.region [] cleanup) (fun exit apart => ?_) exit apart)
    exact (caught.kept exit apart).trans (drawn.kept exit apart)
  follows base count isCopying := by
    let entry := atEntry base (.region [] cleanup) scope.length b
    have empty : entry (.cleanup scope.length) = [] := if_pos (List.mem_singleton.2 rfl)
    have entering : Follows env
        (Draft.enter (.region handlers (cleanup.map fun block => ref block.toNode) false []))
        (Tracks ref base scope count b) b () { b with parked := [] }
        (Tracks ref entry (.region handlers cleanup :: scope) count { b with parked := [] }) :=
      .of_step rfl fun draft tracks =>
        ⟨_, rfl, tracks.enter (.region handlers cleanup) fun waiting none framed =>
          .region rfl rfl (none _ (List.mem_singleton.2 rfl)).symm framed⟩
    have turning : Follows env Draft.enterHandlers
        (Tracks ref entry (.region handlers cleanup :: scope) count { middle with tips := [] })
        { middle with tips := [] } () { middle with tips := [] }
        (Tracks ref entry (.region [] cleanup :: scope) count { middle with tips := [] }) :=
      .of_step rfl fun draft tracks => by
        have framed := tracks.frames
        generalize isFrames : draft.frames = frames at framed
        cases framed with
        | @region _ frames _ handlers _ block _ exceptional _ isBlock isWaiting framed =>
            refine ⟨{ draft with frames := .region handlers block true exceptional :: frames }, ?_,
              tracks.canvas, tracks.pending, .region rfl isBlock isWaiting framed, tracks.returns,
              tracks.uncaught, tracks.duplicating⟩
            change some (Except.ok ((), _)) = _
            dsimp only
            rw [isFrames]
    have leaving : Follows env Draft.leaveRegion
        (Tracks ref entry (.region [] cleanup :: scope) count { later with tips := [] })
        { later with tips := [] } (later.parkedUnder (.cleanup scope.length))
        { later.leaveFrame b.parked [.cleanup scope.length] with tips := [] }
        (Tracks ref base scope count
          { later.leaveFrame b.parked [.cleanup scope.length] with tips := [] }) :=
      .of_step rfl fun draft tracks => by
        have framed := tracks.frames
        generalize isFrames : draft.frames = frames at framed
        cases framed with
        | region _ _ isWaiting framed =>
            refine ⟨_, ?_, tracks.leave (.region [] cleanup) isFrames fun waiting whole => ?_⟩
            · rw [Draft.leaveRegion, isFrames, isWaiting, empty, List.nil_append]
              rfl
            · cases whole with
              | region _ _ _ framed => exact framed
    exact entering.bind ((drawn.follows _ count isCopying).bind
      ((Renders.takePending.follows _ count isCopying).bind
        (turning.bind ((caught.follows _ count isCopying).bind
          (leaving.bind (rest.follows base count isCopying) rest.types) rest.types)
          (caught.types.trans rest.types)) (caught.types.trans rest.types))
      (caught.types.trans rest.types)) (drawn.types.trans (caught.types.trans rest.types))

/-- A further copy of some code. -/
theorem Follows.copy {next : Drawing Ref β} {done : Draft Ref → Prop}
    (drawn : Renders env ref scope true body b () later)
    (rest : Follows env next (Tracks ref base scope count later) later result last done)
    (types : later.typeNames.toList <+: last.typeNames.toList) :
    Follows env (do
      Draft.beginCopy
      body
      Draft.endCopy
      next) (Tracks ref base scope count b) b result last done := by
  have beginning : Follows env Draft.beginCopy (Tracks ref base scope count b) b () b
      (Tracks ref base scope (count + 1) b) := .of_step rfl fun draft tracks =>
    ⟨_, rfl, { tracks with duplicating := congrArg Nat.succ tracks.duplicating }⟩
  have ending : Follows env Draft.endCopy (Tracks ref base scope (count + 1) later) later () later
      (Tracks ref base scope count later) := .of_step rfl fun draft tracks =>
    ⟨_, rfl, { tracks with duplicating := congrArg Nat.pred tracks.duplicating }⟩
  exact beginning.bind ((drawn.follows base (count + 1) (decide_eq_true (Nat.succ_pos count))).bind
    (ending.bind rest types) types) (drawn.types.trans types)

/-- A copy where it stands. -/
theorem Renders.copy {next : Drawing Ref β} (drawn : Renders env ref scope true body b () later)
    (rest : Renders env ref scope copying next later result last) :
    Renders env ref scope copying (do
      Draft.beginCopy
      body
      Draft.endCopy
      next) b result last where
  types := drawn.types.trans rest.types
  kept exit apart := (rest.kept exit apart).trans (drawn.kept exit apart)
  follows base count isCopying :=
    .copy drawn (rest.follows base count isCopying) rest.types

/-- More frames offer more exits. -/
theorem Scope.Offers.append {exit : Exit} (offers : scope.Offers exit) :
    Scope.Offers (inner ++ scope) exit := by
  induction inner with
  | nil => exact offers
  | cons frame inner ih => exact Or.inr ih

/-- A copy outside of some frames, which are put aside meanwhile. -/
theorem Renders.copyOutside {next : Drawing Ref β}
    (drawn : Renders env ref scope true body b () later)
    (rest : Renders env ref (inner ++ scope) copying next later result last) :
    Renders env ref (inner ++ scope) copying (do
      let near ← Draft.splitOff scope.length
      Draft.beginCopy
      body
      Draft.endCopy
      Draft.restore near
      next) b result last where
  types := drawn.types.trans rest.types
  kept exit apart := (rest.kept exit apart).trans
    (drawn.kept exit fun offers => apart offers.append)
  follows base count isCopying := by
    intro draft tracks known
    obtain ⟨near, far, isFrames, length, framed⟩ := tracks.frames.split
    have put : Draft.splitOff scope.length draft =
        some (.ok (near, { draft with frames := far })) := by
      have inside : draft.frames.length - scope.length = near.length := by
        rw [isFrames, List.length_append, framed.length_eq, Nat.add_sub_cancel]
      change some (Except.ok (draft.frames.take (draft.frames.length - scope.length), { draft with
        frames := draft.frames.drop (draft.frames.length - scope.length) })) = _
      rw [inside, isFrames, List.take_left, List.drop_left]
    have whole := isFrames ▸ tracks.frames
    have restoring : Follows env (Draft.restore near) (Tracks ref base scope count later) later ()
        later (Tracks ref base (inner ++ scope) count later) := .of_step rfl fun draft aside => by
      refine ⟨_, rfl, { aside with
        frames := whole.restore length (fun exit apart => ?_) aside.frames }⟩
      rw [drawn.kept exit fun offers => apart offers.below]
    rw [Drawing.bind_ok put]
    exact Follows.copy drawn (restoring.bind (rest.follows base count isCopying) rest.types)
      rest.types _ { tracks with frames := framed } known

end Frames

end FragmentFlow.Graph
