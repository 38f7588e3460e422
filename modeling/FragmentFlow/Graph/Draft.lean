import FragmentFlow.Environment
import FragmentFlow.Graph.Canvas
import FragmentFlow.Tree.Walk

/-!
# Drafts

A graph is drawn node after node.  A draft knows the pending tips, that is, the edges that
will end at the next node; without them the current place cannot be reached.  Tips that leave
for a target that does not exist yet wait in the frame of the loop or `try` that they leave, or
at the exits of the fragment.  Frames are pushed and popped as code is entered and left, so
nothing but the code that does so keeps them balanced.

Code is read from a tree through a view, one node at a time and without any promise about what
a reference leads to.  Drawing has no result if a reference leads nowhere, or if it nests deeper
than there are nodes; otherwise it fails or goes on with a new draft.
-/

namespace FragmentFlow.Graph

/-- A catch clause as a target of exceptions. -/
structure Handler where
  entry : Nat
  catchesAll : Bool
  deriving DecidableEq, Repr

/-- Whether catch clauses for a type stop every exception. -/
def catchesAll (ty : String) : Bool :=
  let name := String.ofList (simpleName ty.toList)
  name == "Throwable" || name == "Exception"

/-- How the nodes of a tree are read. -/
structure View (Ref : Type) where
  /-- What a reference leads to. -/
  kind? : Ref → Option (Tree.Kind Ref)
  /-- The number of the node that a reference leads to. -/
  number : Ref → Nat
  /-- How many nodes there are. -/
  size : Nat

namespace View

/-- A numbered construct and all below it, which lead to their parts themselves. -/
def below (root : Tree.Node) : View Tree.Node where
  kind? node := some node.shape
  number := Tree.Node.id
  size := root.size

/-- The stored nodes of a tree, which are referred to by their numbers. -/
def ofArena (arena : Tree.Arena) : View Nat where
  kind? id := arena.entries[id]?.map Tree.Entry.kind
  number id := id
  size := arena.entries.size

end View

/-- What encloses the current place, and what waits there. -/
inductive Draft.Frame (Ref : Type) where
  /-- A loop: what leaves it and what goes on to its next turn. -/
  | loop (breaks continues : List Tip)
  /-- A `try`: its catch clauses, its `finally` block, whether the catch clauses are being
  drawn, which no exception from there enters, and the exceptions that wait for the `finally`
  block. -/
  | region (handlers : List Handler) (cleanup : Option Ref) (inHandlers : Bool)
      (exceptional : List Tip)

/-- A graph that is being drawn. -/
structure Draft (Ref : Type) extends Canvas where
  /-- The edges that will end at the next node. -/
  pending : List Tip := []
  /-- What encloses the current place, innermost first. -/
  frames : List (Draft.Frame Ref) := []
  /-- What leaves the fragment with a result. -/
  returns : List Tip := []
  /-- What leaves the fragment with an exception. -/
  uncaught : List Tip := []
  /-- The number of `finally` blocks around the current place that are being copied. -/
  duplicating : Nat := 0

/-- A part of drawing a graph. -/
abbrev Drawing (Ref : Type) := StateT (Draft Ref) (ExceptT Failure Option)

namespace Draft

variable {Ref : Type}

/-! ### Nodes and tips -/

/-- Reads a node of the tree. -/
def fetch (view : View Ref) (ref : Ref) : Drawing Ref (Tree.Kind Ref) := fun draft =>
  match view.kind? ref with
  | some kind => some (.ok (kind, draft))
  | none => none

/-- Gives up. -/
def tooDeep {α : Type} : Drawing Ref α := fun _ => none

/-- Looks up a type name. -/
def lookUp (env : Environment) (ty : String) : Drawing Ref Unit := fun draft =>
  match env.resolve ty with
  | .ok () => some (.ok ((), draft))
  | .error failure => some (.error failure)

/-- Adds a node without edges. -/
def addNode (tree : Option Nat) (action : Action) (operands : List Nat) : Drawing Ref Nat :=
  modifyGet fun draft =>
    let isCopy := tree.isSome && 0 < draft.duplicating
    let (id, canvas) := draft.toCanvas.addNode { action, tree, isCopy, operands }
    (id, { draft with toCanvas := canvas })

/-- Takes the pending tips away. -/
def takePending : Drawing Ref (List Tip) :=
  modifyGet fun draft => (draft.pending, { draft with pending := [] })

/-- Goes on from some tips only. -/
def setPending (tips : List Tip) : Drawing Ref Unit :=
  modify fun draft => { draft with pending := tips }

/-- Goes on from some more tips. -/
def addPending (tips : List Tip) : Drawing Ref Unit :=
  modify fun draft => { draft with pending := draft.pending ++ tips }

/-- Ends the pending tips at a node. -/
def connectPending (target : Nat) : Drawing Ref Unit :=
  modify fun draft =>
    { draft with toCanvas := draft.toCanvas.connect draft.pending target, pending := [] }

/-- Adds a node at the current place, which moves behind it. -/
def push (tree : Option Nat) (action : Action) (operands : List Nat) : Drawing Ref Nat := do
  let id ← addNode tree action operands
  connectPending id
  setPending [{ source := id, kind := .normal }]
  return id

/-- Splits the current place by the truth of what was evaluated last. -/
def split : Drawing Ref (List Tip × List Tip) := do
  let tips ← takePending
  return (tips.map fun tip => { tip with kind := .onTrue },
    tips.map fun tip => { tip with kind := .onFalse })

/-! ### Frames -/

/-- The catch clauses that an exception may enter, whether anything stops it, and the frames
with it waiting in one of them if it passes a `finally` block. -/
def route (raised : Tip) : List (Frame Ref) → List Nat × Bool × List (Frame Ref)
  | [] => ([], false, [])
  | .loop breaks continues :: outer =>
    let (targets, handled, outer) := route raised outer
    (targets, handled, .loop breaks continues :: outer)
  | .region handlers cleanup inHandlers exceptional :: outer =>
    let entered := if inHandlers then [] else handlers
    let entries := entered.map Handler.entry
    if entered.any Handler.catchesAll then
      (entries, true, .region handlers cleanup inHandlers exceptional :: outer)
    else if cleanup.isSome then
      (entries, true, .region handlers cleanup inHandlers (exceptional ++ [raised]) :: outer)
    else
      let (targets, handled, outer) := route raised outer
      (entries ++ targets, handled, .region handlers cleanup inHandlers exceptional :: outer)

/-- Raises an exception at a node. -/
def raise (source : Nat) : Drawing Ref Unit :=
  modify fun draft =>
    let raised := { source, kind := .exception }
    let (targets, handled, frames) := route raised draft.frames
    let canvas := targets.foldl
      (fun canvas target => canvas.addEdge { source, target, kind := .exception }) draft.toCanvas
    { draft with
      toCanvas := canvas, frames
      uncaught := if handled then draft.uncaught else draft.uncaught ++ [raised] }

/-- The frame with so many frames around it. -/
def frameAt? (depth : Nat) : List (Frame Ref) → Option (Frame Ref)
  | [] => none
  | frame :: outer => if outer.length = depth then some frame else frameAt? depth outer

/-- Changes the frame with so many frames around it. -/
def changeAt (depth : Nat) (change : Frame Ref → Frame Ref) : List (Frame Ref) → List (Frame Ref)
  | [] => []
  | frame :: outer =>
    if outer.length = depth then change frame :: outer else frame :: changeAt depth change outer

/-- The `finally` block of a frame. -/
def Frame.cleanup? : Frame Ref → Option Ref
  | loop .. => none
  | region _ cleanup .. => cleanup

/-- The `finally` block of the frame with so many frames around it. -/
def cleanupAt (depth : Nat) : Drawing Ref (Option Ref) := fun draft =>
  match frameAt? depth draft.frames with
  | some frame => some (.ok (frame.cleanup?, draft))
  | none => none

/-- The number of frames. -/
def depth : Drawing Ref Nat := fun draft =>
  some (.ok (draft.frames.length, draft))

/-- The number of frames around the innermost loop. -/
def innermostLoop? : List (Frame Ref) → Option Nat
  | [] => none
  | .loop .. :: outer => some outer.length
  | .region .. :: outer => innermostLoop? outer

/-- The number of frames around the innermost loop at the current place. -/
def loopDepth? : Drawing Ref (Option Nat) := fun draft =>
  some (.ok (innermostLoop? draft.frames, draft))

/-- Enters a frame. -/
def enter (frame : Frame Ref) : Drawing Ref Unit :=
  modify fun draft => { draft with frames := frame :: draft.frames }

/-- Leaves the frame of a loop; the result is what leaves the loop and what goes on to its
next turn. -/
def leaveLoop : Drawing Ref (List Tip × List Tip) := fun draft =>
  match draft.frames with
  | .loop breaks continues :: outer =>
    some (.ok ((breaks, continues), { draft with frames := outer }))
  | _ => some (.error (.internal "unbalanced loop frame"))

/-- Goes on to the catch clauses of the innermost frame. -/
def enterHandlers : Drawing Ref Unit :=
  modify fun draft =>
    match draft.frames with
    | .region handlers cleanup _ exceptional :: outer =>
      { draft with frames := .region handlers cleanup true exceptional :: outer }
    | _ => draft

/-- Leaves the frame of a `try`; the result is what waits for its `finally` block. -/
def leaveRegion : Drawing Ref (List Tip) := fun draft =>
  match draft.frames with
  | .region _ _ _ exceptional :: outer => some (.ok (exceptional, { draft with frames := outer }))
  | _ => some (.error (.internal "unbalanced try frame"))

/-- Begins a further copy of some code. -/
def beginCopy : Drawing Ref Unit :=
  modify fun draft => { draft with duplicating := draft.duplicating + 1 }

/-- Ends a further copy of some code. -/
def endCopy : Drawing Ref Unit :=
  modify fun draft => { draft with duplicating := draft.duplicating - 1 }

/-- Takes away all frames but so many outer ones. -/
def splitOff (depth : Nat) : Drawing Ref (List (Frame Ref)) :=
  modifyGet fun draft =>
    let inner := draft.frames.length - depth
    (draft.frames.take inner, { draft with frames := draft.frames.drop inner })

/-- Puts frames back that were taken away. -/
def restore (inner : List (Frame Ref)) : Drawing Ref Unit :=
  modify fun draft => { draft with frames := inner ++ draft.frames }

/-- Takes the pending tips away for a jump, whose kind those get that lead on normally. -/
def takeJump (kind : EdgeKind) : Drawing Ref (List Tip) := do
  let tips ← takePending
  return tips.map fun tip => if tip.kind = .normal then { tip with kind } else tip

/-- Leaves some tips waiting for the end of the fragment. -/
def addReturns (tips : List Tip) : Drawing Ref Unit :=
  modify fun draft => { draft with returns := draft.returns ++ tips }

/-- Leaves some tips waiting in a frame, which is one of a loop. -/
def addJumps (depth : Nat) (change : Frame Ref → Frame Ref) : Drawing Ref Unit := fun draft =>
  match frameAt? depth draft.frames with
  | some _ => some (.ok ((), { draft with frames := changeAt depth change draft.frames }))
  | none => none

/-- The frame of a loop with more that leaves the loop. -/
def Frame.breaking (tips : List Tip) : Frame Ref → Frame Ref
  | loop breaks continues => .loop (breaks ++ tips) continues
  | frame => frame

/-- The frame of a loop with more that goes on to its next turn. -/
def Frame.continuing (tips : List Tip) : Frame Ref → Frame Ref
  | loop breaks continues => .loop breaks (continues ++ tips)
  | frame => frame

/-- A draft with the entry of a graph. -/
def start : Draft Ref :=
  let (entry, canvas) := ({} : Canvas).addNode (.implicit .entry [])
  { toCanvas := canvas, pending := [{ source := entry, kind := .normal }] }

end Draft

end FragmentFlow.Graph
