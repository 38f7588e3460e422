import FragmentFlow.Proofs.Drawing.Recursion

/-!
# Frames and exits

An exit is named by the number of frames around the frame that it ends at.  Frames further in
have larger numbers, so the exits of some frames are never those of the frames around them.
-/

namespace FragmentFlow.Graph

/-- The frame that an exit belongs to is one of the outermost so many. -/
def Exit.Below (bound : Nat) : Exit → Prop
  | .returns | .uncaught => True
  | .breaks frame | .continues frame | .cleanup frame => frame < bound

/-- Further in there are more exits. -/
theorem Exit.Below.mono {exit : Exit} {bound larger : Nat} (below : exit.Below bound)
    (le : bound ≤ larger) : exit.Below larger := by
  cases exit with
  | returns | uncaught => trivial
  | breaks frame | continues frame | cleanup frame => exact Nat.lt_of_lt_of_le below le

/-- The frame that an exit ends at is one of the outermost so many. -/
def Exit.Inside (bound : Nat) : Exit → Prop
  | .returns | .uncaught => False
  | .breaks frame | .continues frame | .cleanup frame => frame < bound

/-- An exit inside a bound is below it. -/
theorem Exit.Inside.below {exit : Exit} {bound : Nat} (inside : exit.Inside bound) :
    exit.Below bound := by
  cases exit with
  | returns | uncaught => trivial
  | breaks frame | continues frame | cleanup frame => exact inside

/-- An exit inside a bound is inside every larger one. -/
theorem Exit.Inside.mono {exit : Exit} {bound larger : Nat} (inside : exit.Inside bound)
    (le : bound ≤ larger) : exit.Inside larger := by
  cases exit with
  | returns | uncaught => exact inside
  | breaks frame | continues frame | cleanup frame => exact Nat.lt_of_lt_of_le inside le

/-- The exits that end at a frame with so many frames around it. -/
def Frame.exits (depth : Nat) : Frame → List Exit
  | loop => [.breaks depth, .continues depth]
  | region .. => [.cleanup depth]

theorem Frame.mem_exits_loop {depth : Nat} {exit : Exit} :
    exit ∈ Frame.loop.exits depth ↔ exit = .breaks depth ∨ exit = .continues depth := by
  simp [exits]

/-- The exits of a frame are not among those of the frames around it. -/
theorem Frame.not_below_of_mem_exits {frame : Frame} {depth : Nat} {exit : Exit}
    (ends : exit ∈ frame.exits depth) : ¬ exit.Below depth := by
  cases frame with
  | loop => rcases mem_exits_loop.1 ends with rfl | rfl <;> exact Nat.lt_irrefl depth
  | region handlers cleanup =>
      cases List.mem_singleton.1 ends
      exact Nat.lt_irrefl depth

/-- An exit ends at a frame with so many frames around it; at a `try` without a `finally`
block none does. -/
def Frame.Ends (depth : Nat) (frame : Frame) (exit : Exit) : Prop :=
  exit ∈ frame.exits depth ∧ (exit = .cleanup depth → frame.cleanup?.isSome = true)

namespace Scope

/-- The innermost loop is one of the frames. -/
theorem innermostLoop?_lt {scope : Scope} {frame : Nat}
    (found : innermostLoop? scope = some frame) : frame < scope.length := by
  induction scope with
  | nil => cases found
  | cons head outer ih =>
      cases head with
      | loop =>
          cases found
          exact Nat.lt_succ_self _
      | region handlers cleanup => exact Nat.lt_succ_of_lt (ih found)

/-- An exit ends outside all frames or at one of them. -/
def Offers : Scope → Exit → Prop
  | [], exit => exit = .returns ∨ exit = .uncaught
  | frame :: outer, exit => frame.Ends outer.length exit ∨ Offers outer exit

/-- An exit that some frames offer ends at one of them or further out. -/
theorem Offers.below {scope : Scope} {exit : Exit} (offers : scope.Offers exit) :
    exit.Below scope.length := by
  induction scope with
  | nil => rcases offers with rfl | rfl <;> trivial
  | cons frame outer ih =>
      rcases offers with ⟨here, -⟩ | further
      · cases frame with
        | loop =>
            rcases Frame.mem_exits_loop.1 here with rfl | rfl <;> exact Nat.lt_succ_self _
        | region handlers cleanup =>
            cases List.mem_singleton.1 here
            exact Nat.lt_succ_self _
      · exact (ih further).mono (Nat.le_succ _)

/-- A result leaves all frames. -/
theorem offers_returns (scope : Scope) : scope.Offers .returns := by
  induction scope with
  | nil => exact Or.inl rfl
  | cons frame outer ih => exact Or.inr ih

/-- An exception takes an exit that the frames offer. -/
theorem offers_route {scope : Scope} {exit : Exit} (found : scope.route.2 = some exit) :
    scope.Offers exit := by
  induction scope with
  | nil =>
      cases found
      exact Or.inr rfl
  | cons frame outer ih =>
      cases frame with
      | loop => exact Or.inr (ih found)
      | region handlers cleanup =>
          simp only [route] at found
          split at found
          · cases found
          · split at found
            · rename_i present
              cases found
              exact Or.inl ⟨List.mem_cons_self, fun _ => present⟩
            · exact Or.inr (ih found)

/-- An exception never leaves as a result. -/
theorem route_ne_returns (scope : Scope) : scope.route.2 ≠ some .returns := by
  induction scope with
  | nil => exact fun taken => nomatch taken
  | cons frame outer ih =>
      cases frame with
      | loop => exact ih
      | region handlers cleanup =>
          rw [route]
          dsimp only
          split
          · exact fun taken => nomatch taken
          · split
            · exact fun taken => nomatch taken
            · exact ih

/-- The exits of the innermost loop are offered. -/
theorem offers_innermostLoop? {scope : Scope} {depth : Nat}
    (found : scope.innermostLoop? = some depth) {exit : Exit}
    (ending : exit ∈ Frame.loop.exits depth) : scope.Offers exit := by
  induction scope with
  | nil => cases found
  | cons frame outer ih =>
      cases frame with
      | loop =>
          cases found
          refine Or.inl ⟨ending, fun cleans => ?_⟩
          rw [cleans] at ending
          rcases Frame.mem_exits_loop.1 ending with same | same <;> cases same
      | region handlers cleanup => exact Or.inr (ih found)

end Scope

end FragmentFlow.Graph
