import FragmentFlow.Proofs.Coverage.Behavior
import FragmentFlow.Proofs.Drawing.Frames
import FragmentFlow.Proofs.Drawing.Growth

/-!
# Drawn code follows its executions

Every execution of a statement leads from each open tip to an open tip behind the
statement or, if it ends abruptly, to where the frames around it let it land.  The
`finally` blocks on the way out are part of that landing, because a jump is drawn
together with them.
-/

namespace FragmentFlow.Graph

open Behavior

namespace Builder

/-- Edges lead from a node to another, past nodes that evaluate the given parts of
the tree. -/
inductive Leads (b : Builder) : Nat → List Nat → Nat → Prop
  | stay (node : Nat) : Leads b node [] node
  | step {source middle target : Nat} {trace : List Nat} {node : Node} :
      Leads b source trace middle → b.Arrow middle target → b.bare? target = some node →
        Leads b source (trace ++ node.tree.toList) target

namespace Leads

variable {b later : Builder} {source middle target : Nat} {trace rest : List Nat}

theorem trans (first : Leads b source trace middle) (second : Leads b middle rest target) :
    Leads b source (trace ++ rest) target := by
  induction second with
  | stay =>
      rw [List.append_nil]
      exact first
  | step _ arrow found ih =>
      rw [← List.append_assoc]
      exact .step ih arrow found

/-- A way stays while the drawing grows. -/
theorem grow (leads : Leads b source trace target) (grows : Grows b later) :
    Leads later source trace target := by
  induction leads with
  | stay => exact .stay source
  | step _ arrow found ih => exact .step ih (grows.arrow arrow) (grows.nodes _ _ found)

end Leads

end Builder

/-- Where an execution gets to that leaves a piece of code abruptly: the entry of a
catch clause, or a target that does not exist yet. -/
inductive Landing where
  | entry (node : Nat)
  | parked (exit : Exit)

/-- Whether a jump leaves a frame and goes on. -/
def Frame.Passes : Frame → Ending → Prop
  | _, .returns => True
  | .region .., .breaks | .region .., .continues => True
  | _, _ => False

/-- How an abrupt ending goes on outside a piece of code: what the `finally` blocks
of the frames around it evaluate, and where control lands.  Exceptions land at once,
because they share the copy of a block. -/
inductive Escapes : Scope → Ending → List Nat → Landing → Prop
  | caught {scope : Scope} {entry : Nat} :
      entry ∈ scope.route.1 → Escapes scope .raises [] (.entry entry)
  | uncaught {scope : Scope} {exit : Exit} :
      scope.route.2 = some exit → Escapes scope .raises [] (.parked exit)
  | returned : Escapes [] .returns [] (.parked .returns)
  | broken {outer : Scope} :
      Escapes (.loop :: outer) .breaks [] (.parked (.breaks outer.length))
  | continued {outer : Scope} :
      Escapes (.loop :: outer) .continues [] (.parked (.continues outer.length))
  | resumed {frame : Frame} {outer : Scope} {ending : Ending} {trace rest : List Nat}
      {landing : Landing} :
      frame.Passes ending → Tree.behaviorBlock? frame.cleanup? trace .normal →
        Escapes outer ending rest landing → Escapes (frame :: outer) ending (trace ++ rest) landing
  | replaced {frame : Frame} {outer : Scope} {ending other : Ending} {trace rest : List Nat}
      {landing : Landing} :
      frame.Passes ending → Tree.behaviorBlock? frame.cleanup? trace other → other ≠ .normal →
        Escapes outer other rest landing → Escapes (frame :: outer) ending (trace ++ rest) landing

namespace Scope

/-- Every `break` and `continue` in the `finally` blocks of some frames lies in the
body of a loop. -/
def JumpsWithin : Scope → Prop
  | [] => True
  | frame :: outer =>
    Tree.jumpsWithinBlock? (innermostLoop? outer).isSome frame.cleanup? = true ∧ JumpsWithin outer

/-- The frames that a jump leaves are those with at least so many frames around them,
and the exit that it takes then. -/
inductive Jumps (scope : Scope) : Ending → Nat → Exit → Prop
  | returns : Jumps scope .returns 0 .returns
  | breaks {frame : Nat} :
      scope.innermostLoop? = some frame → Jumps scope .breaks (frame + 1) (.breaks frame)
  | continues {frame : Nat} :
      scope.innermostLoop? = some frame → Jumps scope .continues (frame + 1) (.continues frame)

end Scope

namespace Escapes

/-- What lands outside a scope lands at one of its frames or further out. -/
theorem exit_below {scope : Scope} {ending : Ending} {rest : List Nat} {landing : Landing}
    (escapes : Escapes scope ending rest landing) {exit : Exit} (parked : landing = .parked exit) :
    exit.Below scope.length := by
  induction escapes with
  | caught _ => cases parked
  | uncaught found =>
      cases parked
      exact (Scope.offers_route found).below
  | returned =>
      cases parked
      trivial
  | broken | continued =>
      cases parked
      exact Nat.lt_succ_self _
  | resumed _ _ _ ih | replaced _ _ _ _ ih => exact (ih parked).mono (Nat.le_succ _)

/-- A frame without a `finally` block is left at once. -/
theorem pass {frame : Frame} {scope : Scope} {ending : Ending} {rest : List Nat}
    {landing : Landing} (passes : frame.Passes ending) (absent : frame.cleanup? = none)
    (escapes : Escapes scope ending rest landing) :
    Escapes (frame :: scope) ending rest landing := by
  have run : Tree.behaviorBlock? frame.cleanup? [] .normal := absent ▸ nothing.intro
  exact .resumed passes run escapes

/-- A loop does not hold up what does not end at it. -/
theorem loop {scope : Scope} {ending : Ending} {rest : List Nat} {landing : Landing}
    (escapes : Escapes scope ending rest landing) (away : ending = .returns ∨ ending = .raises) :
    Escapes (.loop :: scope) ending rest landing := by
  rcases away with rfl | rfl
  · exact .pass trivial rfl escapes
  · cases escapes with
    | caught member => exact .caught member
    | uncaught found => exact .uncaught found
    | resumed passes | replaced passes => exact passes.elim

end Escapes

namespace Builder

/-- Edges lead from a node to a landing, past nodes that evaluate the given parts of
the tree. -/
def Lands (b : Builder) (source : Nat) (trace : List Nat) : Landing → Prop
  | .entry node => ∃ last, b.Leads source trace last ∧ b.Arrow last node
  | .parked exit =>
    ∃ last kind, b.Leads source trace last ∧ (exit, { source := last, kind : Tip }) ∈ b.parked

/-- A landing stays while the drawing is extended. -/
theorem Lands.extend {b later : Builder} {source : Nat} {trace : List Nat} {landing : Landing}
    (lands : b.Lands source trace landing) (extends_ : Extends b later) :
    later.Lands source trace landing := by
  cases landing with
  | entry node =>
      obtain ⟨last, leads, arrow⟩ := lands
      exact ⟨last, leads.grow extends_.grows, extends_.grows.arrow arrow⟩
  | parked exit =>
      obtain ⟨last, kind, leads, member⟩ := lands
      exact ⟨last, kind, leads.grow extends_.grows, extends_.parked _ member⟩

/-- A way to a node from which control lands is one to the landing. -/
theorem Leads.lands {b : Builder} {source middle : Nat} {trace rest : List Nat}
    {landing : Landing} (leads : b.Leads source trace middle)
    (lands : b.Lands middle rest landing) : b.Lands source (trace ++ rest) landing := by
  cases landing with
  | entry node =>
      obtain ⟨last, further, arrow⟩ := lands
      exact ⟨last, leads.trans further, arrow⟩
  | parked exit =>
      obtain ⟨last, kind, further, member⟩ := lands
      exact ⟨last, kind, leads.trans further, member⟩

/-- From a node every execution of a behavior leads to an open tip or, if it ends
abruptly, to where the frames around it let it land. -/
structure Covers (b : Builder) (scope : Scope) (source : Nat) (behavior : Behavior) : Prop where
  normal {trace : List Nat} : behavior trace .normal →
    ∃ tip ∈ b.tips, b.Leads source trace tip.source
  abrupt {trace rest : List Nat} {ending : Ending} {landing : Landing} :
    behavior trace ending → ending ≠ .normal → Escapes scope ending rest landing →
      b.Lands source (trace ++ rest) landing

/-- Every execution of a behavior is covered from each of some tips. -/
def CoversTips (b : Builder) (scope : Scope) (tips : List Tip) (behavior : Behavior) : Prop :=
  ∀ tip ∈ tips, b.Covers scope tip.source behavior

section Composition

variable {b middle later : Builder} {scope : Scope} {source : Nat} {tips : List Tip}
  {behavior first second : Behavior}

/-- What is covered stays covered. -/
theorem Covers.extend (covers : b.Covers scope source behavior) (extends_ : Extends b later)
    (kept : ∀ tip ∈ b.tips, tip ∈ later.tips) : later.Covers scope source behavior where
  normal run := by
    obtain ⟨tip, member, leads⟩ := covers.normal run
    exact ⟨tip, kept tip member, leads.grow extends_.grows⟩
  abrupt run cut escapes := (covers.abrupt run cut escapes).extend extends_

/-- What is covered from some tips stays covered. -/
theorem CoversTips.extend (covers : b.CoversTips scope tips behavior) (extends_ : Extends b later)
    (kept : ∀ tip ∈ b.tips, tip ∈ later.tips) : later.CoversTips scope tips behavior :=
  fun tip member => (covers tip member).extend extends_ kept

/-- The kind of a tip does not count. -/
theorem CoversTips.of_tipsAs {kind : EdgeKind}
    (covers : later.CoversTips scope (b.tipsAs kind) behavior) :
    later.CoversTips scope b.tips behavior :=
  fun tip member => covers { tip with kind } (List.mem_map.2 ⟨tip, member, rfl⟩)

/-- A sequence is covered by its parts one behind the other. -/
theorem Covers.andThen (begins : middle.Covers scope source first)
    (goesOn : later.CoversTips scope middle.tips second) (extends_ : Extends middle later) :
    later.Covers scope source (first.andThen second) where
  normal run := by
    cases run with
    | next start rest =>
        obtain ⟨tip, member, leads⟩ := begins.normal start
        obtain ⟨last, open_, further⟩ := (goesOn tip member).normal rest
        exact ⟨last, open_, (leads.grow extends_.grows).trans further⟩
    | cut _ abrupt => exact absurd rfl abrupt
  abrupt run cut escapes := by
    cases run with
    | next start rest =>
        obtain ⟨tip, member, leads⟩ := begins.normal start
        rw [List.append_assoc]
        exact (leads.grow extends_.grows).lands ((goesOn tip member).abrupt rest cut escapes)
    | cut start _ => exact (begins.abrupt start cut escapes).extend extends_

/-- A sequence is covered from some tips by its parts one behind the other. -/
theorem CoversTips.andThen (begins : middle.CoversTips scope tips first)
    (goesOn : later.CoversTips scope middle.tips second) (extends_ : Extends middle later) :
    later.CoversTips scope tips (first.andThen second) :=
  fun tip member => (begins tip member).andThen goesOn extends_

/-- A choice is covered if both parts are. -/
theorem CoversTips.either (one : later.CoversTips scope tips first)
    (other : later.CoversTips scope tips second) :
    later.CoversTips scope tips (first.either second) := fun tip member =>
  { normal := fun run => by
      cases run with
      | first run => exact (one tip member).normal run
      | second run => exact (other tip member).normal run
    abrupt := fun run cut escapes => by
      cases run with
      | first run => exact (one tip member).abrupt run cut escapes
      | second run => exact (other tip member).abrupt run cut escapes }

/-- Nothing to evaluate leaves the tips as they are. -/
theorem CoversTips.nothing (kept : ∀ tip ∈ tips, tip ∈ b.tips) :
    b.CoversTips scope tips nothing := fun tip member =>
  { normal := fun run => by
      cases run
      exact ⟨tip, kept tip member, .stay _⟩
    abrupt := fun run cut _ => by
      cases run
      exact absurd rfl cut }

end Composition

/-! ### Single nodes -/

/-- A pushed node is reached from the tips before it. -/
theorem leads_push (b : Builder) (node : Node) {tip : Tip} (member : tip ∈ b.tips) :
    (b.push node).2.Leads tip.source node.tree.toList b.nodes.size := by
  have arrow : (b.push node).2.Arrow tip.source b.nodes.size :=
    ⟨tip.kind, mem_edges_push.2 (Or.inr ⟨member, rfl⟩)⟩
  have passed := Leads.step (.stay tip.source) arrow (bare?_push_self b node)
  exact passed

/-- A pushed node covers the evaluation of its part of the tree. -/
theorem covers_push (b : Builder) (scope : Scope) (id : Nat) (copying : Bool) (action : Action)
    (operands : List Nat) :
    (b.push (.at id copying action operands)).2.CoversTips scope b.tips (evaluates id) :=
  fun _ member =>
    { normal := fun run => by
        cases run
        exact ⟨_, List.mem_singleton_self _, leads_push b (.at id copying action operands) member⟩
      abrupt := fun run cut _ => by
        cases run
        exact absurd rfl cut }

/-- A node that evaluates nothing of the tree is passed unseen. -/
theorem covers_push_implicit (b : Builder) (scope : Scope) (action : Action)
    (operands : List Nat) :
    (b.push (.implicit action operands)).2.CoversTips scope b.tips nothing :=
  fun _ member =>
    { normal := fun run => by
        cases run
        exact ⟨_, List.mem_singleton_self _, leads_push b (.implicit action operands) member⟩
      abrupt := fun run cut _ => by
        cases run
        exact absurd rfl cut }

/-- What is raised at a node lands where the frames around it let it. -/
theorem lands_raise (b : Builder) {scope : Scope} {source : Nat} {rest : List Nat}
    {landing : Landing} (escapes : Escapes scope .raises rest landing) :
    (b.raise scope source).Lands source rest landing := by
  cases escapes with
  | caught member =>
      exact ⟨source, .stay _, .exception, mem_edges_raise.2 (Or.inr ⟨rfl, member, rfl⟩)⟩
  | uncaught found =>
      refine ⟨source, .exception, .stay _, ?_⟩
      rw [parked_raise, found]
      exact List.mem_append_right _ (List.mem_singleton_self _)
  | resumed passes => cases ‹Frame› <;> exact passes.elim
  | replaced passes => cases ‹Frame› <;> exact passes.elim

/-- Raising at the open tips covers an exception. -/
theorem covers_raise (b : Builder) (scope : Scope) (source : Nat) (tips : List Tip)
    (kind : EdgeKind) :
    ({ b with tips }.raise scope source).CoversTips scope [{ source, kind }] (ends .raises) :=
  fun tip member =>
    { normal := fun run => nomatch run
      abrupt := fun run _ escapes => by
        cases run
        rw [List.mem_singleton.1 member]
        exact lands_raise _ escapes }

/-- A node that may raise is drawn with its exception. -/
theorem covers_push_raise (b : Builder) (scope : Scope) (id : Nat) (copying : Bool)
    (action : Action) (operands : List Nat) :
    ((b.push (.at id copying action operands)).2.raise scope b.nodes.size).CoversTips scope b.tips
      (mayRaise id) := fun tip member =>
  have leads := (leads_push b (.at id copying action operands) member).grow
    (.raise _ scope b.nodes.size)
  { normal := fun run => by
      cases run
      refine ⟨{ source := b.nodes.size, kind := .normal }, ?_, leads⟩
      rw [tips_raise]
      exact List.mem_singleton_self _
    abrupt := fun run cut escapes => by
      cases run with
      | completes => exact absurd rfl cut
      | raises => exact leads.lands (lands_raise _ escapes) }

/-! ### Expressions -/

mutual

/-- The drawing of an expression covers its behavior. -/
theorem covers_expr (scope : Scope) (copying : Bool) (b : Builder) (value : Tree.Expr) :
    (b.expr scope copying value).2.CoversTips scope b.tips value.behavior := by
  match value with
  | .literal id value => exact covers_push b scope id copying _ _
  | .ident id name => exact covers_push b scope id copying _ _
  | .assign id target value =>
      exact (covers_expr scope copying b value).andThen (covers_push _ scope id copying _ _)
        (.push _ _)
  | .binary id op lhs rhs =>
      have left := covers_expr scope copying b lhs
      rw [Builder.expr, Tree.Expr.behavior]
      dsimp only
      split
      · refine left.andThen (CoversTips.andThen (CoversTips.either ?_ ?_)
          (covers_push _ scope id copying _ _) (.push _ _)) ?_
        · exact (CoversTips.of_tipsAs (covers_expr scope copying _ rhs)).extend
            ((Extends.refl _).to_tips _) (fun _ member => List.mem_append_left _ member)
        · exact CoversTips.of_tipsAs (CoversTips.nothing fun _ member =>
            List.mem_append_right _ member)
        · exact (Extends.of_tips (.expr scope copying _ rhs)).trans (.of_tips (.push _ _))
      · have right := covers_expr scope copying (b.expr scope copying lhs).2 rhs
        split
        · exact left.andThen (right.andThen (covers_push_raise _ scope id copying _ _)
            ((Extends.push _ _).trans (.raise _ scope _)))
            ((Extends.expr scope copying _ rhs).trans ((Extends.push _ _).trans
              (.raise _ scope _)))
        · exact left.andThen (right.andThen (covers_push _ scope id copying _ _) (.push _ _))
            ((Extends.expr scope copying _ rhs).trans (.push _ _))
  | .unary id op operand =>
      exact (covers_expr scope copying b operand).andThen (covers_push _ scope id copying _ _)
        (.push _ _)
  | .conditional id cond whenTrue whenFalse =>
      refine (covers_expr scope copying b cond).andThen (CoversTips.andThen
        (CoversTips.either ?_ ?_) (covers_push _ scope id copying _ _) (.push _ _)) ?_
      · exact (CoversTips.of_tipsAs (covers_expr scope copying _ whenTrue)).extend
          (Extends.to_tips _ (.of_tips (.expr scope copying _ whenFalse)))
          (fun _ member => List.mem_append_left _ member)
      · exact (CoversTips.of_tipsAs (covers_expr scope copying _ whenFalse)).extend
          ((Extends.refl _).to_tips _) (fun _ member => List.mem_append_right _ member)
      · exact ((Extends.of_tips (.expr scope copying _ whenTrue)).trans
          (.of_tips (.expr scope copying _ whenFalse))).trans (.of_tips (.push _ _))
  | .call id callee args =>
      exact (covers_exprs scope copying b args).andThen
        (covers_push_raise _ scope id copying _ _) ((Extends.push _ _).trans (.raise _ scope _))
  | .new id ty args =>
      exact (covers_exprs scope copying (b.mention ty) args).andThen
        (covers_push_raise _ scope id copying _ _) ((Extends.push _ _).trans (.raise _ scope _))
  | .lambda id params body => exact covers_push b scope id copying _ _

/-- The drawing of some expressions covers their behavior. -/
theorem covers_exprs (scope : Scope) (copying : Bool) (b : Builder) (values : List Tree.Expr) :
    (b.exprs scope copying values).2.CoversTips scope b.tips (Tree.behaviorExprs values) := by
  match values with
  | [] => exact CoversTips.nothing fun _ member => member
  | value :: values =>
      exact (covers_expr scope copying b value).andThen (covers_exprs scope copying _ values)
        (.exprs scope copying _ values)

end

/-- The drawing of an expression that may be missing covers its behavior. -/
theorem covers_expr? (scope : Scope) (copying : Bool) (b : Builder) (value : Option Tree.Expr) :
    (b.expr? scope copying value).2.CoversTips scope b.tips (Tree.behaviorExpr? value) := by
  cases value with
  | none => exact CoversTips.nothing fun _ member => member
  | some value => exact covers_expr scope copying b value

end Builder

end FragmentFlow.Graph
