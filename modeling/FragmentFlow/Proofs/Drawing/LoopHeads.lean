import FragmentFlow.Proofs.Drawing.Numbering

/-!
# Code that draws no loop heads

Only loops are drawn with a loop head: expressions and the entries of catch clauses are
drawn without one.
-/

namespace FragmentFlow.Graph.Builder

/-- No loop head is drawn. -/
def Unlooped (b later : Builder) : Prop :=
  ∀ id, later.Loops id → b.Loops id

namespace Unlooped

variable {b later last : Builder} {scope : Scope} {copying : Bool}

theorem refl (b : Builder) : Unlooped b b := fun _ loops => loops

theorem trans (first : Unlooped b later) (second : Unlooped later last) : Unlooped b last :=
  fun id loops => first id (second id loops)

theorem of_bare? (same : ∀ id, later.bare? id = b.bare? id) : Unlooped b later :=
  fun id loops => loops.imp fun _ found => ⟨(same id).symm.trans found.1, found.2⟩

theorem addNode (b : Builder) {node : Node} (plain : node.action ≠ .loopHead) :
    Unlooped b (b.addNode node).2 := by
  rintro id ⟨other, found, isLoop⟩
  rw [bare?_addNode] at found
  split at found
  · cases found
    exact absurd isLoop plain
  · exact ⟨other, found, isLoop⟩

theorem push (b : Builder) {node : Node} (plain : node.action ≠ .loopHead) :
    Unlooped b (b.push node).2 :=
  (addNode b plain).trans (of_bare? fun id => bare?_connect _ b.tips b.nodes.size id)

theorem raise (b : Builder) (scope : Scope) (source : Nat) : Unlooped b (b.raise scope source) :=
  of_bare? (bare?_raise b scope source)

/-- Tips, parked tips and type names at the start do not count. -/
theorem of_moved {first : Builder} (drawn : Unlooped first later) (nodes : first.nodes = b.nodes) :
    Unlooped b later :=
  (of_bare? (bare?_of_eq nodes)).trans drawn

theorem of_tips {tips : List Tip} (drawn : Unlooped { b with tips } later) : Unlooped b later :=
  drawn.of_moved rfl

theorem of_mention {ty : String} (drawn : Unlooped (b.mention ty) later) : Unlooped b later :=
  drawn.of_moved rfl

mutual

/-- An expression adds no loop head. -/
theorem expr (scope : Scope) (copying : Bool) (b : Builder) (value : Tree.Expr) :
    Unlooped b (b.expr scope copying value).2 := by
  match value with
  | .literal id value => exact push b (by nofun)
  | .ident id name => exact push b (by nofun)
  | .assign id target value => exact (expr scope copying b value).trans (push _ (by nofun))
  | .binary id op lhs rhs =>
      have left := expr scope copying b lhs
      rw [Builder.expr]
      dsimp only
      split
      · exact (left.trans (of_tips (expr scope copying _ rhs))).trans
          (of_tips (push _ (by nofun)))
      · have drawn := left.trans (expr scope copying _ rhs)
        split
        · exact (drawn.trans (push _ (by nofun))).trans (raise _ scope _)
        · exact drawn.trans (push _ (by nofun))
  | .unary id op operand => exact (expr scope copying b operand).trans (push _ (by nofun))
  | .conditional id cond whenTrue whenFalse =>
      exact (((expr scope copying b cond).trans (of_tips (expr scope copying _ whenTrue))).trans
        (of_tips (expr scope copying _ whenFalse))).trans (of_tips (push _ (by nofun)))
  | .call id callee args =>
      exact ((exprs scope copying b args).trans (push _ (by nofun))).trans (raise _ scope _)
  | .new id ty args =>
      exact (of_mention ((exprs scope copying (b.mention ty) args).trans (push _ (by nofun)))).trans
        (raise _ scope _)
  | .lambda id params body => exact push b (by nofun)

theorem exprs (scope : Scope) (copying : Bool) (b : Builder) (values : List Tree.Expr) :
    Unlooped b (b.exprs scope copying values).2 := by
  match values with
  | [] => exact refl b
  | value :: values =>
      exact (expr scope copying b value).trans
        (exprs scope copying (b.expr scope copying value).2 values)

end

theorem expr? (scope : Scope) (copying : Bool) (b : Builder) (value : Option Tree.Expr) :
    Unlooped b (b.expr? scope copying value).2 := by
  cases value with
  | none => exact refl b
  | some value => exact expr scope copying b value

theorem enterCatches (copying : Bool) (b : Builder) (clauses : List Tree.Catch) :
    Unlooped b (b.enterCatches copying clauses).2 := by
  induction clauses generalizing b with
  | nil => exact refl b
  | cons clause clauses ih =>
      exact (of_mention (addNode _ (by nofun))).trans (ih _)

end Unlooped

end FragmentFlow.Graph.Builder
