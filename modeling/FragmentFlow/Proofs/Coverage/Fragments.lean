import FragmentFlow.Proofs.Coverage.Statements
import FragmentFlow.Proofs.Drawing.TypeNames
import FragmentFlow.Proofs.Graph.Paths

/-!
# The graph of a fragment covers its executions

Every finite execution of a fragment follows a path from the entry of its graph: to
the exit if it completes or returns, to the exceptional exit if it raises.
-/

namespace FragmentFlow

namespace Behavior

/-- No execution of a behavior jumps out of it to a loop. -/
def Stays (behavior : Behavior) : Prop :=
  ∀ trace ending, behavior trace ending → ending ≠ .breaks ∧ ending ≠ .continues

/-- A plain behavior does not leave a loop. -/
theorem Plain.stays {behavior : Behavior} (plain : Plain behavior) : Stays behavior := by
  intro trace ending run
  rcases plain trace ending run with rfl | rfl <;> exact ⟨Ending.noConfusion, Ending.noConfusion⟩

/-- An ending other than a `break` or a `continue` does not leave a loop. -/
theorem stays_ends {ending : Ending} (other : ending ≠ .breaks ∧ ending ≠ .continues) :
    Stays (ends ending) := by
  rintro _ _ ⟨⟩
  exact other

section Combination

variable {first second : Behavior} (one : Stays first) (other : Stays second)

include one other

/-- A sequence stays within if both parts do. -/
theorem Stays.andThen : Stays (first.andThen second) := by
  rintro _ _ (⟨_, rest⟩ | ⟨start, _⟩)
  · exact other _ _ rest
  · exact one _ _ start

/-- A choice stays within if both parts do. -/
theorem Stays.either : Stays (first.either second) := by
  rintro _ _ (run | run)
  · exact one _ _ run
  · exact other _ _ run

/-- Caught exceptions stay within if both parts do. -/
theorem Stays.caught (stopsAll : Bool) : Stays (caught stopsAll first second) := by
  rintro _ _ (⟨run, _⟩ | ⟨_, run⟩ | _)
  · exact one _ _ run
  · exact other _ _ run
  · exact ⟨Ending.noConfusion, Ending.noConfusion⟩

/-- A cleanup stays within if both parts do. -/
theorem Stays.cleanedUp : Stays (first.cleanedUp second) := by
  rintro _ _ (⟨run, _⟩ | ⟨_, run, _⟩)
  · exact one _ _ run
  · exact other _ _ run

end Combination

/-- A loop ends the jumps of its body. -/
theorem stays_repeats {id : Nat} {canFail : Bool} {cond body update : Behavior}
    (condPlain : Plain cond) (updatePlain : Plain update) :
    Stays (repeats id canFail cond body update) := by
  have testPlain : Plain ((evaluates id).andThen cond) := (plain_evaluates id).andThen condPlain
  intro trace ending run
  unfold repeats at run
  induction run with
  | leave | broken => exact ⟨Ending.noConfusion, Ending.noConfusion⟩
  | again _ _ ih => exact ih
  | cut run _ unbroken =>
      refine ⟨unbroken, ?_⟩
      cases run with
      | cut start _ => exact (testPlain.stays _ _ start).2
      | next _ rest =>
          cases rest with
          | next _ rest => exact (updatePlain.stays _ _ rest).2
          | cut turned _ =>
              cases turned with
              | continued => exact Ending.noConfusion
              | ended _ different => exact different

end Behavior

namespace Tree

open Behavior

mutual

theorem Block.behavior_stays (block : Block) (within : block.jumpsWithin false = true) :
    Stays block.behavior := by
  match block with
  | .mk _ _ stmts =>
      rw [Block.jumpsWithin] at within
      rw [Block.behavior]
      exact behaviorStmts_stays stmts within

theorem Stmt.behavior_stays (stmt : Stmt) (within : stmt.jumpsWithin false = true) :
    Stays stmt.behavior := by
  match stmt with
  | .localDecl id _ _ init =>
      exact (behaviorExpr?_plain init).stays.andThen (plain_evaluates id).stays
  | .exprStmt _ expr => exact expr.behavior_plain.stays
  | .ifElse _ cond whenTrue whenFalse =>
      rw [Stmt.jumpsWithin, Bool.and_eq_true] at within
      exact cond.behavior_plain.stays.andThen
        ((whenTrue.behavior_stays within.1).either (behaviorBlock?_stays whenFalse within.2))
  | .whileLoop _ cond _ => exact stays_repeats cond.behavior_plain plain_nothing
  | .forLoop _ init cond update _ =>
      rw [Stmt.jumpsWithin, Bool.and_eq_true] at within
      exact (behaviorStmts_stays init within.1).andThen
        (stays_repeats (behaviorExpr?_plain cond) (behaviorExprs_plain update))
  | .returnValue id value =>
      exact (behaviorExpr?_plain value).stays.andThen ((plain_evaluates id).stays.andThen
        (stays_ends ⟨Ending.noConfusion, Ending.noConfusion⟩))
  | .breakLoop _ | .continueLoop _ => cases within
  | .throwValue id value =>
      exact value.behavior_plain.stays.andThen ((plain_evaluates id).stays.andThen
        (stays_ends ⟨Ending.noConfusion, Ending.noConfusion⟩))
  | .tryCatch _ body catches cleanup =>
      rw [Stmt.jumpsWithin, Bool.and_eq_true, Bool.and_eq_true] at within
      obtain ⟨⟨bodyWithin, catchesWithin⟩, cleanupWithin⟩ := within
      exact ((body.behavior_stays bodyWithin).caught
        (behaviorCatches_stays catches catchesWithin) _).cleanedUp
          (behaviorBlock?_stays cleanup cleanupWithin)
  | .block inner =>
      rw [Stmt.jumpsWithin] at within
      exact inner.behavior_stays within

theorem Catch.behavior_stays (clause : Catch) (within : clause.jumpsWithin false = true) :
    Stays clause.behavior := by
  match clause with
  | .mk id _ _ body =>
      rw [Catch.jumpsWithin] at within
      exact (plain_evaluates id).stays.andThen (body.behavior_stays within)

/-- Statements without stray jumps stay within. -/
theorem behaviorStmts_stays (stmts : List Stmt) (within : jumpsWithinStmts false stmts = true) :
    Stays (behaviorStmts stmts) := by
  match stmts with
  | [] => exact plain_nothing.stays
  | stmt :: stmts =>
      rw [jumpsWithinStmts, Bool.and_eq_true] at within
      exact (stmt.behavior_stays within.1).andThen (behaviorStmts_stays stmts within.2)

/-- A block that may be missing stays within. -/
theorem behaviorBlock?_stays (block : Option Block)
    (within : jumpsWithinBlock? false block = true) : Stays (behaviorBlock? block) := by
  match block with
  | none => exact plain_nothing.stays
  | some block =>
      rw [jumpsWithinBlock?] at within
      exact block.behavior_stays within

/-- Catch clauses without stray jumps stay within. -/
theorem behaviorCatches_stays (clauses : List Catch)
    (within : jumpsWithinCatches false clauses = true) : Stays (behaviorCatches clauses) := by
  match clauses with
  | [] => exact fun _ _ run => run.elim
  | clause :: clauses =>
      rw [jumpsWithinCatches, Bool.and_eq_true] at within
      exact (clause.behavior_stays within.1).either (behaviorCatches_stays clauses within.2)

end

end Tree

open Behavior in
theorem Fragment.Code.behavior_stays (code : Code) (within : code.jumpsWithin = true) :
    Stays code.behavior := by
  match code with
  | .method decl => exact Tree.behaviorBlock?_stays decl.body within
  | .lambda _ _ (.block body) => exact body.behavior_stays within
  | .lambda _ _ (.value result) =>
      exact result.behavior_plain.stays.andThen
        (stays_ends ⟨Ending.noConfusion, Ending.noConfusion⟩)
  | .initializer body => exact body.behavior_stays within
  | .fieldInitializer decl init =>
      exact init.behavior_plain.stays.andThen (plain_evaluates decl.id).stays

namespace Graph

open Behavior

namespace Builder

/-- What is passed unseen may come first. -/
theorem CoversTips.unseen {middle later : Builder} {scope : Scope} {tips : List Tip}
    {behavior : Behavior} (passed : middle.CoversTips scope tips Behavior.nothing)
    (covers : later.CoversTips scope middle.tips behavior) (extends_ : Extends middle later) :
    later.CoversTips scope tips behavior := fun tip member =>
  have both := (passed tip member).andThen covers extends_
  { normal := fun run => both.normal (.next Behavior.nothing.intro run)
    abrupt := fun run cut escapes => both.abrupt (.next Behavior.nothing.intro run) cut escapes }

/-- Parameters are passed without evaluating anything. -/
theorem covers_params (b : Builder) (scope : Scope) (names : List String) :
    (b.params names).CoversTips scope b.tips nothing := by
  induction names generalizing b with
  | nil => exact CoversTips.nothing fun _ member => member
  | cons name names ih => exact (covers_push_implicit b scope _ _).unseen (ih _) (.params _ names)

/-- Parameters with types are passed without evaluating anything. -/
theorem covers_typedParams (b : Builder) (scope : Scope) (list : List Source.Param) :
    (list.foldl (fun b param => (b.mention param.ty).params [param.name]) b).CoversTips scope
      b.tips nothing := by
  induction list generalizing b with
  | nil => exact CoversTips.nothing fun _ member => member
  | cons param list ih =>
      exact (covers_params (b.mention param.ty) scope [param.name]).unseen (ih _)
        (.typedParams _ list)

/-- Statements outside of loops are covered. -/
theorem covers_stmts (b : Builder) (copying : Bool) (list : List Tree.Stmt)
    (within : Tree.jumpsWithinStmts false list = true) :
    (b.stmts [] copying list).CoversTips [] b.tips (Tree.behaviorStmts list) :=
  coverage.stmts [] list trivial within copying b

/-- The code of a fragment covers its executions. -/
theorem covers_code (b : Builder) (code : Fragment.Code) (within : code.jumpsWithin = true) :
    (b.code code).CoversTips [] b.tips code.behavior := by
  match code with
  | .method decl =>
      have passed := covers_typedParams b [] decl.params
      rw [Fragment.Code.jumpsWithin] at within
      rw [Builder.code, Fragment.Code.behavior]
      cases present : decl.body with
      | none => exact passed
      | some body =>
          rw [present, Tree.jumpsWithinBlock?, Tree.Block.jumpsWithin_eq] at within
          rw [Tree.behaviorBlock?, Tree.Block.behavior_eq]
          exact passed.unseen (covers_stmts _ false body.stmts within)
            (.stmts [] false _ body.stmts)
  | .lambda id names (.block body) =>
      rw [Fragment.Code.jumpsWithin, Tree.Block.jumpsWithin_eq] at within
      rw [Fragment.Code.behavior, Tree.Block.behavior_eq]
      exact (covers_params b [] names).unseen (covers_stmts _ false body.stmts within)
        (.stmts [] false _ body.stmts)
  | .lambda id names (.value result) =>
      rw [Builder.code, Fragment.Code.behavior]
      have returned := coverage.unwinding [] trivial 0
        ((((b.params names).expr [] false result).2.push
        (.implicit .returnValue [((b.params names).expr [] false result).1])).2) .returns .returns
        .returnValue .returns
      rw [unwind_nil] at returned
      have passed := (covers_push_implicit _ [] .returnValue _).unseen returned (.jump _ _ _)
      have evaluated := (covers_expr [] false (b.params names) result).andThen passed
        ((Extends.push _ _).trans (.jump _ _ _))
      exact (covers_params b [] names).unseen evaluated
        (((Extends.expr [] false _ result).trans (.push _ _)).trans (.jump _ _ _))
  | .initializer body =>
      rw [Fragment.Code.jumpsWithin, Tree.Block.jumpsWithin_eq] at within
      rw [Fragment.Code.behavior, Tree.Block.behavior_eq]
      exact covers_stmts b false body.stmts within
  | .fieldInitializer decl init =>
      exact (covers_expr [] false (b.mention decl.ty) init).andThen
        (covers_push _ [] decl.id false _ _) (.push _ _)

/-- A node that evaluates nothing of the tree ends some tips. -/
theorem Leads.end {b later : Builder} {source : Nat} {trace : List Nat} {tip : Tip}
    {tips : List Tip} {action : Action} (leads : b.Leads source trace tip.source)
    (member : tip ∈ tips)
    (grows : Grows ((b.addNode (.implicit action [])).2.connect tips b.nodes.size) later) :
    later.Leads source trace b.nodes.size := by
  have drawn : Grows b ((b.addNode (.implicit action [])).2.connect tips b.nodes.size) :=
    (Grows.addNode b _).trans (.connect _ _ _)
  have arrow : ((b.addNode (.implicit action [])).2.connect tips b.nodes.size).Arrow tip.source
      b.nodes.size := ⟨tip.kind, mem_edges_connect.2 (Or.inr ⟨member, rfl⟩)⟩
  have found : ((b.addNode (.implicit action [])).2.connect tips b.nodes.size).bare?
      b.nodes.size = some (.implicit action []) := by
    rw [bare?_connect, bare?_addNode, if_pos rfl]
    rfl
  have passed := (Leads.step (leads.grow drawn) arrow found).grow grows
  rwa [show (Node.implicit action []).tree.toList = [] from rfl, List.append_nil] at passed

/-- What completes or returns leads to the exit. -/
theorem Leads.exit {b : Builder} {source : Nat} {trace : List Nat} {tip : Tip}
    (leads : b.Leads source trace tip.source) (member : tip ∈ b.tips ++ b.parkedUnder .returns)
    (label : String) :
    (b.finish label).toBuilder.Leads source trace (b.finish label).exit :=
  leads.end member (((Grows.addNode _ _).trans (.connect _ _ _)).trans (.of_eq rfl rfl))

/-- What ends with an exception leads to the exceptional exit. -/
theorem Leads.exceptionalExit {b : Builder} {source : Nat} {trace : List Nat} {tip : Tip}
    (leads : b.Leads source trace tip.source) (member : tip ∈ b.parkedUnder .uncaught)
    (label : String) :
    (b.finish label).toBuilder.Leads source trace (b.finish label).exceptionalExit := by
  have ended := leads.grow ((Grows.addNode b (.implicit .exit [])).trans
    (.connect _ (b.tips ++ b.parkedUnder .returns) b.nodes.size))
  exact ended.end member (.of_eq rfl rfl)

/-- A way through the drawing is a path of the graph. -/
theorem Leads.path {graph : Graph} (well : graph.WellDrawn) {source target : Nat}
    {parts : List Nat} (leads : graph.toBuilder.Leads source parts target) :
    ∃ nodes, graph.trace nodes = parts ∧ graph.Path source nodes target := by
  induction leads with
  | stay => exact ⟨[], rfl, .stay⟩
  | @step middle target parts node leads arrow found ih =>
      obtain ⟨nodes, same, path⟩ := ih
      obtain ⟨kind, member⟩ := arrow
      obtain ⟨stored, present, rfl⟩ := Option.map_eq_some_iff.1 found
      have last : graph.trace [target] = stored.tree.toList := by
        rw [trace, List.filterMap_cons, show graph.nodes[target]? = some stored from present]
        cases h : stored.tree <;> simp [h]
      refine ⟨nodes ++ [target], ?_, .step path (well.mem_successors.2 ⟨member, rfl⟩)⟩
      rw [trace, List.filterMap_append]
      exact congr (congrArg _ same) last

end Builder

/-- Every finite execution of a fragment follows a path through its graph, to the exit
if it completes or returns and to the exceptional exit if it raises. -/
theorem exists_path_of_behavior {fragment : Fragment} {env : Environment} {graph : Graph}
    (built : ofFragment fragment env = .ok graph)
    (within : fragment.code.jumpsWithin = true) {parts : List Nat} {ending : Ending}
    (run : fragment.code.behavior parts ending) :
    ∃ nodes, graph.trace nodes = parts ∧
      ((ending = .normal ∨ ending = .returns) ∧ graph.Path Graph.entry nodes graph.exit ∨
        ending = .raises ∧ graph.Path Graph.entry nodes graph.exceptionalExit) := by
  have well := wellDrawn_of_ofFragment built
  obtain ⟨-, rfl⟩ := eq_finish_of_ofFragment built
  have covers : (draw fragment).Covers [] Graph.entry fragment.code.behavior :=
    Builder.covers_code .start fragment.code within ⟨Graph.entry, .normal⟩
      (List.mem_singleton_self _)
  have stays := fragment.code.behavior_stays within parts ending run
  cases ending with
  | normal =>
      obtain ⟨tip, member, leads⟩ := covers.normal run
      obtain ⟨nodes, same, path⟩ := (leads.exit (List.mem_append_left _ member) _).path well
      exact ⟨nodes, same, Or.inl ⟨Or.inl rfl, path⟩⟩
  | returns =>
      obtain ⟨last, kind, leads, parked⟩ := covers.abrupt run Ending.noConfusion .returned
      rw [List.append_nil] at leads
      have member := List.mem_append_right (draw fragment).tips (Builder.mem_parkedUnder.2 parked)
      obtain ⟨nodes, same, path⟩ := (leads.exit member fragment.name).path well
      exact ⟨nodes, same, Or.inl ⟨Or.inr rfl, path⟩⟩
  | raises =>
      obtain ⟨last, kind, leads, parked⟩ := covers.abrupt run Ending.noConfusion (.uncaught rfl)
      rw [List.append_nil] at leads
      have member := Builder.mem_parkedUnder.2 parked
      obtain ⟨nodes, same, path⟩ := (leads.exceptionalExit member fragment.name).path well
      exact ⟨nodes, same, Or.inr ⟨rfl, path⟩⟩
  | breaks => exact absurd rfl stays.1
  | continues => exact absurd rfl stays.2

/-- A call with cleanup:
`try { call(); break; } catch (Exception e) { continue; } finally { done(); }`. -/
def attempt : Source.Stmt :=
  .tryCatch [.exprStmt (.call "call" []), .breakLoop] [.mk "e" "Exception" [.continueLoop]]
    (some [.exprStmt (.call "done" [])])

/-- An initializer that calls until a call succeeds. -/
def retrying : Fragment :=
  .initializerOf "Retry" [.whileLoop (.ident "more") [attempt]]

/-- A failed call is retried, and the one that succeeds ends the loop; both times
the cleanup runs on the way out. -/
theorem retrying_path : ∃ graph nodes, ofFragment retrying .builtins = .ok graph ∧
    graph.trace nodes = [13, 0, 1, 7, 8, 13, 0, 1, 8] ∧
      graph.Path Graph.entry nodes graph.exit := by
  have built : ofFragment retrying .builtins = .ok ((draw retrying).finish retrying.name) := by
    decide +kernel
  have cleanup : Tree.behaviorBlock? (some (.mk 10 false [.exprStmt 9 (.call 8 "done" [])]))
      [8] .normal := andThen.next (andThen.next nothing.intro mayRaise.completes) nothing.intro
  have failed : (Tree.numberStmt 1 attempt).1.behavior [1, 7, 8] .continues :=
    cleanedUp.resumed (caught.handled
      (andThen.cut (andThen.next nothing.intro mayRaise.raises) Ending.noConfusion)
      (either.first (andThen.next evaluates.intro (andThen.cut ends.intro Ending.noConfusion))))
      cleanup
  have succeeded : (Tree.numberStmt 1 attempt).1.behavior [1, 8] .breaks :=
    cleanedUp.resumed (caught.unraised
      (andThen.next (andThen.next nothing.intro mayRaise.completes)
        (andThen.cut ends.intro Ending.noConfusion)) Ending.noConfusion) cleanup
  have tested : (Behavior.evaluates 13).andThen (Tree.Expr.ident 0 "more").behavior [13, 0]
      .normal :=
    andThen.next evaluates.intro evaluates.intro
  have run : retrying.code.behavior [13, 0, 1, 7, 8, 13, 0, 1, 8] .normal := by
    rw [retrying, Fragment.code_initializerOf]
    exact andThen.next (loop.again
      (andThen.next tested (andThen.next (turn.continued (andThen.cut failed Ending.noConfusion))
        nothing.intro))
      (loop.broken (andThen.next tested (andThen.cut (turn.ended (andThen.cut succeeded
        Ending.noConfusion) Ending.noConfusion) Ending.noConfusion)))) nothing.intro
  obtain ⟨nodes, same, ⟨-, path⟩ | ⟨⟨⟩, -⟩⟩ := exists_path_of_behavior built (by decide +kernel) run
  exact ⟨_, nodes, built, same, path⟩

end Graph

end FragmentFlow
