import FragmentFlow.Proofs.Coverage.Fragments
import FragmentFlow.Proofs.Drawing.Exits
import FragmentFlow.Proofs.Graph.Paths
import FragmentFlow.Proofs.Raising.Routes

/-!
# Exceptions follow the nesting of the source

In the finished graph, a node that raises has edges to exactly the catch clauses that the
`try` statements around it in the tree give it, and it leads to the exceptional exit if and
only if none of these statements stops the exception.
-/

namespace FragmentFlow

namespace Graph

/-- The node of a part of the tree, in its place if there is one. -/
def nodeFor? (graph : Graph) (tree : Nat) : Option Nat :=
  (graph.nodesFor tree).head?

/-- Whether a node is the entry of a catch clause. -/
def entersCatch (graph : Graph) (id : Nat) : Bool :=
  (graph.action? id).any Action.isCatch

/-! ### Lookups in a graph -/

/-- Tests that do not look at edges hold for the same nodes of a drawing and of its graph. -/
theorem any_bare? (graph : Graph) (id : Nat) (test : Node → Bool)
    (same : ∀ node, test node.bare = test node) :
    (graph.toBuilder.bare? id).any test = (graph.nodes[id]?).any test := by
  rw [Builder.bare?, toBuilder]
  cases graph.nodes[id]? with
  | none => rfl
  | some node => exact same node

theorem entersCatch_eq (graph : Graph) (id : Nat) :
    graph.entersCatch id = (graph.toBuilder.bare? id).any fun node => node.action.isCatch := by
  rw [entersCatch, action?, Option.any_map]
  exact (graph.any_bare? id (fun node => node.action.isCatch) fun _ => rfl).symm

/-- A node that is found in the drawing enters a catch clause if its action does. -/
theorem entersCatch_of_bare? {graph : Graph} {id : Nat} {node : Node}
    (found : graph.toBuilder.bare? id = some node) :
    graph.entersCatch id = node.action.isCatch := by
  rw [entersCatch_eq, found]
  rfl

/-- A part of the tree with a single node in its place is found there. -/
theorem nodeFor?_eq_some {graph : Graph} (well : graph.WellDrawn) {tree id : Nat} {node : Node}
    (unique : (graph.toBuilder.originals tree).length ≤ 1)
    (found : graph.toBuilder.bare? id = some node) (original : node.isOriginal tree = true) :
    graph.nodeFor? tree = some id := by
  have member : id ∈ graph.toBuilder.originals tree := by
    refine List.mem_filter.2 ⟨List.mem_range.2 (Builder.lt_size_of_bare? found), ?_⟩
    rw [found]
    exact original
  have alone : graph.toBuilder.originals tree = [id] := by
    obtain ⟨first, same⟩ := List.length_eq_one_iff.1
      (Nat.le_antisymm unique (List.length_pos_of_mem member))
    rw [same, List.mem_singleton] at member
    rw [same, member]
  rw [nodeFor?, well.nodesFor_eq, ← Builder.originals_eq, alone]
  rfl

/-! ### The exits -/

namespace Builder

variable {b : Builder} {label : String}

/-- The exits are no originals. -/
theorem originals_finish (tree : Nat) :
    (b.finish label).toBuilder.originals tree = b.originals tree :=
  nodesWhere_finish fun _ => rfl

/-- The exits are no catch clauses. -/
theorem bare?_finish_of_le {id : Nat} {node : Node} (new : b.nodes.size ≤ id)
    (found : (b.finish label).toBuilder.bare? id = some node) : node.action.isCatch = false := by
  rw [bare?_finish] at found
  split at found
  · cases found
    rfl
  · split at found
    · cases found
      rfl
    · exact absurd (lt_size_of_bare? found) (Nat.not_lt.2 new)

/-- The exits enter no catch clause. -/
theorem lt_size_of_entersCatch {id : Nat} (isCatch : (b.finish label).entersCatch id = true) :
    id < b.nodes.size := by
  rw [entersCatch_eq] at isCatch
  obtain ⟨node, found, isEntry⟩ := (Option.any_eq_true _ _).1 isCatch
  refine Nat.lt_of_not_le fun new => ?_
  rw [bare?_finish_of_le new found] at isEntry
  cases isEntry

namespace Raised

variable {tree id : Nat} {inner : Scope} {clauses : List Tree.Catch}

/-- Behind the exits, a node still leads to the catch clauses of its frames only. -/
theorem entersCatch_iff (raised : b.Raised tree id inner) (enters : b.Enters inner.route.1 clauses)
    (target : Nat) : (⟨id, target, .exception⟩ ∈ (b.finish label).edges ∧
      (b.finish label).entersCatch target = true) ↔ target ∈ inner.route.1 := by
  constructor
  · rintro ⟨drawn, isCatch⟩
    have inside := lt_size_of_entersCatch isCatch
    rcases mem_edges_finish.1 drawn with old | ⟨-, isExit⟩ | ⟨-, isExit⟩
    · refine (raised.targets _ old rfl).resolve_right fun plain => ?_
      obtain ⟨node, found, isPlain⟩ := plain
      rw [entersCatch_of_bare? (grows_finish.nodes _ _ found), isPlain] at isCatch
      cases isCatch
    · exact absurd isExit (Nat.ne_of_lt inside)
    · exact absurd isExit (Nat.ne_of_lt (Nat.lt_succ_of_lt inside))
  · intro isEntry
    obtain ⟨clause, -, found⟩ := enters.exists_clause isEntry
    exact ⟨mem_edges_finish.2 (Or.inl (raised.entered target isEntry)),
      entersCatch_of_bare? (grows_finish.nodes _ _ found)⟩

theorem exceptionalExit_iff (raised : b.Raised tree id inner)
    (enters : b.Enters inner.route.1 clauses) :
    ⟨id, (b.finish label).exceptionalExit, .exception⟩ ∈ (b.finish label).edges ↔
      inner.route.2 = some .uncaught := by
  rw [exceptionalExit_finish]
  constructor
  · intro drawn
    rcases mem_edges_finish.1 drawn with old | ⟨-, isExit⟩ | ⟨parked, -⟩
    · -- the exit is not drawn before the end
      have bound : b.nodes.size + 1 < b.nodes.size := by
        rcases raised.targets _ old rfl with isEntry | ⟨node, found, -⟩
        · obtain ⟨clause, -, found⟩ := enters.exists_clause isEntry
          exact lt_size_of_bare? found
        · exact lt_size_of_bare? found
      exact absurd bound (Nat.not_lt.2 (Nat.le_succ _))
    · exact absurd isExit (Nat.succ_ne_self _)
    · exact raised.uncaught _ (mem_parkedUnder.1 parked) rfl
  · intro leaves
    exact mem_edges_finish.2 (Or.inr (Or.inr ⟨mem_parkedUnder.2 (raised.leaves leaves), rfl⟩))

end Raised

end Builder

end Graph

namespace Fragment

/-- The catch clauses that an exception from a position may enter. -/
def clausesMet (fragment : Fragment) (position : Tree.Path) : List Tree.Catch :=
  (Tree.walk position.leaf.id (fragment.tries position)).flatMap fun attempt =>
    attempt.clausesFor position.leaf.id

end Fragment

namespace Graph

/-- In a fragment, each part that raises has its node in its place, which has raised
within frames that mirror the `try` statements around the part. -/
theorem exists_raised {unit : Source.CompilationUnit} {serial : Nat} {fragment : Fragment}
    (member : fragment ∈ (Tree.ofUnit unit serial).fragments) {body : Tree.Node}
    (isBody : fragment.body? = some body) {position : Tree.Path}
    (isPosition : position ∈ (Tree.ofUnit unit serial).paths)
    (isNode : position.leaf ∈ fragment.nodes) (raises : position.leaf.raises = true) :
    ∃ id inner, (draw fragment).Raised position.leaf.id id inner ∧
      (draw fragment).Enters inner.route.1 (fragment.clausesMet position) ∧
        (inner.route.2 = some .uncaught ↔
          ∀ attempt ∈ fragment.tries position, attempt.stops position.leaf.id = false) := by
  have shielded := Fragment.shielded_tries member isBody isPosition isNode
  obtain ⟨id, inner, -, mirrors, raised⟩ :=
    Builder.Routed.code Builder.settled_start isBody _ _ shielded raises
  exact ⟨id, inner, raised, mirrors.route⟩

/-- What is drawn in its place is found in the finished graph. -/
theorem nodeFor?_finish {unit : Source.CompilationUnit} {serial : Nat} {fragment : Fragment}
    (member : fragment ∈ (Tree.ofUnit unit serial).fragments) {tree id : Nat} {node : Node}
    (found : (draw fragment).bare? id = some node) (original : node.isOriginal tree = true)
    (label : String) : ((draw fragment).finish label).nodeFor? tree = some id := by
  refine nodeFor?_eq_some (wellDrawn_finish fragment label) ?_
    (Builder.grows_finish.nodes id node found) original
  rw [Builder.originals_finish]
  exact length_originals_draw member tree

/-- The entry of a catch clause is its original. -/
theorem isOriginal_catchEntry (clause : Tree.Catch) :
    (catchEntry clause).isOriginal clause.id = true := by
  simp [catchEntry, Node.isOriginal, Node.at]

/-- An exception is routed as the nesting of the source says.  The catch clauses that a
raising node leads to are those that its exception meets on its way out, each with its own
node, and the node leads to the exceptional exit if and only if no `try` on that way stops
the exception. -/
theorem raise_follows_nesting {unit : Source.CompilationUnit} {serial : Nat}
    {fragment : Fragment} (member : fragment ∈ (Tree.ofUnit unit serial).fragments)
    {env : Environment} {graph : Graph} (built : ofFragment fragment env = .ok graph)
    {position : Tree.Path} (isPosition : position ∈ (Tree.ofUnit unit serial).paths)
    (isNode : position.leaf ∈ fragment.nodes) (raises : position.leaf.raises = true) :
    ∃ node, graph.nodeFor? position.leaf.id = some node ∧
      (∀ clause ∈ fragment.clausesMet position, (graph.nodeFor? clause.id).isSome = true) ∧
      (∀ target, (⟨node, target, .exception⟩ ∈ graph.successors node ∧
          graph.entersCatch target = true) ↔
        ∃ clause ∈ fragment.clausesMet position, graph.nodeFor? clause.id = some target) ∧
      (⟨node, graph.exceptionalExit, .exception⟩ ∈ graph.successors node ↔
        ∀ attempt ∈ fragment.tries position, attempt.stops position.leaf.id = false) := by
  have well := wellDrawn_of_ofFragment built
  obtain ⟨hasBody, rfl⟩ := eq_finish_of_ofFragment built
  obtain ⟨body, isBody⟩ := Option.isSome_iff_exists.1 hasBody
  obtain ⟨id, inner, raised, enters, uncaught⟩ :=
    exists_raised member isBody isPosition isNode raises
  have entry : ∀ clause place, (draw fragment).bare? place = some (catchEntry clause) →
      ((draw fragment).finish fragment.name).nodeFor? clause.id = some place :=
    fun clause place found => nodeFor?_finish member found (isOriginal_catchEntry clause) _
  obtain ⟨node, found, original⟩ := raised.original
  refine ⟨id, nodeFor?_finish member found original _, fun clause isMet => ?_,
    fun target => ?_, ?_⟩
  · obtain ⟨place, -, atPlace⟩ := enters.exists_entry isMet
    rw [entry clause place atPlace]
    rfl
  · rw [well.mem_successors, and_iff_left rfl, raised.entersCatch_iff enters]
    constructor
    · intro isEntry
      obtain ⟨clause, isMet, atTarget⟩ := enters.exists_clause isEntry
      exact ⟨clause, isMet, entry clause target atTarget⟩
    · rintro ⟨clause, isMet, isNodeFor⟩
      obtain ⟨place, isEntry, atPlace⟩ := enters.exists_entry isMet
      cases isNodeFor.symm.trans (entry clause place atPlace)
      exact isEntry
  · rw [well.mem_successors, and_iff_left rfl, raised.exceptionalExit_iff enters]
    exact uncaught

end Graph

/-- A class with a method of nested `try` statements:
`try { try { risky(); } catch (IllegalStateException e) { throw e; } }
catch (Exception e) { } finally { close(); }`. -/
def nested : Source.CompilationUnit where
  name := "Nested"
  classes := [{ name := "Nested", members := [.method "run" [] [] (some
    [.tryCatch
      [.tryCatch [.exprStmt (.call "risky" [])]
        [.mk "e" "IllegalStateException" [.throwValue (.ident "e")]] none]
      [.mk "e" "Exception" []] (some [.exprStmt (.call "close" [])])])] }]

theorem fragments_nested_ne_nil : (Tree.ofUnit nested 0).fragments ≠ [] := by
  decide +kernel

/-- The method of the class. -/
def nestedRun : Fragment :=
  (Tree.ofUnit nested 0).fragments.head fragments_nested_ne_nil

/-- What `risky` raises may enter both clauses and comes no further; what `close` raises
leaves the method. -/
theorem nestedRun_routes : ∃ graph risky close,
    Graph.ofFragment nestedRun .builtins = .ok graph ∧
    graph.nodeFor? 0 = some risky ∧ graph.nodeFor? 11 = some close ∧
    (∀ target, (⟨risky, target, .exception⟩ ∈ graph.successors risky ∧
        graph.entersCatch target = true) ↔
      ∃ clause ∈ [6, 10], graph.nodeFor? clause = some target) ∧
    ⟨risky, graph.exceptionalExit, .exception⟩ ∉ graph.successors risky ∧
    ⟨close, graph.exceptionalExit, .exception⟩ ∈ graph.successors close := by
  have built : Graph.ofFragment nestedRun .builtins =
      .ok ((Graph.draw nestedRun).finish nestedRun.name) := by
    decide +kernel
  have member : nestedRun ∈ (Tree.ofUnit nested 0).fragments :=
    List.head_mem fragments_nested_ne_nil
  have inBody : ((Tree.ofUnit nested 0).paths[9]?.map fun position => (position.leaf,
      (nestedRun.clausesMet position).map Tree.Catch.id,
      (nestedRun.tries position).map fun attempt => attempt.stops position.leaf.id)) =
      some (.expr (.call 0 "risky" []), [6, 10], [false, true]) := by
    cbv
  have inCleanup : ((Tree.ofUnit nested 0).paths[18]?.map fun position => (position.leaf,
      (nestedRun.tries position).length)) = some (.expr (.call 11 "close" []), 0) := by
    cbv
  have calls : nestedRun.nodes[6]? = some (.expr (.call 0 "risky" [])) ∧
      nestedRun.nodes[15]? = some (.expr (.call 11 "close" [])) := by
    cbv
  obtain ⟨inner, isInner, facts⟩ := Option.map_eq_some_iff.1 inBody
  obtain ⟨outer, isOuter, others⟩ := Option.map_eq_some_iff.1 inCleanup
  simp only [Prod.mk.injEq] at facts others
  obtain ⟨isRisky, clauses, stops⟩ := facts
  obtain ⟨isClose, free⟩ := others
  obtain ⟨risky, atRisky, -, targets, caught⟩ := Graph.raise_follows_nesting member built
    (List.mem_of_getElem? isInner) (isRisky ▸ List.mem_of_getElem? calls.1) (isRisky ▸ rfl)
  obtain ⟨close, atClose, -, -, uncaught⟩ := Graph.raise_follows_nesting member built
    (List.mem_of_getElem? isOuter) (isClose ▸ List.mem_of_getElem? calls.2) (isClose ▸ rfl)
  rw [isRisky] at atRisky
  rw [isClose] at atClose
  refine ⟨_, risky, close, built, atRisky, atClose, fun target => ?_, fun leaves => ?_, ?_⟩
  · rw [targets, ← clauses]
    simp
  · have passed : ∀ stopped ∈ (nestedRun.tries inner).map fun attempt =>
        attempt.stops inner.leaf.id, stopped = false :=
      List.forall_mem_map.2 (caught.1 leaves)
    rw [stops] at passed
    cases passed true (List.mem_cons_of_mem _ List.mem_cons_self)
  · refine uncaught.2 fun attempt isAttempt => ?_
    rw [List.length_eq_zero_iff.1 free] at isAttempt
    cases isAttempt

end FragmentFlow
