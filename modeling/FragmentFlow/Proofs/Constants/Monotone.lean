import FragmentFlow.Proofs.Constants.Operators
import FragmentFlow.Proofs.Constants.Transfer
import FragmentFlow.Proofs.Solver.Ascent

/-!
# Constant propagation is monotone

Larger operands and stores give larger values and stores.  An operand that is not at
bottom can rise only to top, where nothing is folded.
-/

namespace FragmentFlow

namespace Constant

variable {folding : Bool} {lhs larger rhs greater : Constant}

/-- Only bottom is below bottom. -/
theorem le_bottom {a : Constant} (below : a ≤ bottom) : a = bottom := by
  rcases le_iff.1 below with same | ⟨⟨⟩⟩ | same
  · exact same
  · exact same

theorem binary_mono (op : BinaryOp) (left : lhs ≤ larger) (right : rhs ≤ greater) :
    binary folding op lhs rhs ≤ binary folding op larger greater := by
  cases short : op.isShortCircuit with
  | false =>
      rw [binary_of_strict short, binary_of_strict short]
      by_cases unreached : lhs = bottom ∨ rhs = bottom
      · rw [if_pos unreached]
        exact bottom_le _
      · obtain ⟨leftProper, rightProper⟩ := not_or.1 unreached
        have reached : ¬ (larger = bottom ∨ greater = bottom) := by
          rintro (rfl | rfl)
          · exact leftProper (le_bottom left)
          · exact rightProper (le_bottom right)
        rw [if_neg unreached, if_neg reached]
        split
        · rcases eq_or_eq_top_of_le left leftProper with rfl | rfl
          · rcases eq_or_eq_top_of_le right rightProper with rfl | rfl
            · exact le_refl _
            · rw [fold_top_right]
              exact le_top _
          · rw [fold_top_left]
            exact le_top _
        · exact le_refl _
  | true =>
      rw [binary_of_shortCircuit short, binary_of_shortCircuit short]
      rcases le_iff.1 left with rfl | rfl | rfl
      · exact bottom_le _
      · exact le_top _
      · split
        · exact le_refl _
        · split
          · exact le_refl _
          · exact right
        · exact le_refl _

theorem unary_mono (op : UnaryOp) {operand more : Constant} (below : operand ≤ more) :
    unary folding op operand ≤ unary folding op more := by
  rcases le_iff.1 below with rfl | rfl | rfl
  · cases op <;> exact bottom_le _
  · cases op <;> exact le_top _
  · exact le_refl _

/-- A test that is no truth value leaves both branches open. -/
theorem conditional_le_join (test whenTrue whenFalse : Constant) :
    conditional test whenTrue whenFalse ≤ whenTrue.join whenFalse := by
  unfold conditional
  split
  · exact le_sup_left (a := whenTrue)
  · exact le_sup_right (b := whenFalse)
  · exact bottom_le _
  · exact le_refl _

theorem conditional_mono {test decided whenTrue whenFalse first second : Constant}
    (tests : test ≤ decided) (left : whenTrue ≤ first) (right : whenFalse ≤ second) :
    conditional test whenTrue whenFalse ≤ conditional decided first second := by
  have joins : whenTrue.join whenFalse ≤ first.join second := sup_le_sup left right
  rcases le_iff.1 tests with rfl | rfl | rfl
  · exact bottom_le _
  · exact le_trans (conditional_le_join _ _ _) joins
  · unfold conditional
    split
    · exact left
    · exact right
    · exact le_refl _
    · exact joins

end Constant

namespace Store

variable {store larger : Store}

theorem set_mono (name : String) {value more : Constant} (below : store ≤ larger)
    (less : value ≤ more) : store.set name value ≤ larger.set name more := by
  rw [le_iff_get] at below ⊢
  intro other
  rw [get_set, get_set]
  split
  · exact less
  · exact below other

theorem setAll_mono (names : List String) (value : Constant) (below : store ≤ larger) :
    store.setAll names value ≤ larger.setAll names value := by
  rw [le_iff_get] at below ⊢
  intro other
  rw [get_setAll, get_setAll]
  split
  · exact le_refl _
  · exact below other

end Store

namespace Constants

open Analysis (Rises)

variable {folding : Bool} {graph : Graph} {store larger : Store}

/-- A value that rises gives a larger constant. -/
theorem getD_le_of_rises {value later : Option Constant} (rises : Rises value later) :
    value.getD .bottom ≤ later.getD .bottom := by
  cases value with
  | none => exact Constant.bottom_le _
  | some old =>
      obtain ⟨new, rfl, le⟩ := rises old rfl
      exact le

/-- Values that are related rise. -/
theorem rises_of_rel {value later : Option Constant}
    (related : Option.Rel (· ≤ ·) value later) : Rises value later := by
  intro old isOld
  cases related with
  | none => cases isOld
  | some le =>
      cases isOld
      exact ⟨_, rfl, le⟩

/-- An operand that is missing is at bottom. -/
theorem operand_le {operands more : List Constant} (le : List.Forall₂ (· ≤ ·) operands more)
    (index : Nat) : operands[index]?.getD .bottom ≤ more[index]?.getD .bottom := by
  induction le generalizing index with
  | nil => exact le_refl _
  | cons first rest ih =>
      cases index with
      | zero => exact first
      | succ index => exact ih index

/-- Every action is monotone in the store and the values of its operands, and has a value or
none whatever they are. -/
theorem transferAction_mono (action : Graph.Action) {operands more : List Constant}
    (below : store ≤ larger) (le : List.Forall₂ (· ≤ ·) operands more) :
    Option.Rel (· ≤ ·) (transferAction folding graph action store operands).1
      (transferAction folding graph action larger more).1 ∧
    (transferAction folding graph action store operands).2 ≤
      (transferAction folding graph action larger more).2 := by
  have operand := operand_le le
  cases action with
  | param name => exact ⟨.none, Store.set_mono name below (le_refl _)⟩
  | catchParam name _ => exact ⟨.none, Store.set_mono name below (le_refl _)⟩
  | decl name =>
      refine ⟨.none, ?_⟩
      cases le with
      | nil => exact below
      | cons first rest => exact Store.set_mono name below (operand 0)
  | literal value => exact ⟨.some (le_refl _), below⟩
  | ident name => exact ⟨.some (Store.le_iff_get.1 below name), below⟩
  | assign target => exact ⟨.some (operand 0), Store.set_mono target below (operand 0)⟩
  | binary op => exact ⟨.some (Constant.binary_mono op (operand 0) (operand 1)), below⟩
  | unary op => exact ⟨.some (Constant.unary_mono op (operand 0)), below⟩
  | conditional =>
      exact ⟨.some (Constant.conditional_mono (operand 0) (operand 1) (operand 2)), below⟩
  | call _ => exact ⟨.some (le_refl _), Store.setAll_mono _ _ below⟩
  | new _ => exact ⟨.some (le_refl _), Store.setAll_mono _ _ below⟩
  | lambda => exact ⟨.some (le_refl _), below⟩
  | entry | exit | exceptionalExit | returnValue | throwValue | loopHead | rethrow =>
      exact ⟨.none, below⟩

/-- Only the operands of the node itself have to be below their counterparts. -/
theorem transfer_le (folding : Bool) (graph : Graph) (id : Nat)
    {values others : Nat → Option Constant} (below : store ≤ larger)
    (le : ∀ node, graph.nodes[id]? = some node → ∀ operand ∈ node.operands,
      (values operand).getD .bottom ≤ (others operand).getD .bottom) :
    Option.Rel (· ≤ ·) (transfer folding graph id store values).1
        (transfer folding graph id larger others).1 ∧
      (transfer folding graph id store values).2 ≤ (transfer folding graph id larger others).2 := by
  cases found : graph.nodes[id]? with
  | none =>
      rw [transfer, transfer, found]
      exact ⟨.none, below⟩
  | some node =>
      rw [transfer_eq found, transfer_eq found]
      apply transferAction_mono node.action below
      rw [List.forall₂_map_left_iff, List.forall₂_map_right_iff, List.forall₂_same]
      exact le node found

theorem transfer_mono (folding : Bool) (graph : Graph) (id : Nat)
    {values others : Nat → Option Constant} (below : store ≤ larger)
    (rises : ∀ other, Rises (values other) (others other)) :
    Rises (transfer folding graph id store values).1 (transfer folding graph id larger others).1 ∧
      (transfer folding graph id store values).2 ≤ (transfer folding graph id larger others).2 :=
  (transfer_le folding graph id below fun _ _ operand _ =>
    getD_le_of_rises (rises operand)).imp_left rises_of_rel

theorem onEdge_mono (graph : Graph) (edge : Graph.Edge) : Monotone (onEdge graph edge) := by
  intro store larger below
  unfold onEdge
  dsimp only
  split
  · exact Store.setAll_mono _ _ below
  · exact below

/-- Constant propagation is monotone. -/
theorem monotonic (folding : Bool) (graph : Graph) : (analysis folding).Monotonic graph where
  join _ _ := isLUB_pair
  onEdge := onEdge_mono graph
  value id _ _ _ _ below rises := (transfer_mono folding graph id below rises).1
  output id _ _ _ _ below rises := (transfer_mono folding graph id below rises).2

/-- A larger store and larger operands give a larger value and a larger store, whatever the
node does, and an edge carries more from a larger store.  An operand that has not been reached
is at bottom. -/
theorem transfer_le_transfer (folding : Bool) (graph : Graph) (id : Nat)
    {values others : Nat → Option Constant} (below : store ≤ larger)
    (operands : ∀ node, graph.nodes[id]? = some node → ∀ operand ∈ node.operands,
      (values operand).getD .bottom ≤ (others operand).getD .bottom) :
    Option.Rel (· ≤ ·) ((analysis folding).transfer graph id store values).1
        ((analysis folding).transfer graph id larger others).1 ∧
      ((analysis folding).transfer graph id store values).2 ≤
        ((analysis folding).transfer graph id larger others).2 ∧
      ∀ edge, (analysis folding).onEdge graph edge store ≤
        (analysis folding).onEdge graph edge larger := by
  obtain ⟨value, output⟩ := transfer_le folding graph id below operands
  exact ⟨value, output, fun edge => onEdge_mono graph edge below⟩

/-- A conditional expression with a branch that may not be evaluated:
`level = fast ? 1 : level;`. -/
def chosenLevel : Fragment :=
  .initializerOf "Level"
    [.exprStmt (.assign "level"
      (.conditional (.ident "fast") (.literal (.int 1)) (.ident "level")))]

/-- When the test rises from true to top, the branch counts that had not been reached. -/
theorem chosenLevel_rises : ∃ graph, Graph.ofFragment chosenLevel .builtins = .ok graph ∧
    graph.action? 4 = some .conditional ∧
    Option.Rel (· ≤ ·)
      ((analysis true).transfer graph 4 (.ofList [("fast", .bool true), ("level", .int 2)])
        ([none, some (.bool true), some (.int 1)][·]?.join)).1
      ((analysis true).transfer graph 4 (.ofList [("fast", .top), ("level", .int 2)])
        ([none, some .top, some (.int 1), some (.int 2)][·]?.join)).1 ∧
    ((analysis true).transfer graph 4 (.ofList [("fast", .bool true), ("level", .int 2)])
      ([none, some (.bool true), some (.int 1)][·]?.join)).1 = some (.int 1) ∧
    ((analysis true).transfer graph 4 (.ofList [("fast", .top), ("level", .int 2)])
      ([none, some .top, some (.int 1), some (.int 2)][·]?.join)).1 = some .top := by
  have built : Graph.ofFragment chosenLevel .builtins =
      .ok ((Graph.draw chosenLevel).finish chosenLevel.name) := by
    decide +kernel
  have action : ((Graph.draw chosenLevel).finish chosenLevel.name).action? 4 =
      some .conditional := by
    decide +kernel
  have operands : (((Graph.draw chosenLevel).finish chosenLevel.name).nodes[4]?.map
      Graph.Node.operands) = some [1, 2, 3] := by
    decide +kernel
  have below : Store.ofList [("fast", .bool true), ("level", .int 2)] ≤
      Store.ofList [("fast", .top), ("level", .int 2)] := by
    decide
  refine ⟨_, built, action, (transfer_le_transfer true _ 4 below ?_).1, by decide +kernel,
    by decide +kernel⟩
  intro node found
  rw [found] at operands
  rw [Option.some.inj operands]
  decide

end Constants

end FragmentFlow
