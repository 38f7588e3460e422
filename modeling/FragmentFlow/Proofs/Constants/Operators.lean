import FragmentFlow.Proofs.Constants.Lattice
import FragmentFlow.Proofs.Constants.Runs
import FragmentFlow.Proofs.Drawing.Steps

/-!
# Operators on constants are sound

A constant describes the values whose own constant is below it.  Whatever is folded has
the value that evaluation gives: a result in range is the result on words, and what
overflows or has no value is not folded.
-/

namespace FragmentFlow

/-- The most that can be known of a value. -/
def Datum.constant : Datum → Constant
  | .int value => .int value
  | .bool value => .bool value
  | .str value => .str value
  | .null => .null
  | .object _ => .top

namespace Datum

theorem constant_ne_bottom (value : Datum) : value.constant ≠ .bottom := by
  cases value <;> nofun

/-- A literal is described by its own constant. -/
theorem constant_ofLiteral (literal : Literal) :
    (ofLiteral literal).constant = .ofLiteral literal := by
  cases literal <;> rfl

/-- What describes a value is not bottom. -/
theorem ne_bottom_of_constant_le {value : Datum} {described : Constant}
    (below : value.constant ≤ described) : described ≠ .bottom := by
  rintro rfl
  rcases Constant.le_iff.1 below with isBottom | ⟨⟨⟩⟩ | same
  · exact value.constant_ne_bottom isBottom
  · exact value.constant_ne_bottom same

/-- A known constant that describes a value is its own. -/
theorem constant_eq_of_isKnown {value : Datum} {described : Constant}
    (below : value.constant ≤ described) (known : described.isKnown = true) :
    value.constant = described := by
  rcases Constant.eq_or_eq_top_of_le below value.constant_ne_bottom with same | isTop
  · exact same.symm
  · rw [isTop] at known
    cases known

/-- What is described as a truth value is this one. -/
theorem eq_bool_of_constant_le {value : Datum} {truth : Bool}
    (below : value.constant ≤ .bool truth) : value = .bool truth := by
  have same := constant_eq_of_isKnown below rfl
  cases value <;> cases same
  rfl

/-- What agrees with a known value is this value. -/
theorem agrees_some {value known : Datum} (agrees : Agrees (some known) value) : value = known :=
  agrees known rfl

end Datum

namespace Constant

open Datum (Agrees)

/-- A result that fits is the one on words. -/
theorem inRange?_of_word? {value : Int} {result : Int64} {folded : Constant}
    (word : result = Int64.ofInt value) (fits : word? value = some folded) :
    ∃ known, Datum.inRange? result value = some known ∧ known.constant = folded := by
  unfold word? at fits
  split at fits
  · rename_i range
    cases fits
    refine ⟨.int result, ?_, by rw [word]; rfl⟩
    rw [Datum.inRange?, if_pos]
    rw [word]
    apply Int64.toInt_ofInt_of_le
    · exact Int64.toInt_minValue ▸ range.1
    · have upper := Int64.toInt_maxValue ▸ range.2
      omega
  · cases fits

theorem foldInts_sound {op : BinaryOp} {a b : Int64} {folded : Constant}
    (fits : foldInts op a b = some folded) :
    ∃ known, Datum.binary? op (.int a) (.int b) = some known ∧ known.constant = folded := by
  have words := Int64.ofInt_toInt
  cases op with
  | add => exact inRange?_of_word? (by rw [Int64.ofInt_add, words, words]) fits
  | sub => exact inRange?_of_word? (by rw [Int64.ofInt_sub, words, words]) fits
  | mul => exact inRange?_of_word? (by rw [Int64.ofInt_mul, words, words]) fits
  | div =>
      simp only [foldInts] at fits
      split at fits
      · cases fits
      · rename_i nonzero
        have quotient : a / b = Int64.ofInt (a.toInt.tdiv b.toInt) := by
          rw [Int64.ofInt_tdiv a.minValue_le_toInt a.toInt_le b.minValue_le_toInt b.toInt_le, words,
            words]
        simp only [Datum.binary?, if_neg nonzero]
        exact inRange?_of_word? quotient fits
  | rem =>
      simp only [foldInts] at fits
      split at fits
      · cases fits
      · rename_i nonzero
        obtain ⟨quotient, -, fits⟩ := Option.bind_eq_some_iff.1 fits
        refine ⟨.int (a % b), if_neg nonzero, ?_⟩
        unfold word? at fits
        split at fits
        · cases fits
          rw [Int64.ofInt_tmod a.minValue_le_toInt a.toInt_le b.minValue_le_toInt b.toInt_le, words,
            words]
          rfl
        · cases fits
  | eq =>
      cases fits
      exact ⟨.bool (a = b), rfl, rfl⟩
  | ne =>
      cases fits
      refine ⟨.bool !decide (a = b), rfl, ?_⟩
      simp [Datum.constant, bne, Bool.beq_eq_decide_eq]
  | lt =>
      cases fits
      exact ⟨_, rfl, by simp [Datum.constant, Int64.lt_iff_toInt_lt]⟩
  | le =>
      cases fits
      exact ⟨_, rfl, by simp [Datum.constant, Int64.le_iff_toInt_le]⟩
  | gt =>
      cases fits
      exact ⟨_, rfl, by simp [Datum.constant, Int64.lt_iff_toInt_lt]⟩
  | ge =>
      cases fits
      exact ⟨_, rfl, by simp [Datum.constant, Int64.le_iff_toInt_le]⟩
  | and => cases fits
  | or => cases fits

theorem foldEquality_sound {op : BinaryOp} {lhs rhs : Datum} {equal : Bool} {folded : Constant}
    (same : Datum.same? lhs rhs = some equal) (fits : foldEquality op equal = some folded) :
    ∃ known, Datum.binary? op lhs rhs = some known ∧ known.constant = folded := by
  cases op with
  | eq =>
      cases fits
      exact ⟨.bool equal, by simp [Datum.binary?, same], rfl⟩
  | ne =>
      cases fits
      exact ⟨.bool !equal, by simp [Datum.binary?, same], rfl⟩
  | _ => cases fits

/-- What is folded is what the operator evaluates to. -/
theorem fold_sound {op : BinaryOp} {lhs rhs : Datum} {folded : Constant}
    (fits : fold op lhs.constant rhs.constant = some folded) :
    ∃ known, Datum.binary? op lhs rhs = some known ∧ known.constant = folded := by
  cases lhs with
  | int a =>
      cases rhs with
      | int b => exact foldInts_sound fits
      | _ => cases fits
  | bool a =>
      cases rhs with
      | bool b => exact foldEquality_sound rfl fits
      | _ => cases fits
  | str a =>
      cases rhs with
      | str b =>
          simp only [Datum.constant, fold] at fits
          split at fits
          · rename_i isAdd
            subst isAdd
            cases fits
            exact ⟨.str (a ++ b), rfl, rfl⟩
          · cases fits
      | null => exact foldEquality_sound rfl fits
      | _ => cases fits
  | null =>
      cases rhs with
      | null => exact foldEquality_sound rfl fits
      | str b => exact foldEquality_sound rfl fits
      | _ => cases fits
  | object a => cases rhs <;> cases fits

/-! ### Expressions -/

/-- A strict operator is folded if both operands are known. -/
theorem binary_of_strict {op : BinaryOp} (isStrict : op.isShortCircuit = false) (folding : Bool)
    (lhs rhs : Constant) : binary folding op lhs rhs =
      if lhs = .bottom ∨ rhs = .bottom then .bottom
      else if folding then (fold op lhs rhs).getD .top else .top := by
  cases op <;> first | rfl | cases isStrict

/-- A short-circuit operator looks at its second operand if the first leaves it open. -/
theorem binary_of_shortCircuit {op : BinaryOp} (isShort : op.isShortCircuit = true)
    (folding : Bool) (lhs rhs : Constant) : binary folding op lhs rhs =
      match lhs with
      | .bottom => .bottom
      | .bool truth => if truth = decide (op = .or) then .bool truth else rhs
      | _ => .top := by
  cases op with
  | and => cases lhs <;> first | rfl | (rename_i truth; cases truth <;> rfl)
  | or => cases lhs <;> first | rfl | (rename_i truth; cases truth <;> rfl)
  | _ => cases isShort

theorem fold_top_left (op : BinaryOp) (rhs : Constant) : fold op .top rhs = none := by
  cases rhs <;> rfl

theorem fold_top_right (op : BinaryOp) (lhs : Constant) : fold op lhs .top = none := by
  cases lhs <;> rfl

variable {folding : Bool} {op : BinaryOp} {left right value : Datum} {lhs rhs : Constant}

/-- A strict operator describes what a run computes. -/
theorem binary_strict_sound (isStrict : op.isShortCircuit = false)
    (leftBelow : left.constant ≤ lhs) (rightBelow : right.constant ≤ rhs)
    (agrees : Agrees (Datum.binary? op left right) value) :
    value.constant ≤ binary folding op lhs rhs := by
  have leftProper := Datum.ne_bottom_of_constant_le leftBelow
  have rightProper := Datum.ne_bottom_of_constant_le rightBelow
  rw [binary_of_strict isStrict, if_neg (by simp [leftProper, rightProper])]
  split
  · rcases eq_or_eq_top_of_le leftBelow left.constant_ne_bottom with rfl | rfl
    · rcases eq_or_eq_top_of_le rightBelow right.constant_ne_bottom with rfl | rfl
      · cases fits : fold op left.constant right.constant with
        | none => exact le_top _
        | some folded =>
            obtain ⟨known, result, rfl⟩ := fold_sound fits
            rw [result] at agrees
            rw [Datum.agrees_some agrees]
            exact le_refl _
      · rw [fold_top_right]
        exact le_top _
    · rw [fold_top_left]
      exact le_top _
  · exact le_top _

/-- Control came past the right operand or from its value. -/
theorem binary_shortCircuit_sound {evaluated : Option Datum}
    (isShort : op.isShortCircuit = true) (leftBelow : left.constant ≤ lhs)
    (came : left.Permits (.skipping op) ∨
      ∃ right, evaluated = some right ∧ right.constant ≤ rhs ∧ left.Permits (.evaluating op))
    (agrees : Agrees (Datum.shortCircuit? op (some left) evaluated) value) :
    value.constant ≤ binary folding op lhs rhs := by
  rw [binary_of_shortCircuit isShort]
  split
  · exact absurd rfl (Datum.ne_bottom_of_constant_le leftBelow)
  · rename_i truth
    cases Datum.eq_bool_of_constant_le leftBelow
    rw [Datum.shortCircuit?] at agrees
    split
    · rename_i decides
      rw [if_pos decides] at agrees
      rw [Datum.agrees_some agrees]
      exact le_refl _
    · rename_i undecided
      rw [if_neg undecided] at agrees
      rcases came with skipped | ⟨right, rfl, rightBelow, -⟩
      · exfalso
        cases op with
        | and => cases truth <;> simp [Graph.EdgeKind.skipping, Datum.Permits] at skipped undecided
        | or => cases truth <;> simp [Graph.EdgeKind.skipping, Datum.Permits] at skipped undecided
        | _ => cases isShort
      · rw [Datum.agrees_some agrees]
        exact rightBelow
  · exact le_top _

/-- A unary operator describes what a run computes. -/
theorem unary_sound {op : UnaryOp} {operand : Datum} {described : Constant}
    (below : operand.constant ≤ described) (agrees : Agrees (Datum.unary? op operand) value) :
    value.constant ≤ unary folding op described := by
  rcases eq_or_eq_top_of_le below operand.constant_ne_bottom with rfl | rfl
  · cases operand with
    | bool truth =>
        cases op with
        | not =>
            rw [Datum.agrees_some agrees]
            exact le_refl _
        | neg => exact le_top _
    | int word =>
        cases op with
        | not => exact le_top _
        | neg =>
            change value.constant ≤ if folding then (word? (-word.toInt)).getD .top else .top
            split
            · cases fits : word? (-word.toInt) with
              | none => exact le_top _
              | some folded =>
                  have negated : -word = Int64.ofInt (-word.toInt) := by
                    rw [Int64.ofInt_neg, Int64.ofInt_toInt]
                  obtain ⟨known, result, rfl⟩ := inRange?_of_word? negated fits
                  rw [Datum.unary?, result] at agrees
                  rw [Datum.agrees_some agrees]
                  exact le_refl _
            · exact le_top _
    | str text => cases op <;> exact le_top _
    | null => cases op <;> exact le_top _
    | object identity => cases op <;> exact le_top _
  · cases op <;> exact le_top _

/-- Control came from one of the branches. -/
theorem conditional_sound {test : Datum} {first second : Option Datum}
    {decided whenTrue whenFalse : Constant} (testBelow : test.constant ≤ decided)
    (firstBelow : ∀ known, first = some known → known.constant ≤ whenTrue)
    (secondBelow : ∀ known, second = some known → known.constant ≤ whenFalse)
    (came : (first.isSome ∧ test.Permits .onTrue) ∨ (second.isSome ∧ test.Permits .onFalse))
    (onTrue : test = .bool true → Agrees first value)
    (onFalse : test = .bool false → Agrees second value)
    (undecided : (∀ truth, test ≠ .bool truth) → first = some value ∨ second = some value) :
    value.constant ≤ conditional decided whenTrue whenFalse := by
  have fromFirst : first.isSome → Agrees first value → value.constant ≤ whenTrue := by
    intro present agrees
    obtain ⟨known, rfl⟩ := Option.isSome_iff_exists.1 present
    rw [Datum.agrees_some agrees]
    exact firstBelow known rfl
  have fromSecond : second.isSome → Agrees second value → value.constant ≤ whenFalse := by
    intro present agrees
    obtain ⟨known, rfl⟩ := Option.isSome_iff_exists.1 present
    rw [Datum.agrees_some agrees]
    exact secondBelow known rfl
  have taken : test = .bool true ∧ value.constant ≤ whenTrue ∨
      test = .bool false ∧ value.constant ≤ whenFalse ∨
        (∀ truth, test ≠ .bool truth) ∧ value.constant ≤ whenTrue.join whenFalse := by
    by_cases isTrue : test = .bool true
    · rcases came with ⟨present, -⟩ | ⟨-, permits⟩
      · exact Or.inl ⟨isTrue, fromFirst present (onTrue isTrue)⟩
      · exact absurd isTrue permits
    · by_cases isFalse : test = .bool false
      · rcases came with ⟨-, permits⟩ | ⟨present, -⟩
        · exact absurd isFalse permits
        · exact Or.inr (Or.inl ⟨isFalse, fromSecond present (onFalse isFalse)⟩)
      · have notTruth : ∀ truth, test ≠ .bool truth := by
          intro truth
          cases truth
          · exact isFalse
          · exact isTrue
        refine Or.inr (Or.inr ⟨notTruth, ?_⟩)
        rcases undecided notTruth with isFirst | isSecond
        · exact le_trans (firstBelow value isFirst) le_sup_left
        · exact le_trans (secondBelow value isSecond) le_sup_right
  cases decided with
  | bottom => exact absurd rfl (Datum.ne_bottom_of_constant_le testBelow)
  | bool truth =>
      cases Datum.eq_bool_of_constant_le testBelow
      rcases taken with ⟨same, below⟩ | ⟨same, below⟩ | ⟨notTruth, -⟩
      · cases same
        exact below
      · cases same
        exact below
      · exact absurd rfl (notTruth truth)
  | _ =>
      change value.constant ≤ whenTrue.join whenFalse
      rcases taken with ⟨-, below⟩ | ⟨-, below⟩ | ⟨-, below⟩
      · exact le_trans below le_sup_left
      · exact le_trans below le_sup_right
      · exact below

end Constant

end FragmentFlow
