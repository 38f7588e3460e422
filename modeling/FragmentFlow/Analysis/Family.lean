import FragmentFlow.Analysis.Assigned
import FragmentFlow.Analysis.Constants
import FragmentFlow.Analysis.LoopCount

/-!
# Families of analyses

Analyses that are told apart by a key.  Equal keys stand for the same analysis,
so a result may be kept and given out again under its key.  A format says which types
the values and stores of an analysis have; results of one format look alike.
-/

namespace FragmentFlow

/-- Analyses told apart by a key. -/
structure Family where
  Key : Type
  /-- Names for the types of values and stores. -/
  Format : Type
  /-- The format of the results of an analysis. -/
  format : Key → Format
  ValueIn : Format → Type
  StoreIn : Format → Type
  analysis : (key : Key) → Analysis (ValueIn (format key)) (StoreIn (format key))
  keyEq : DecidableEq Key
  formatEq : DecidableEq Format
  valueEq : (format : Format) → BEq (ValueIn format)
  storeEq : (format : Format) → BEq (StoreIn format)

namespace Family

attribute [instance] keyEq formatEq valueEq storeEq

/-- The values of an analysis. -/
abbrev Value (family : Family) (key : family.Key) : Type :=
  family.ValueIn (family.format key)

/-- The stores of an analysis. -/
abbrev Store (family : Family) (key : family.Key) : Type :=
  family.StoreIn (family.format key)

/-- What an analysis with results of a format found out about a graph. -/
abbrev SolutionIn (family : Family) (format : family.Format) : Type :=
  FragmentFlow.Solution (family.ValueIn format) (family.StoreIn format)

/-- What an analysis of a family found out about a graph. -/
abbrev Solution (family : Family) (key : family.Key) : Type :=
  family.SolutionIn (family.format key)

end Family

/-- The analyses of this library. -/
inductive AnalysisKey where
  | constants (folding : Bool)
  | assigned
  | loopCount
  deriving DecidableEq, Repr

/-- The formats of their results. -/
inductive AnalysisFormat where
  | constants
  | names
  | counts
  deriving DecidableEq, Repr

namespace AnalysisFormat

/-- The values of a format. -/
abbrev Value : AnalysisFormat → Type
  | constants => Constant
  | names => Nat
  | counts => Unit

/-- The stores of a format. -/
abbrev Store : AnalysisFormat → Type
  | constants => FragmentFlow.Store
  | names => NameSet
  | counts => Nat

/-- Values can be compared. -/
abbrev valueEq : (format : AnalysisFormat) → BEq format.Value
  | constants => inferInstanceAs (BEq Constant)
  | names => inferInstanceAs (BEq Nat)
  | counts => inferInstanceAs (BEq Unit)

/-- Stores can be compared. -/
abbrev storeEq : (format : AnalysisFormat) → BEq format.Store
  | constants => inferInstanceAs (BEq FragmentFlow.Store)
  | names => inferInstanceAs (BEq NameSet)
  | counts => inferInstanceAs (BEq Nat)

end AnalysisFormat

namespace AnalysisKey

/-- The format of an analysis. -/
abbrev format : AnalysisKey → AnalysisFormat
  | constants _ => .constants
  | assigned => .names
  | loopCount => .counts

/-- The analysis of a key. -/
def analysis : (key : AnalysisKey) → Analysis key.format.Value key.format.Store
  | constants folding => Constants.analysis folding
  | assigned => Assigned.may
  | loopCount => FragmentFlow.loopCount

end AnalysisKey

/-- All analyses of this library. -/
def Family.standard : Family where
  Key := AnalysisKey
  Format := AnalysisFormat
  format := AnalysisKey.format
  ValueIn := AnalysisFormat.Value
  StoreIn := AnalysisFormat.Store
  analysis := AnalysisKey.analysis
  keyEq := inferInstance
  formatEq := inferInstance
  valueEq := AnalysisFormat.valueEq
  storeEq := AnalysisFormat.storeEq

end FragmentFlow
