/-!
# Failures

Why a question about a fragment has no answer.
-/

namespace FragmentFlow

/-- The cause of a failed question. -/
inductive Failure where
  /-- A type name that is not known. -/
  | unresolved (symbol : String)
  /-- An analysis that took more visits than it may. -/
  | nonConvergent (fragment : String) (visits limit : Nat)
  /-- A value was asked of something that has none. -/
  | notAnExpression (kind : String)
  /-- Something that was taken for granted does not hold. -/
  | internal (message : String)
  deriving DecidableEq, Repr

/-- A failure in words. -/
def Failure.message : Failure → String
  | unresolved symbol => "cannot resolve symbol `" ++ symbol ++ "`"
  | nonConvergent fragment visits limit =>
    "dataflow analysis of " ++ fragment ++ " did not converge after " ++ toString visits ++
      " node visits (limit " ++ toString limit ++ ")"
  | notAnExpression kind => "expected an expression, found " ++ kind
  | internal message => "internal dataflow error: " ++ message

end FragmentFlow
