import FragmentFlow.Check.Checker
import FragmentFlow.Check.Report

/-!
# Running checkers

All checkers look at a fragment before the next fragment has its turn, so that
its graph is built once.  A fragment whose graph cannot be built, or on which an
analysis does not come to an end, is skipped.
-/

namespace FragmentFlow

/-- A checker that failed for another reason than those that skip a fragment. -/
structure CheckFailure where
  checker : String
  fragment : String
  unit : String
  cause : Failure
  deriving DecidableEq, Repr

/-- A failed check in words. -/
def CheckFailure.message (failure : CheckFailure) : String :=
  "checker `" ++ failure.checker ++ "` failed on " ++ failure.fragment ++ " in " ++ failure.unit ++
    ": " ++ failure.cause.message

/-- Whether a failure only skips the fragment it arose in. -/
def Failure.skipsFragment : Failure → Bool
  | unresolved _ | nonConvergent .. => true
  | notAnExpression _ | internal _ => false

/-- Checkers with the session they share. -/
structure Runner where
  session : StandardSession := {}
  checkers : List Checker := []

namespace Runner

/-- A runner with the standard checkers. -/
def standard (limits : Limits) : Runner :=
  { session := { limits }, checkers := Checker.standard }

/-- A runner without some of its checkers, and the names that none of them has. -/
def disable (runner : Runner) (names : List String) : List String × Runner :=
  (names.filter fun name => !runner.checkers.any fun checker => checker.name == name,
    { runner with checkers := runner.checkers.filter fun checker => !names.contains checker.name })

/-- Runs checkers on a fragment, up to one that fails, and notes in the report what
they find. -/
def checkFragment (fragment : Fragment) (env : Environment) :
    List Checker → Report → StandardSession → Except CheckFailure Report × StandardSession
  | [], report, session => (.ok report, session)
  | checker :: checkers, report, session =>
    match checker.diagnose session fragment env with
    | (.ok diagnostics, session) =>
      checkFragment fragment env checkers
        { report with diagnostics := report.diagnostics ++ diagnostics } session
    | (.error cause, session) =>
      if cause.skipsFragment then
        (.ok { report with
          skipped := report.skipped ++ [{ fragment := fragment.name, reason := cause.message }] },
          session)
      else
        (.error { checker := checker.name, fragment := fragment.name, unit := report.unit, cause },
          session)

/-- Runs checkers on fragments in their order. -/
def checkFragments (checkers : List Checker) (env : Environment) :
    List Fragment → Report → StandardSession → Except CheckFailure Report × StandardSession
  | [], report, session => (.ok report, session)
  | fragment :: fragments, report, session =>
    let report := { report with fragmentsChecked := report.fragmentsChecked + 1 }
    match checkFragment fragment env checkers report session with
    | (.ok report, session) => checkFragments checkers env fragments report session
    | (.error failure, session) => (.error failure, session)

/-- Checks the fragments of a tree that have a body. -/
def checkTree (runner : Runner) (tree : Tree) (env : Environment) :
    Except CheckFailure Report × Runner :=
  let (report, session) := checkFragments runner.checkers env
    (tree.fragments.filter Fragment.hasBody) { unit := tree.name } runner.session
  (report, { runner with session })

end Runner

end FragmentFlow
