import FragmentFlow.Fragment
import FragmentFlow.Json.Value

/-!
# Diagnostics

A diagnostic says what a checker found at a node of a fragment.  In text, words
may be painted in colours of the terminal.
-/

namespace FragmentFlow

/-- How serious a diagnostic is. -/
inductive Severity where
  | info
  | warning
  | error
  deriving DecidableEq, Repr

namespace Severity

/-- The name of a severity. -/
def describe : Severity → String
  | info => "info"
  | warning => "warning"
  | error => "error"

/-- The place of a severity in their order. -/
def level : Severity → Nat
  | info => 0
  | warning => 1
  | error => 2

/-- Whether a severity reaches a threshold. -/
def isAtLeast (severity threshold : Severity) : Bool :=
  threshold.level ≤ severity.level

end Severity

/-- How words stand out in a text. -/
inductive Palette where
  | plain
  | coloured
  deriving DecidableEq, Repr

/-- A word with the attributes of a terminal, given by their numbers. -/
def Palette.paint (palette : Palette) (attributes word : String) : String :=
  match palette with
  | plain => word
  | coloured => "\x1b[" ++ attributes ++ "m" ++ word ++ "\x1b[0m"

/-- The name of a severity in its colour. -/
def Severity.painted (severity : Severity) (palette : Palette) : String :=
  let attributes := match severity with
    | info => "36"
    | warning => "1;33"
    | error => "1;31"
  palette.paint attributes severity.describe

/-- What a checker found at a node. -/
structure Diagnostic where
  /-- The name of the checker. -/
  rule : String
  severity : Severity
  /-- The name of the unit. -/
  unit : String
  /-- The name of the fragment. -/
  fragment : String
  /-- The number of the node. -/
  node : Nat
  /-- The node as source text. -/
  snippet : String
  message : String
  deriving DecidableEq, Repr

namespace Diagnostic

/-- A diagnostic at a node of a fragment. -/
def atNode (rule : String) (severity : Severity) (fragment : Fragment) (node : Tree.Node)
    (message : String) : Diagnostic :=
  { rule, severity, unit := fragment.path.tree.name, fragment := fragment.name, node := node.id
    snippet := node.render, message }

/-- A diagnostic as a line of text. -/
def describe (diagnostic : Diagnostic) (palette : Palette := .plain) : String :=
  diagnostic.unit ++ ": " ++ diagnostic.severity.painted palette ++ "[" ++ diagnostic.rule ++
    "] in " ++ diagnostic.fragment ++ ": " ++ diagnostic.message ++ " (`" ++ diagnostic.snippet ++
    "`)"

/-- A diagnostic in JSON. -/
def toJson (diagnostic : Diagnostic) : Json :=
  .obj [("rule", .str diagnostic.rule), ("severity", .str diagnostic.severity.describe),
    ("unit", .str diagnostic.unit), ("fragment", .str diagnostic.fragment),
    ("node", .int diagnostic.node), ("snippet", .str diagnostic.snippet),
    ("message", .str diagnostic.message)]

end Diagnostic

end FragmentFlow
