import FragmentFlow.Command.Arguments

/-!
# Help

The pages that explain the command line.  A page has sections, and a section has
rows of two columns, of which the first is as wide as its longest entry.
-/

namespace FragmentFlow.Command

/-- The name of the program and its version. -/
def versionLine : String := "flowcheck 0.4.0"

/-- A part of a page under a title. -/
structure Section where
  title : String
  /-- What is explained, and the explanation. -/
  rows : List (String × String)

/-- What help has to say about a topic. -/
structure Page where
  about : String
  usage : String
  sections : List Section

namespace Section

/-- The lines of a section. -/
def lines (part : Section) : List String :=
  let width := part.rows.foldl (fun width row => max width row.1.length) 0
  (part.title ++ ":") :: part.rows.map fun (entry, explanation) =>
    "  " ++ entry ++ "".pushn ' ' (width - entry.length) ++ "  " ++ explanation

end Section

namespace Page

/-- The text of a page; empty lines stand between its parts. -/
def text (page : Page) : String :=
  let parts := page.sections.map fun part => "\n".intercalate part.lines
  "\n\n".intercalate (page.about :: ("Usage: " ++ page.usage) :: parts)

end Page

/-- The row of the option that every command has for more detail in the log. -/
def verboseRow : String × String :=
  ("-v, --verbose...",
    "Increase log verbosity (-v debug, -vv trace); RUST_LOG takes precedence")

/-- The row of the option that asks for help. -/
def helpRow : String × String := ("-h, --help", "Print help")

/-- The page on a topic. -/
def Topic.page : Topic → Page
  | program =>
    { about := "Dataflow-based static checks over JSON-encoded compilation units"
      usage := "flowcheck [OPTIONS] <COMMAND>"
      sections :=
        [{ title := "Commands"
           rows :=
             [("check", "Run the checkers over one or more compilation units"),
              ("cfg", "Print the control-flow graph of each fragment"),
              ("help", "Print this message or the help of the given subcommand(s)")] },
         { title := "Options"
           rows := [verboseRow, helpRow, ("-V, --version", "Print version")] }] }
  | check =>
    { about := "Run the checkers over one or more compilation units"
      usage := "flowcheck check [OPTIONS] <FILES>..."
      sections :=
        [{ title := "Arguments", rows := [("<FILES>...", "Compilation units to check")] },
         { title := "Options"
           rows :=
             [("    --config <CONFIG>", "Path to a flowcheck.toml"),
              ("    --format <FORMAT>", "[default: human] [possible values: human, json]"),
              ("    --known-type <KNOWN_TYPES>", "Type name to treat as resolvable (repeatable)"),
              verboseRow,
              ("    --disable <DISABLE>", "Checker to skip (repeatable)"),
              ("    --no-color", "Disable colored output"),
              helpRow] }] }
  | graphs =>
    { about := "Print the control-flow graph of each fragment"
      usage := "flowcheck cfg [OPTIONS] <FILE>"
      sections :=
        [{ title := "Arguments", rows := [("<FILE>", "")] },
         { title := "Options"
           rows :=
             [("    --fragment <FRAGMENT>",
                "Only print the fragment with this name, e.g. `Calc.broken`"),
              ("    --config <CONFIG>", ""),
              ("    --known-type <KNOWN_TYPES>", ""),
              verboseRow,
              helpRow] }] }
  | help =>
    { about := "Print this message or the help of the given subcommand(s)"
      usage := "flowcheck help [COMMAND]..."
      sections :=
        [{ title := "Arguments"
           rows := [("[COMMAND]...", "Print help for the subcommand(s)")] }] }

end FragmentFlow.Command
