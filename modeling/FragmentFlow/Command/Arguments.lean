/-!
# Arguments of the command line

Arguments are read from left to right.  The first one that is wrong makes the
whole line wrong, and the first one that asks for help or for the version is
answered at once.
-/

namespace FragmentFlow.Command

/-- The form of a report. -/
inductive Format where
  | human
  | json
  deriving DecidableEq, Repr

/-- What help is asked about. -/
inductive Topic where
  | program
  | check
  | graphs
  | help
  deriving DecidableEq, Repr

/-- What is known about an option. -/
structure OptionRule where
  name : String
  /-- The letter that is short for it. -/
  letter : Option Char := none
  /-- Which values it takes; none if it takes no value. -/
  accepts : Option (String → Bool) := none
  /-- Whether it may be given more than once. -/
  repeats : Bool := false

/-- What may follow the name of a command. -/
structure Rules where
  topic : Topic
  options : List OptionRule
  /-- How many arguments without a name there may be. -/
  most : Option Nat

/-- The options and the other arguments read so far, first one first. -/
structure Given where
  options : List (String × String) := []
  files : List String := []

/-- The outcome of reading arguments. -/
inductive Reading where
  | wrong
  | help (topic : Topic)
  | done (given : Given)

namespace Given

/-- The values of an option. -/
def values (given : Given) (name : String) : List String :=
  given.options.filterMap fun option => if option.1 == name then some option.2 else none

/-- The value of an option that is given at most once. -/
def value? (given : Given) (name : String) : Option String :=
  (given.values name).head?

/-- Whether an option is given. -/
def has (given : Given) (name : String) : Bool :=
  given.options.any fun option => option.1 == name

/-- Adds an option, unless it is there and may not be repeated or does not take the
value. -/
def addOption? (given : Given) (rule : OptionRule) (value : String) : Option Given :=
  let accepted := match rule.accepts with
    | none => true
    | some accepts => accepts value
  if accepted && (rule.repeats || !given.has rule.name) then
    some { given with options := given.options ++ [(rule.name, value)] }
  else none

/-- Adds another argument, if there is room for it and it is not empty. -/
def addFile? (given : Given) (rules : Rules) (file : String) : Option Given :=
  if file.isEmpty || rules.most.any (· ≤ given.files.length) then none
  else some { given with files := given.files ++ [file] }

end Given

/-- Whether an argument is an option and not a value: it starts with a dash and goes
on. -/
def isOption (argument : String) : Bool :=
  argument.toList.head? == some '-' && argument != "-"

/-- The name of a long option, and the value that is attached to it. -/
def splitLong (argument : String) : String × Option String :=
  let body := argument.toList.drop 2
  let name := String.ofList (body.takeWhile (· != '='))
  match body.dropWhile (· != '=') with
  | [] => (name, none)
  | _ :: value => (name, some (String.ofList value))

/-- Reads letters behind one dash; all of them are options without a value. -/
def readLetters (rules : Rules) (given : Given) : List Char → Reading
  | [] => .done given
  | 'h' :: _ => .help rules.topic
  | letter :: letters =>
    match rules.options.find? fun rule => rule.letter == some letter with
    | none => .wrong
    | some rule =>
      match given.addOption? rule "" with
      | none => .wrong
      | some given => readLetters rules given letters

/-- Adds arguments that cannot be options. -/
def readFiles (rules : Rules) (given : Given) (arguments : List String) : Reading :=
  match arguments.foldlM (fun given file => given.addFile? rules file) given with
  | none => .wrong
  | some given => .done given

/-- The outcome of reading one long option. -/
inductive LongOption where
  | wrong
  | help
  /-- The option is read, with the argument behind it if that is its value. -/
  | read (given : Given) (takesNext : Bool)

/-- Reads a long option, given the argument behind it. -/
def readLong (rules : Rules) (given : Given) (argument : String) (next : Option String) :
    LongOption :=
  let (name, attached) := splitLong argument
  if name == "help" then (if attached.isSome then .wrong else .help)
  else
    match rules.options.find? fun rule => rule.name == name with
    | none => .wrong
    | some rule =>
      let (value, takesNext) := match rule.accepts, attached with
        | none, none => (some "", false)
        | none, some _ => (none, false)
        | some _, some value => (some value, false)
        | some _, none => (next.filter (!isOption ·), true)
      match value.bind (given.addOption? rule) with
      | none => .wrong
      | some given => .read given takesNext

/-- Reads the arguments of a command. -/
def readArguments (rules : Rules) (given : Given) (arguments : List String) : Reading :=
  match arguments with
  | [] => .done given
  | argument :: rest =>
    if argument == "--" then readFiles rules given rest
    else if !isOption argument then
      match given.addFile? rules argument with
      | none => .wrong
      | some given => readArguments rules given rest
    else if argument.toList.take 2 == ['-', '-'] then
      match readLong rules given argument rest.head? with
      | .wrong => .wrong
      | .help => .help rules.topic
      | .read given takesNext =>
        readArguments rules given (if takesNext then rest.drop 1 else rest)
    else
      match readLetters rules given (argument.toList.drop 1) with
      | .done given => readArguments rules given rest
      | outcome => outcome
termination_by arguments.length
decreasing_by
  · simp
  · split
    · simp only [List.length_drop, List.length_cons]
      omega
    · simp
  · simp

/-! ### The commands -/

/-- More detail in the log, which may be asked for several times. -/
def verbose : OptionRule :=
  { name := "verbose", letter := some 'v', repeats := true }

/-- The settings file. -/
def settingsOption : OptionRule :=
  { name := "config", accepts := some fun value => !value.isEmpty }

/-- A type name that is known. -/
def knownType : OptionRule :=
  { name := "known-type", accepts := some fun _ => true, repeats := true }

/-- The form of the report. -/
def formatOption : OptionRule :=
  { name := "format", accepts := some fun value => value == "human" || value == "json" }

/-- What may follow `check`. -/
def checkRules : Rules where
  topic := .check
  options :=
    [settingsOption, formatOption, knownType,
      { name := "disable", accepts := some fun _ => true, repeats := true },
      { name := "no-color" }, verbose]
  most := none

/-- What may follow `cfg`. -/
def graphRules : Rules where
  topic := .graphs
  options :=
    [{ name := "fragment", accepts := some fun _ => true }, settingsOption, knownType, verbose]
  most := some 1

/-- What a command line asks for. -/
inductive Request where
  | check (files : List String) (settings : Option String) (format : Format)
      (knownTypes disabled : List String) (plain : Bool)
  | graphs (file : String) (fragment : Option String) (settings : Option String)
      (knownTypes : List String)
  | version
  | help (topic : Topic)

/-- The check that arguments ask for. -/
def checkRequest? (arguments : List String) : Option Request :=
  match readArguments checkRules {} arguments with
  | .wrong => none
  | .help topic => some (.help topic)
  | .done given =>
    let format := if given.value? "format" == some "json" then .json else .human
    if given.files.isEmpty then none
    else
      some (.check given.files (given.value? "config") format (given.values "known-type")
        (given.values "disable") (given.has "no-color"))

/-- The graphs that arguments ask for. -/
def graphRequest? (arguments : List String) : Option Request :=
  match readArguments graphRules {} arguments with
  | .wrong => none
  | .help topic => some (.help topic)
  | .done given =>
    given.files.head?.map fun file =>
      .graphs file (given.value? "fragment") (given.value? "config") (given.values "known-type")

/-- The help that is asked for by name. -/
def helpRequest? : List String → Option Request
  | [] => some (.help .program)
  | ["check"] => some (.help .check)
  | ["cfg"] => some (.help .graphs)
  | ["help"] => some (.help .help)
  | _ => none

/-- Reads letters behind one dash before the name of a command: whether they ask for
something at once, or may be passed over. -/
def leadingLetters : List Char → Option (Option Request)
  | [] => some none
  | 'v' :: letters => leadingLetters letters
  | 'V' :: _ => some (some .version)
  | 'h' :: _ => some (some (.help .program))
  | _ => none

/-- What a command line asks for; nothing if it is wrong. -/
def request? : List String → Option Request
  | [] => none
  | "check" :: arguments => checkRequest? arguments
  | "cfg" :: arguments => graphRequest? arguments
  | "help" :: arguments => helpRequest? arguments
  | "--version" :: _ => some .version
  | "--help" :: _ => some (.help .program)
  | "--verbose" :: arguments => request? arguments
  | argument :: arguments =>
    if isOption argument && argument.toList.take 2 != ['-', '-'] then
      match leadingLetters (argument.toList.drop 1) with
      | none => none
      | some (some request) => some request
      | some none => request? arguments
    else none

end FragmentFlow.Command
