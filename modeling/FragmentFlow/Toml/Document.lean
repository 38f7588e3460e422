import FragmentFlow.Toml.Scalar

/-!
# TOML documents

A document is read line by line into keys with values and headers of tables,
which are then put together.  Whatever a document must not do, such as naming a
key twice, makes it unreadable as a whole.
-/

namespace FragmentFlow.Toml

open Text (Reader)
open Text.Reader (atEnd char guard many ofOption optional separated word)

/-- How deep values may be nested, and how many parts a key may have. -/
def maxDepth : Nat := 79

/-- Characters of a key without quotes. -/
def isKeyCharacter (c : Char) : Bool :=
  c.isAlphanum || c == '_' || c == '-'

/-- Takes a part of a key. -/
def simpleKey : Reader String :=
  basicString <|> literalString <|> do
    let name ← Reader.takeWhile isKeyCharacter
    guard (!name.isEmpty)
    return String.ofList name

/-- Takes a key: parts with dots between them, the last one apart. -/
def key : Reader (List String × String) := do
  let parts ← separated (do blanks; let part ← simpleKey; blanks; return part) (char '.')
  guard (parts.length ≤ maxDepth)
  return (parts.dropLast, ← ofOption parts.getLast?)

/-- Takes a key and a value. -/
def pair (value : Reader Value) : Reader ((List String × String) × Value) := do
  let name ← key
  let _ ← char '='
  blanks
  return (name, ← value)

/-- Takes the items of an array; a comma may follow the last one. -/
def array (value : Reader Value) : Reader Value := do
  let _ ← char '['
  gap
  let item := do
    let item ← value
    gap
    return item
  let items ← optional (separated item do
    let _ ← char ','
    gap)
  if items.isSome then
    let _ ← optional (char ',')
    gap
  let _ ← char ']'
  return .arr (items.getD [])

/-- Takes a table in braces. -/
def closedTable (value : Reader Value) : Reader Value := do
  let _ ← char '\x7b'
  blanks
  let pairs ← optional (separated (do let entry ← pair value; blanks; return entry) (char ','))
  let _ ← char '\x7d'
  ofOption ((pairs.getD []).foldlM
    (fun root ((path, key), value) => root.insertDotted path key value) (.table .closed []))

/-- Takes a value in which so many levels may be nested. -/
def value : (room : Nat) → Reader Value
  | 0 => scalar
  | room + 1 => array (value room) <|> closedTable (value room) <|> scalar

/-- What a line says. -/
inductive Line where
  | blank
  | header (path : List String) (key : String)
  | nextHeader (path : List String) (key : String)
  | entry (path : List String) (key : String) (value : Value)

/-- Takes what a line says. -/
def lineContent : Reader Line :=
  (do
    word ['[', '[']
    let (path, key) ← key
    word [']', ']']
    return .nextHeader path key) <|>
  (do
    let _ ← char '['
    let (path, key) ← key
    let _ ← char ']'
    return .header path key) <|>
  (do
    let ((path, key), value) ← pair (value maxDepth)
    return .entry path key value) <|>
  return .blank

/-- Takes a line without its end. -/
def line : Reader Line := do
  blanks
  let content ← lineContent
  blanks
  let _ ← optional comment
  return content

/-- Takes all lines of a document; a mark of the byte order may come first. -/
def lines : Reader (List Line) := do
  let _ ← optional (char '\uFEFF')
  let found ← separated line newline
  atEnd
  return found

/-- Adds what a line says to a document, in which a table is open. -/
def addLine (state : Value × List String) : Line → Option (Value × List String)
  | .blank => some state
  | .header path key => do
    let root ← state.1.updateAt false (·.openTable key) path
    some (root, path ++ [key])
  | .nextHeader path key => do
    let root ← state.1.updateAt false (·.openNext key) path
    some (root, path ++ [key])
  | .entry path key value => do
    let root ← state.1.updateAt false (·.insertDotted path key value) state.2
    some (root, state.2)

/-- Reads a document. -/
def parse (text : String) : Option Value := do
  let (lines, _) ← lines.run text.toList
  let (root, _) ← lines.foldlM addLine (.table .header [], [])
  some root

end FragmentFlow.Toml
