import FragmentFlow.Json.Value
import FragmentFlow.Text.Quoted

/-!
# Writing JSON

Two layouts: everything on one line without blanks, or one item per line with
two blanks of indentation per level and empty containers closed at once.
-/

namespace FragmentFlow.Json

/-- A control character as a four-digit escape. -/
def unicodeEscape (c : Char) : List Char :=
  let digits := Text.hexDigits c.toNat
  '\\' :: 'u' :: (List.replicate (4 - digits.length) '0' ++ digits)

/-- The written form of one character of a string. -/
def escapeChar (c : Char) : List Char :=
  if c = '"' then ['\\', '"']
  else if c = '\\' then ['\\', '\\']
  else if c = '\x08' then ['\\', 'b']
  else if c = '\x0c' then ['\\', 'f']
  else if c = '\n' then ['\\', 'n']
  else if c = '\r' then ['\\', 'r']
  else if c = '\t' then ['\\', 't']
  else if c.toNat < 0x20 then unicodeEscape c
  else [c]

/-- A string with its quotes. -/
def writeString (text : String) : List Char :=
  '"' :: (text.toList.flatMap escapeChar ++ ['"'])

/-- The decimal digits of an integer with its sign. -/
def writeInt (value : Int) : List Char :=
  if value < 0 then '-' :: Nat.toDigits 10 value.natAbs else Nat.toDigits 10 value.natAbs

mutual

/-- The one-line form of a value. -/
def write : Json → List Char
  | null => ['n', 'u', 'l', 'l']
  | bool true => ['t', 'r', 'u', 'e']
  | bool false => ['f', 'a', 'l', 's', 'e']
  | int value => writeInt value
  | real spelling => spelling.toList
  | str value => writeString value
  | arr [] => ['[', ']']
  | arr (item :: items) => '[' :: (write item ++ writeItems items)
  | obj [] => ['\x7b', '\x7d']
  | obj ((name, value) :: fields) =>
    '\x7b' :: (writeString name ++ ':' :: (write value ++ writeFields fields))

/-- The items after the first one, up to the closing bracket. -/
def writeItems : List Json → List Char
  | [] => [']']
  | item :: items => ',' :: (write item ++ writeItems items)

/-- The fields after the first one, up to the closing brace. -/
def writeFields : List (String × Json) → List Char
  | [] => ['\x7d']
  | (name, value) :: fields =>
    ',' :: (writeString name ++ ':' :: (write value ++ writeFields fields))

end

/-- The one-line form of a value as a string. -/
def compact (value : Json) : String :=
  String.ofList value.write

/-- A line break and the indentation of a level. -/
def newline (level : Nat) : List Char :=
  '\n' :: List.replicate (2 * level) ' '

mutual

/-- The indented form of a value that stands at a level. -/
def writePretty (level : Nat) : Json → List Char
  | arr [] => ['[', ']']
  | arr (item :: items) =>
    '[' :: (newline (level + 1) ++ writePretty (level + 1) item ++ writePrettyItems level items)
  | obj [] => ['\x7b', '\x7d']
  | obj ((name, value) :: fields) =>
    '\x7b' :: (newline (level + 1) ++ writeString name ++
      ':' :: ' ' :: (writePretty (level + 1) value ++ writePrettyFields level fields))
  | null => write null
  | bool value => write (bool value)
  | int value => write (int value)
  | real spelling => write (real spelling)
  | str value => write (str value)

/-- The items after the first one, each on its own line. -/
def writePrettyItems (level : Nat) : List Json → List Char
  | [] => newline level ++ [']']
  | item :: items =>
    ',' :: (newline (level + 1) ++ writePretty (level + 1) item ++ writePrettyItems level items)

/-- The fields after the first one, each on its own line. -/
def writePrettyFields (level : Nat) : List (String × Json) → List Char
  | [] => newline level ++ ['\x7d']
  | (name, value) :: fields =>
    ',' :: (newline (level + 1) ++ writeString name ++
      ':' :: ' ' :: (writePretty (level + 1) value ++ writePrettyFields level fields))

end

/-- The indented form of a value as a string. -/
def pretty (value : Json) : String :=
  String.ofList (value.writePretty 0)

end FragmentFlow.Json
