import FragmentFlow.Json.Number
import FragmentFlow.Json.Scanner
import FragmentFlow.Text.Reader
import FragmentFlow.Toml.Value

/-!
# TOML scalars

Strings, numbers, dates and truth values, and the blanks and comments around
them.
-/

namespace FragmentFlow.Toml

open Text (Reader)
open Text.Reader (char guard many ofOption one optional word)
open Json (digitsValue hexValue? isDigit)

/-! ### Blanks and comments -/

/-- Blanks within a line. -/
def isBlank (c : Char) : Bool :=
  c == ' ' || c == '\t'

/-- Skips blanks. -/
def blanks : Reader PUnit := do
  let _ ← Reader.takeWhile isBlank

/-- Takes the end of a line. -/
def newline : Reader Char := do
  let _ ← optional (char '\r')
  char '\n'

/-- Characters that may stand in comments and strings: no control characters
except the tabulator. -/
def isText (c : Char) : Bool :=
  c == '\t' || (0x20 ≤ c.toNat && c.toNat != 0x7f)

/-- Takes a comment up to the end of its line. -/
def comment : Reader PUnit := do
  let _ ← char '#'
  let _ ← Reader.takeWhile isText

/-- Skips blanks, comments and line ends. -/
def gap : Reader PUnit := do
  let _ ← many (one isBlank <|> newline <|> do
    comment
    newline)

/-! ### Strings -/

/-- The character with a number in hexadecimal digits. -/
def codePoint? (digits : List Char) : Option Char := do
  let values ← digits.mapM hexValue?
  let code := values.foldl (fun code digit => 16 * code + digit) 0
  if code.isValidChar then some (Char.ofNat code) else none

/-- Takes as many characters as asked for. -/
def exactly : Nat → Reader (List Char)
  | 0 => return []
  | count + 1 => do
    let c ← one fun _ => true
    return c :: (← exactly count)

/-- Takes an escape and gives the character it stands for. -/
def escape : Reader Char := do
  let _ ← char '\\'
  match ← one fun _ => true with
  | 'b' => return '\x08'
  | 't' => return '\t'
  | 'n' => return '\n'
  | 'f' => return '\x0c'
  | 'r' => return '\r'
  | '"' => return '"'
  | '\\' => return '\\'
  | 'u' => ofOption (codePoint? (← exactly 4))
  | 'U' => ofOption (codePoint? (← exactly 8))
  | _ => .fail

/-- Takes a string in double quotes. -/
def basicString : Reader String := do
  let _ ← char '"'
  let value ← many (one (fun c => isText c && c != '"' && c != '\\') <|> escape)
  let _ ← char '"'
  return String.ofList value

/-- Takes a string in single quotes. -/
def literalString : Reader String := do
  let _ ← char '\x27'
  let value ← Reader.takeWhile fun c => isText c && c != '\x27'
  let _ ← char '\x27'
  return String.ofList value

/-- Takes a backslash at the end of a line with all blanks and line ends after
it. -/
def continuation : Reader (List Char) := do
  let _ ← char '\\'
  blanks
  let _ ← newline
  let _ ← many (one isBlank <|> newline)
  return []

/-- Takes one or two quotes that do not end a text in triple quotes. -/
def innerQuotes (quote : Char) : Reader (List Char) := do
  let quotes ← Reader.takeWhile (· == quote)
  guard (1 ≤ quotes.length && quotes.length ≤ 2)
  return quotes

/-- Takes the triple quote that ends a text, with up to two quotes before it that
belong to the text. -/
def closingQuotes (quote : Char) : Reader (List Char) := do
  word [quote, quote, quote]
  let first ← optional (char quote)
  let second ← optional (char quote)
  return first.toList ++ second.toList

/-- Takes a text in triple quotes, over several lines. -/
def longString (quote : Char) (piece : Reader (List Char)) : Reader String := do
  word [quote, quote, quote]
  let _ ← optional newline
  let line := do return [← newline]
  let pieces ← many (piece <|> line <|> innerQuotes quote)
  return String.ofList (pieces.flatten ++ (← closingQuotes quote))

/-- Takes a text in triple double quotes. -/
def longBasicString : Reader String :=
  longString '"' <|
    (do return [← one fun c => isText c && c != '"' && c != '\\']) <|> continuation <|>
      (do return [← escape])

/-- Takes a text in triple single quotes. -/
def longLiteralString : Reader String :=
  longString '\x27' do return [← one fun c => isText c && c != '\x27']

/-- Takes a string of any sort. -/
def string : Reader String :=
  longBasicString <|> longLiteralString <|> basicString <|> literalString

/-! ### Numbers -/

/-- Takes a sign and tells whether it is a minus. -/
def sign : Reader Bool := do
  return (← optional (one fun c => c == '+' || c == '-')) == some '-'

/-- Takes digits, with single underscores between them. -/
def digits (test : Char → Bool) : Reader (List Char) := do
  let first ← one test
  let rest ← many (one test <|> (do let _ ← char '_'; one test))
  return first :: rest

/-- Takes decimal digits that do not start with an idle zero. -/
def wholeDigits : Reader (List Char) := do
  let found ← digits isDigit
  guard (found.length == 1 || found.head? != some '0')
  return found

/-- An integer of 64 bits. -/
def word64? (value : Int) : Option Value :=
  if Int64.minValue.toInt ≤ value ∧ value ≤ Int64.maxValue.toInt then some (.int value) else none

/-- Takes an integer in a base that is marked by a letter. -/
def markedInteger (mark : Char) (base : Nat) : Reader Value := do
  word ['0', mark]
  let found ← digits fun c => (hexValue? c).any (· < base)
  let value := found.foldl (fun value c => base * value + (hexValue? c).getD 0) 0
  ofOption (word64? value)

/-- Takes a decimal integer. -/
def decimalInteger : Reader Value := do
  let negative ← sign
  let value : Int := digitsValue (← wholeDigits)
  ofOption (word64? (if negative then -value else value))

/-- Takes an integer. -/
def integer : Reader Value :=
  markedInteger 'x' 16 <|> markedInteger 'o' 8 <|> markedInteger 'b' 2 <|> decimalInteger

/-- Takes the digits of an exponent and tells whether it is negative. -/
def exponent : Reader (Bool × List Char) := do
  let _ ← one fun c => c == 'e' || c == 'E'
  return (← sign, ← digits isDigit)

/-- Takes a number with a fraction or an exponent, not too large for a double. -/
def decimalFraction : Reader Value := do
  let negative ← sign
  let whole ← wholeDigits
  let fraction ← optional do
    let _ ← char '.'
    digits isDigit
  let exponent ← optional exponent
  guard (fraction.isSome || exponent.isSome)
  let parts : Json.NumberParts := { negative, whole, fraction, exponent }
  guard (negative || parts.fitsDouble)
  return .real

/-- Takes a number that is not an integer. -/
def real : Reader Value :=
  decimalFraction <|> do
    let _ ← sign
    word ['i', 'n', 'f'] <|> word ['n', 'a', 'n']
    return .real

/-! ### Dates -/

/-- Takes a number of so many digits within bounds. -/
def bounded (count least greatest : Nat) : Reader Nat := do
  let found ← exactly count
  guard (found.all isDigit)
  let value := digitsValue found
  guard (least ≤ value && value ≤ greatest)
  return value

/-- The number of days in a month. -/
def daysIn (year month : Nat) : Nat :=
  if month == 2 then
    if year % 4 == 0 && (year % 100 != 0 || year % 400 == 0) then 29 else 28
  else if [4, 6, 9, 11].contains month then 30
  else 31

/-- Takes a day of the calendar. -/
def day : Reader PUnit := do
  let year ← bounded 4 0 9999
  let _ ← char '-'
  let month ← bounded 2 1 12
  let _ ← char '-'
  let _ ← bounded 2 1 (daysIn year month)

/-- Takes a time of the day. -/
def time : Reader PUnit := do
  let _ ← bounded 2 0 23
  let _ ← char ':'
  let _ ← bounded 2 0 59
  let _ ← char ':'
  let _ ← bounded 2 0 60
  let _ ← optional do
    let _ ← char '.'
    let _ ← one isDigit
    Reader.takeWhile isDigit

/-- Takes the distance to universal time. -/
def zone : Reader PUnit :=
  (do let _ ← one fun c => c == 'Z' || c == 'z') <|> do
    let _ ← one fun c => c == '+' || c == '-'
    let _ ← bounded 2 0 23
    let _ ← char ':'
    let _ ← bounded 2 0 59

/-- Takes a day, a time of the day, or both. -/
def date : Reader Value :=
  (do
    day
    let _ ← optional do
      let _ ← one fun c => c == 'T' || c == 't' || c == ' '
      time
      optional zone
    return .date) <|> do
    time
    return .date

/-- Takes a truth value. -/
def truth : Reader Value :=
  (do word ['t', 'r', 'u', 'e']; return .bool true) <|>
    do word ['f', 'a', 'l', 's', 'e']; return .bool false

/-- Takes a value without parts. -/
def scalar : Reader Value :=
  (do return .str (← string)) <|> truth <|> date <|> real <|> integer

end FragmentFlow.Toml
