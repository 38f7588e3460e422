import FragmentFlow.Text.Printable

/-!
# Quoted text

The written form of a string constant: double quotes around it, a backslash
before quotes and backslashes, short escapes for the common controls, and the
hexadecimal code point of every other character that is not printable.
-/

namespace FragmentFlow.Text

/-- Hexadecimal digits of a number, lower case and without padding. -/
def hexDigits (n : Nat) : List Char :=
  Nat.toDigits 16 n

/-- The written form of one character inside quotes. -/
def quoteChar (c : Char) : List Char :=
  if c = '\x00' then ['\\', '0']
  else if c = '\t' then ['\\', 't']
  else if c = '\r' then ['\\', 'r']
  else if c = '\n' then ['\\', 'n']
  else if c = '"' then ['\\', '"']
  else if c = '\\' then ['\\', '\\']
  else if isPrintable c then [c]
  else '\\' :: 'u' :: '\x7b' :: (hexDigits c.toNat ++ ['\x7d'])

/-- A string as it is written between double quotes, quotes included. -/
def quote (text : String) : String :=
  String.ofList ('"' :: (text.toList.flatMap quoteChar ++ ['"']))

end FragmentFlow.Text
