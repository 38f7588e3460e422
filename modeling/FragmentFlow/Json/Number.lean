/-!
# JSON numbers

The spelling of a number is cut into its parts first.  An integer that fits 64
bits keeps its value; every other number only has to be small enough for a
double.  How a number becomes a double decides the border: it is either rounded
once, or it is the product of its leading digits and a power of ten, both of
them rounded before.
-/

namespace FragmentFlow.Json

/-- The parts of a number as they are spelled: whole digits, fraction digits and
exponent digits, each in the order of the text. -/
structure NumberParts where
  negative : Bool
  whole : List Char
  fraction : Option (List Char)
  exponent : Option (Bool × List Char)

/-- The value of a list of decimal digits. -/
def digitsValue (digits : List Char) : Nat :=
  digits.foldl (fun value digit => 10 * value + (digit.toNat - '0'.toNat)) 0

/-- The least magnitude that is rounded beyond the largest double. -/
def doubleLimit : Nat := Nat.pow 2 1024 - Nat.pow 2 970

/-- Whether `mantissa * 10 ^ exponent` is below a limit of 309 digits. -/
def belowLimit (mantissa : Nat) (exponent : Int) : Bool :=
  let position := (Nat.toDigits 10 mantissa).length + exponent
  if mantissa = 0 ∨ position ≤ 308 then true
  else if 309 < position then false
  else if 0 ≤ exponent then mantissa * Nat.pow 10 exponent.toNat < doubleLimit
  else mantissa < doubleLimit * Nat.pow 10 (-exponent).toNat

/-- A natural number rounded to the 53 significant bits of a double; a half goes to
the even neighbour. -/
def roundDouble (n : Nat) : Nat :=
  if n < Nat.pow 2 53 then n
  else
    let unit := Nat.pow 2 (n.log2 - 52)
    let quotient := n / unit
    let twice := 2 * (n % unit)
    if twice < unit ∨ twice = unit ∧ quotient % 2 = 0 then quotient * unit
    else (quotient + 1) * unit

/-- Appends digits to a number as long as it stays within 64 bits; the digits from
the first one that does not fit are left over. -/
def appendDigits (value : Nat) : List Char → Nat × List Char
  | [] => (value, [])
  | digit :: digits =>
    let longer := 10 * value + (digit.toNat - '0'.toNat)
    if longer < UInt64.size then appendDigits longer digits else (value, digit :: digits)

namespace NumberParts

/-- The integer a spelling denotes: one without fraction and exponent, not
smaller than `-2 ^ 63`, not larger than `2 ^ 64 - 1`, and not a negative zero. -/
def integer? (parts : NumberParts) : Option Int :=
  match parts.fraction, parts.exponent with
  | none, none =>
    let magnitude := digitsValue parts.whole
    if parts.negative then
      if 0 < magnitude ∧ magnitude ≤ UInt64.size / 2 then some (-magnitude) else none
    else if magnitude < UInt64.size then some magnitude else none
  | _, _ => none

/-- The power of ten that the number is multiplied by. -/
def shift (parts : NumberParts) : Int :=
  match parts.exponent with
  | none => 0
  | some (true, digits) => -(digitsValue digits : Int)
  | some (false, digits) => digitsValue digits

/-- Whether the number, rounded once, is within the range of doubles. -/
def fitsDouble (parts : NumberParts) : Bool :=
  let fraction := parts.fraction.getD []
  belowLimit (digitsValue (parts.whole ++ fraction)) (parts.shift - fraction.length)

/-- Whether the leading digits of the number times their power of ten are within
the range of doubles.  Whole digits that are left over raise the power of ten, and
fraction digits lower it unless they are left over. -/
def productFitsDouble (parts : NumberParts) : Bool :=
  let fraction := parts.fraction.getD []
  let (whole, wholeLeft) := appendDigits 0 parts.whole
  let (leading, fractionLeft) := appendDigits whole fraction
  let power := parts.shift + wholeLeft.length - (fraction.length - fractionLeft.length : Nat)
  if leading = 0 ∨ power ≤ 0 then true
  else if 308 < power then false
  else roundDouble leading * roundDouble (Nat.pow 10 power.toNat) < doubleLimit

/-- The spelling of the number. -/
def spelling (parts : NumberParts) : List Char :=
  (if parts.negative then ['-'] else []) ++ parts.whole ++
    (match parts.fraction with
      | none => []
      | some digits => '.' :: digits) ++
    (match parts.exponent with
      | none => []
      | some (true, digits) => 'e' :: '-' :: digits
      | some (false, digits) => 'e' :: digits)

end NumberParts

end FragmentFlow.Json
