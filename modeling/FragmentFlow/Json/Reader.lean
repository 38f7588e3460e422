import FragmentFlow.Json.Scanner
import FragmentFlow.Json.Value

/-!
# Reading JSON values

A value is read from the front of a text.  The first fault of the text decides
the error.  The readers recur on the length of the text that is left.
-/

namespace FragmentFlow.Json

/-- What is left of a text after some of it was read. -/
abbrev Rest (text : List Char) := { rest : List Char // rest.length < text.length }

/-- The outcome of reading from the front of a text, with the fact that what is
left is shorter. -/
abbrev ScanWithin (text : List Char) (α : Type) := Except ReadError (α × Rest text)

/-- Adds to an outcome that what is left is shorter. -/
def Scan.within {α : Type} {text : List Char} (scan : Scan α)
    (shorter : ∀ {value rest}, scan = .ok (value, rest) → rest.length < text.length) :
    ScanWithin text α :=
  match scan, @shorter with
  | .error fault, _ => .error fault
  | .ok (value, rest), shorter => .ok (value, ⟨rest, shorter rfl⟩)

/-- The value of a number, unless it is kept and too large for a double. -/
def numberValue (mode : Mode) (parts : NumberParts) : Except ReadError Json :=
  match parts.integer? with
  | some value => .ok (int value)
  | none =>
    if mode.isKeep && !parts.productFitsDouble then .error .malformed
    else .ok (real (String.ofList parts.spelling))

/-- Reads a number. -/
def readNumber (mode : Mode) (text : List Char) : Scan Json :=
  match readNumberParts mode.numberCutOff text with
  | .error fault => .error fault
  | .ok (parts, rest) => (numberValue mode parts).map fun value => (value, rest)

theorem length_readNumber_lt {mode : Mode} {text rest : List Char} {value : Json}
    (read : readNumber mode text = .ok (value, rest)) : rest.length < text.length := by
  unfold readNumber at read
  split at read
  · simp at read
  · rename_i parts rest' found
    cases valued : numberValue mode parts with
    | error fault => simp [valued, Except.map] at read
    | ok number =>
      simp only [valued, Except.map, Except.ok.injEq, Prod.mk.injEq] at read
      rw [← read.2]
      exact length_readNumberParts_lt found

/-- Reads a value that is not nested: a string, a number or a word.  The text
starts with its first character. -/
def readScalar (mode : Mode) (text : List Char) : Scan Json :=
  match text with
  | '"' :: rest => (readString mode rest).map fun read => (str read.1, read.2)
  | 't' :: rest => readWord (bool true) ['r', 'u', 'e'] rest
  | 'f' :: rest => readWord (bool false) ['a', 'l', 's', 'e'] rest
  | 'n' :: rest => readWord null ['u', 'l', 'l'] rest
  | c :: _ => if c = '-' || isDigit c then readNumber mode text else .error .malformed
  | [] => .error .truncated

theorem length_readScalar_lt {mode : Mode} {text rest : List Char} {value : Json}
    (read : readScalar mode text = .ok (value, rest)) : rest.length < text.length := by
  unfold readScalar at read
  split at read
  · rename_i tail
    cases found : readString mode tail with
    | error fault => simp [found, Except.map] at read
    | ok string =>
      obtain ⟨characters, after⟩ := string
      simp only [found, Except.map, Except.ok.injEq, Prod.mk.injEq] at read
      have := length_readString_lt found
      simp only [← read.2, List.length_cons]
      omega
  iterate 3
    · have := length_readWord_le read
      simp only [List.length_cons]
      omega
  · split at read
    · exact length_readNumber_lt read
    · simp at read
  · simp at read

mutual

/-- Reads one value. -/
def readValue (mode : Mode) (text : List Char) : ScanWithin text Json :=
  match start : skipSpaces text with
  | '[' :: rest =>
    match mode.enter with
    | .error fault => .error fault
    | .ok inner =>
      match first : skipSpaces rest with
      | [] => .error .truncated
      | ']' :: tail =>
        .ok (arr [], ⟨tail,
          Nat.lt_trans (length_lt_of_skipSpaces first) (length_lt_of_skipSpaces start)⟩)
      | c :: tail =>
        have inside : (c :: tail).length < text.length := by
          have := length_skipSpaces_le rest
          have := length_lt_of_skipSpaces start
          rw [first] at *
          omega
        readItems inner text [] (c :: tail) inside
  | '\x7b' :: rest =>
    match mode.enter with
    | .error fault => .error fault
    | .ok inner =>
      match first : skipSpaces rest with
      | [] => .error .truncated
      | '\x7d' :: tail =>
        .ok (obj [], ⟨tail,
          Nat.lt_trans (length_lt_of_skipSpaces first) (length_lt_of_skipSpaces start)⟩)
      | '"' :: tail =>
        have inside : tail.length < text.length :=
          Nat.lt_trans (length_lt_of_skipSpaces first) (length_lt_of_skipSpaces start)
        readFields inner text [] tail inside
      | _ => .error .malformed
  | rest =>
    (readScalar mode rest).within fun found => by
      have := length_readScalar_lt found
      have := length_skipSpaces_le text
      rw [start] at this
      omega
termination_by (text.length, 0)

/-- Reads the items of an array up to its closing bracket; the text that is left
starts with an item.  `read` holds the items already read, last one first. -/
def readItems (mode : Mode) (text : List Char) (read : List Json) (left : List Char)
    (inside : left.length < text.length) : ScanWithin text Json :=
  match readValue mode left with
  | .error fault => .error fault
  | .ok (item, ⟨rest, shorter⟩) =>
    match next : skipSpaces rest with
    | [] => .error .truncated
    | ']' :: tail =>
      have := length_lt_of_skipSpaces next
      .ok (arr (item :: read).reverse, ⟨tail, by omega⟩)
    | ',' :: tail =>
      match following : skipSpaces tail with
      | [] => .error .truncated
      | ']' :: _ => .error .malformed
      | c :: tail' =>
        have less : (c :: tail').length < left.length := by
          have := length_lt_of_skipSpaces next
          have := length_skipSpaces_le tail
          rw [following] at this
          omega
        readItems mode text (item :: read) (c :: tail') (by omega)
    | _ => .error .malformed
termination_by (left.length, 1)

/-- Reads the fields of an object up to its closing brace; the text that is left
starts inside the quotes of a name.  `read` holds the fields already read, last
one first. -/
def readFields (mode : Mode) (text : List Char) (read : List (String × Json))
    (left : List Char) (inside : left.length < text.length) : ScanWithin text Json :=
  match named : readString mode left with
  | .error fault => .error fault
  | .ok (name, afterName) =>
    match colon : skipSpaces afterName with
    | [] => .error .truncated
    | ':' :: beforeValue =>
      have valueInside : beforeValue.length < left.length :=
        Nat.lt_trans (length_lt_of_skipSpaces colon) (length_readString_lt named)
      match readValue mode beforeValue with
      | .error fault => .error fault
      | .ok (value, ⟨rest, shorter⟩) =>
        match next : skipSpaces rest with
        | [] => .error .truncated
        | '\x7d' :: tail =>
          have := length_lt_of_skipSpaces next
          .ok (obj ((name, value) :: read).reverse, ⟨tail, by omega⟩)
        | ',' :: tail =>
          match following : skipSpaces tail with
          | [] => .error .truncated
          | '"' :: tail' =>
            have less : tail'.length < left.length := by
              have := length_lt_of_skipSpaces next
              have := length_lt_of_skipSpaces following
              omega
            readFields mode text ((name, value) :: read) tail' (by omega)
          | _ => .error .malformed
        | _ => .error .malformed
    | _ => .error .malformed
termination_by (left.length, 1)

end

/-- How many arrays and objects of a text may be open at once. -/
def maxNesting : Nat := 127

/-- What has to follow the value of a text: blanks only. -/
def readEnd (text : List Char) : Except ReadError PUnit :=
  if (skipSpaces text).isEmpty then .ok () else .error .malformed

/-- Reads a text that holds one value, with at most `nesting` arrays and objects
open at once. -/
def parse (text : String) (nesting : Nat := maxNesting) : Except ReadError Json :=
  match readValue (.keep nesting) text.toList with
  | .error fault => .error fault
  | .ok (value, ⟨rest, _⟩) => (readEnd rest).map fun _ => value

end FragmentFlow.Json
