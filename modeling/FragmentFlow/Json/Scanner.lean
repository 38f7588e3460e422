import FragmentFlow.Json.Number

/-!
# Scanning JSON text

The parts of JSON text that are not nested: blanks, strings, numbers and words.
A scanner returns what is left of the text together with the fact that this is
shorter, on which the readers of nested values recur.

A text is scanned either to keep its values or to skip them.  Skipping does not
look at the values of escapes and numbers and knows no limit of nesting.
-/

namespace FragmentFlow.Json

/-- Why a text could not be read. -/
inductive ReadError where
  /-- The text is not JSON, or it is nested too deeply. -/
  | malformed
  /-- The text ends before its value does. -/
  | truncated
  /-- The text is JSON of another shape than the one asked for. -/
  | mismatched
  deriving DecidableEq, Repr

/-- What is done with the values of a text. -/
inductive Mode where
  /-- Values are kept, and this many more arrays and objects may be opened. -/
  | keep (room : Nat)
  /-- Values are skipped. -/
  | skip
  deriving DecidableEq, Repr

namespace Mode

/-- The mode inside one more array or object. -/
def enter : Mode → Except ReadError Mode
  | keep 0 => .error .malformed
  | keep (room + 1) => .ok (keep room)
  | skip => .ok skip

/-- Whether values are kept. -/
def isKeep : Mode → Bool
  | keep _ => true
  | skip => false

/-- The fault of a number that the end of the text cuts off. -/
def numberCutOff : Mode → ReadError
  | keep _ => .truncated
  | skip => .malformed

end Mode

/-- The outcome of reading something from the front of a text: what was read and
what is left. -/
abbrev Scan (α : Type) := Except ReadError (α × List Char)

/-- The blanks that may stand between the parts of a value. -/
def isSpace (c : Char) : Bool :=
  c = ' ' || c = '\n' || c = '\t' || c = '\r'

/-- A text without the blanks it starts with. -/
def skipSpaces (text : List Char) : List Char :=
  text.dropWhile isSpace

theorem length_dropWhile_le (p : Char → Bool) (text : List Char) :
    (text.dropWhile p).length ≤ text.length := by
  induction text with
  | nil => simp
  | cons c rest ih =>
    rw [List.dropWhile_cons]
    split
    · simp only [List.length_cons]
      omega
    · simp

theorem length_skipSpaces_le (text : List Char) : (skipSpaces text).length ≤ text.length :=
  length_dropWhile_le isSpace text

/-- What follows the first character that is not blank is shorter. -/
theorem length_lt_of_skipSpaces {text tail : List Char} {c : Char}
    (found : skipSpaces text = c :: tail) : tail.length < text.length := by
  have bound := length_skipSpaces_le text
  rw [found, List.length_cons] at bound
  omega

/-- Whether a character is a decimal digit. -/
def isDigit (c : Char) : Bool :=
  '0' ≤ c && c ≤ '9'

/-- The value of a hexadecimal digit. -/
def hexValue? (c : Char) : Option Nat :=
  if '0' ≤ c ∧ c ≤ '9' then some (c.toNat - '0'.toNat)
  else if 'a' ≤ c ∧ c ≤ 'f' then some (c.toNat - 'a'.toNat + 10)
  else if 'A' ≤ c ∧ c ≤ 'F' then some (c.toNat - 'A'.toNat + 10)
  else none

/-- The number of bytes a text takes in UTF-8. -/
def utf8Length (text : List Char) : Nat :=
  text.foldl (fun length c => length + c.utf8Size) 0

/-- Reads four hexadecimal digits.  A text of fewer than four bytes is cut off,
whatever its characters are. -/
def readFourHex (text : List Char) : Scan Nat :=
  match text with
  | a :: b :: c :: d :: rest =>
    match hexValue? a, hexValue? b, hexValue? c, hexValue? d with
    | some a, some b, some c, some d => .ok (((a * 16 + b) * 16 + c) * 16 + d, rest)
    | _, _, _, _ => .error .malformed
  | _ => .error (if utf8Length text < 4 then .truncated else .malformed)

theorem length_readFourHex_lt {text rest : List Char} {unit : Nat}
    (read : readFourHex text = .ok (unit, rest)) : rest.length < text.length := by
  unfold readFourHex at read
  split at read
  · split at read
    · simp only [Except.ok.injEq, Prod.mk.injEq] at read
      simp only [← read.2, List.length_cons]
      omega
    · simp at read
  · simp at read

/-- Whether a code unit is the first half of a surrogate pair. -/
def isLeadingSurrogate (unit : Nat) : Bool :=
  0xd800 ≤ unit && unit ≤ 0xdbff

/-- Whether a code unit is the second half of a surrogate pair. -/
def isTrailingSurrogate (unit : Nat) : Bool :=
  0xdc00 ≤ unit && unit ≤ 0xdfff

/-- The character of a surrogate pair. -/
def surrogatePair (leading trailing : Nat) : Char :=
  Char.ofNat (0x10000 + (leading - 0xd800) * 0x400 + (trailing - 0xdc00))

/-- Reads a `u` escape after its letter.  Halves of surrogate pairs have to come
in pairs. -/
def readUnicodeEscape (text : List Char) : Scan Char :=
  match readFourHex text with
  | .error fault => .error fault
  | .ok (unit, rest) =>
    if isTrailingSurrogate unit then .error .malformed
    else if isLeadingSurrogate unit then
      match rest with
      | [] | ['\\'] => .error .truncated
      | '\\' :: 'u' :: tail =>
        match readFourHex tail with
        | .error fault => .error fault
        | .ok (trailing, rest') =>
          if isTrailingSurrogate trailing then .ok (surrogatePair unit trailing, rest')
          else .error .malformed
      | _ => .error .malformed
    else .ok (Char.ofNat unit, rest)

theorem length_readUnicodeEscape_lt {text rest : List Char} {c : Char}
    (read : readUnicodeEscape text = .ok (c, rest)) : rest.length < text.length := by
  unfold readUnicodeEscape at read
  cases first : readFourHex text with
  | error fault => simp [first] at read
  | ok found =>
    obtain ⟨unit, afterFirst⟩ := found
    have := length_readFourHex_lt first
    simp only [first] at read
    repeat' split at read
    all_goals try simp only [reduceCtorEq] at read
    all_goals simp only [Except.ok.injEq, Prod.mk.injEq] at read
    · rename_i second _
      have := length_readFourHex_lt second
      simp only [List.length_cons] at *
      rw [← read.2]
      omega
    · rw [← read.2]
      exact this

/-- The character that a one-letter escape stands for. -/
def shortEscape? : Char → Option Char
  | '"' => some '"'
  | '\\' => some '\\'
  | '/' => some '/'
  | 'b' => some '\x08'
  | 'f' => some '\x0c'
  | 'n' => some '\n'
  | 'r' => some '\r'
  | 't' => some '\t'
  | _ => none

/-- Reads an escape after its backslash. -/
def readEscape (mode : Mode) (text : List Char) : Scan Char :=
  match text with
  | [] => .error .truncated
  | c :: rest =>
    match shortEscape? c with
    | some value => .ok (value, rest)
    | none =>
      if c = 'u' then
        match mode with
        | .keep _ => readUnicodeEscape rest
        | .skip => (readFourHex rest).map fun read => (c, read.2)
      else .error .malformed

theorem length_readEscape_lt {mode : Mode} {text rest : List Char} {c : Char}
    (read : readEscape mode text = .ok (c, rest)) : rest.length < text.length := by
  unfold readEscape at read
  repeat' split at read
  all_goals try simp only [reduceCtorEq] at read
  · simp only [Except.ok.injEq, Prod.mk.injEq] at read
    simp [← read.2]
  · have := length_readUnicodeEscape_lt read
    simp only [List.length_cons]
    omega
  · rename_i tail _ _ _ _
    cases first : readFourHex tail with
    | error fault => simp [first, Except.map] at read
    | ok found =>
      obtain ⟨unit, rest'⟩ := found
      simp only [first, Except.map, Except.ok.injEq, Prod.mk.injEq] at read
      have := length_readFourHex_lt first
      simp only [← read.2, List.length_cons]
      omega

/-- Reads the characters of a string up to its closing quote.  `read` holds
those already read, last one first. -/
def readStringFrom (mode : Mode) (read : List Char) : List Char → Scan String
  | [] => .error .truncated
  | c :: rest =>
    if c = '"' then .ok (String.ofList read.reverse, rest)
    else if c = '\\' then
      match found : readEscape mode rest with
      | .error fault => .error fault
      | .ok (value, rest') =>
        have := length_readEscape_lt found
        readStringFrom mode (value :: read) rest'
    else if c.toNat < 0x20 then .error .malformed
    else readStringFrom mode (c :: read) rest
termination_by text => text.length

/-- Reads a string after its opening quote. -/
def readString (mode : Mode) (text : List Char) : Scan String :=
  readStringFrom mode [] text

theorem length_readStringFrom_lt {mode : Mode} {read text rest : List Char} {result : String}
    (found : readStringFrom mode read text = .ok (result, rest)) : rest.length < text.length := by
  fun_induction readStringFrom mode read text with
  | case1 => simp at found
  | case2 read rest' =>
    simp only [Except.ok.injEq, Prod.mk.injEq] at found
    simp [← found.2]
  | case3 => simp at found
  | case4 read tail _ value tail' escape shorter ih =>
    have := ih found
    simp only [List.length_cons]
    omega
  | case5 => simp at found
  | case6 read c tail _ _ _ ih =>
    have := ih found
    simp only [List.length_cons]
    omega

theorem length_readString_lt {mode : Mode} {text rest : List Char} {result : String}
    (found : readString mode text = .ok (result, rest)) : rest.length < text.length :=
  length_readStringFrom_lt found

/-- Reads the rest of a word whose first letter is read. -/
def readWord {α : Type} (value : α) (letters text : List Char) : Scan α :=
  match letters, text with
  | [], rest => .ok (value, rest)
  | _ :: _, [] => .error .truncated
  | letter :: letters, c :: rest =>
    if c = letter then readWord value letters rest else .error .malformed

theorem length_readWord_le {α : Type} {value result : α} {letters text rest : List Char}
    (read : readWord value letters text = .ok (result, rest)) : rest.length ≤ text.length := by
  induction letters generalizing text with
  | nil =>
    simp only [readWord, Except.ok.injEq, Prod.mk.injEq] at read
    exact Nat.le_of_eq (congrArg List.length read.2.symm)
  | cons letter letters ih =>
    cases text with
    | nil => simp [readWord] at read
    | cons c tail =>
      simp only [readWord] at read
      split at read
      · have := ih read
        simp only [List.length_cons]
        omega
      · simp at read

/-- Cuts the digits off the front of a text. -/
def spanDigits (text : List Char) : List Char × List Char :=
  (text.takeWhile isDigit, text.dropWhile isDigit)

/-- Reads the whole part of a number: a zero on its own, or digits that do not
start with one. -/
def readWhole (cutOff : ReadError) : List Char → Scan (List Char)
  | [] => .error cutOff
  | c :: rest =>
    if c = '0' then
      match rest with
      | [] => .ok (['0'], [])
      | d :: tail => if isDigit d then .error .malformed else .ok (['0'], d :: tail)
    else if isDigit c then .ok (c :: (spanDigits rest).1, (spanDigits rest).2)
    else .error .malformed

theorem length_readWhole_lt {cutOff : ReadError} {text digits rest : List Char}
    (read : readWhole cutOff text = .ok (digits, rest)) : rest.length < text.length := by
  unfold readWhole at read
  repeat' split at read
  all_goals try simp only [reduceCtorEq] at read
  all_goals simp only [Except.ok.injEq, Prod.mk.injEq] at read
  · simp [← read.2]
  · simp [← read.2]
  · rename_i tail _ _
    have := length_dropWhile_le isDigit tail
    simp only [← read.2, List.length_cons, spanDigits]
    omega

/-- Reads the digits that have to follow a point or an exponent mark. -/
def readDigits (cutOff : ReadError) (text : List Char) : Scan (List Char) :=
  match spanDigits text with
  | ([], []) => .error cutOff
  | ([], _) => .error .malformed
  | (digits, rest) => .ok (digits, rest)

theorem length_readDigits_le {cutOff : ReadError} {text digits rest : List Char}
    (read : readDigits cutOff text = .ok (digits, rest)) : rest.length ≤ text.length := by
  unfold readDigits at read
  split at read
  · simp at read
  · simp at read
  · rename_i cut
    simp only [Except.ok.injEq, Prod.mk.injEq] at read
    simp only [spanDigits, Prod.mk.injEq] at cut
    rw [← read.2, ← cut.2]
    exact length_dropWhile_le isDigit text

/-- Reads the fraction of a number, if there is one. -/
def readFraction (cutOff : ReadError) : List Char → Scan (Option (List Char))
  | '.' :: rest => (readDigits cutOff rest).map fun read => (some read.1, read.2)
  | text => .ok (none, text)

theorem length_readFraction_le {cutOff : ReadError} {text rest : List Char}
    {digits : Option (List Char)} (read : readFraction cutOff text = .ok (digits, rest)) :
    rest.length ≤ text.length := by
  unfold readFraction at read
  split at read
  · rename_i tail
    cases found : readDigits cutOff tail with
    | error fault => simp [found, Except.map] at read
    | ok cut =>
      obtain ⟨run, after⟩ := cut
      simp only [found, Except.map, Except.ok.injEq, Prod.mk.injEq] at read
      have := length_readDigits_le found
      simp only [← read.2, List.length_cons]
      omega
  · simp only [Except.ok.injEq, Prod.mk.injEq] at read
    exact Nat.le_of_eq (congrArg List.length read.2.symm)

/-- The sign of an exponent and what follows it. -/
def exponentSign : List Char → Bool × List Char
  | '+' :: rest => (false, rest)
  | '-' :: rest => (true, rest)
  | rest => (false, rest)

theorem length_exponentSign_le (text : List Char) :
    (exponentSign text).2.length ≤ text.length := by
  unfold exponentSign
  split <;> simp

/-- Reads the exponent of a number, if there is one. -/
def readExponent (cutOff : ReadError) : List Char → Scan (Option (Bool × List Char))
  | [] => .ok (none, [])
  | c :: rest =>
    if c = 'e' ∨ c = 'E' then
      (readDigits cutOff (exponentSign rest).2).map fun read =>
        (some ((exponentSign rest).1, read.1), read.2)
    else .ok (none, c :: rest)

theorem length_readExponent_le {cutOff : ReadError} {text rest : List Char}
    {exponent : Option (Bool × List Char)}
    (read : readExponent cutOff text = .ok (exponent, rest)) :
    rest.length ≤ text.length := by
  unfold readExponent at read
  split at read
  · simp only [Except.ok.injEq, Prod.mk.injEq] at read
    simp [← read.2]
  · rename_i c tail
    split at read
    · cases found : readDigits cutOff (exponentSign tail).2 with
      | error fault => simp [found, Except.map] at read
      | ok cut =>
        obtain ⟨run, after⟩ := cut
        simp only [found, Except.map, Except.ok.injEq, Prod.mk.injEq] at read
        have := length_readDigits_le found
        have := length_exponentSign_le tail
        simp only [← read.2, List.length_cons]
        omega
    · simp only [Except.ok.injEq, Prod.mk.injEq] at read
      exact Nat.le_of_eq (congrArg List.length read.2.symm)

/-- The sign of a number and what follows it. -/
def numberSign : List Char → Bool × List Char
  | '-' :: rest => (true, rest)
  | rest => (false, rest)

theorem length_numberSign_le (text : List Char) : (numberSign text).2.length ≤ text.length := by
  unfold numberSign
  split <;> simp

/-- Reads the parts of a number. -/
def readNumberParts (cutOff : ReadError) (text : List Char) : Scan NumberParts :=
  match readWhole cutOff (numberSign text).2 with
  | .error fault => .error fault
  | .ok (whole, afterWhole) =>
    match readFraction cutOff afterWhole with
    | .error fault => .error fault
    | .ok (fraction, afterFraction) =>
      match readExponent cutOff afterFraction with
      | .error fault => .error fault
      | .ok (exponent, rest) =>
        .ok ({ negative := (numberSign text).1, whole, fraction, exponent }, rest)

theorem length_readNumberParts_lt {cutOff : ReadError} {text rest : List Char}
    {parts : NumberParts} (read : readNumberParts cutOff text = .ok (parts, rest)) :
    rest.length < text.length := by
  unfold readNumberParts at read
  repeat' split at read
  all_goals try simp only [reduceCtorEq] at read
  rename_i whole _ _ _ fraction _ _ _ exponent
  simp only [Except.ok.injEq, Prod.mk.injEq] at read
  have := length_numberSign_le text
  have := length_readWhole_lt whole
  have := length_readFraction_le fraction
  have := length_readExponent_le exponent
  rw [← read.2]
  omega

end FragmentFlow.Json
