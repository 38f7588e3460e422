import FragmentFlow.Json.Reader
import FragmentFlow.Json.Writer
import Mathlib.Tactic.SplitIfs

/-!
# Written tokens are read back

Strings and integers are the parts of a written value that are not fixed words.
Every character of a string is read back from its written form
(`readStringFrom_escapeChar`), hence the whole string (`readString_written`).  An
integer of at most 64 bits is read back if what follows cannot extend it
(`readNumber_written`).
-/

namespace FragmentFlow.Json

/-- What follows a value in written text: nothing, or a mark after the value. -/
def EndsValue (rest : List Char) : Prop :=
  ∀ c ∈ rest.head?, c = ',' ∨ c = ']' ∨ c = '\x7d'

section Strings

variable {room : Nat}

/-- A hexadecimal digit is read back. -/
theorem hexValue?_digitChar : ∀ digit < 16, hexValue? digit.digitChar = some digit := by
  decide

/-- The escape of a control character has two zeros and the two digits of its
code point. -/
theorem unicodeEscape_digits :
    ∀ code < 0x20,
      List.replicate (4 - (Text.hexDigits code).length) '0' ++ Text.hexDigits code =
        ['0', '0', (code / 16).digitChar, (code % 16).digitChar] := by
  decide

theorem readFourHex_control {code : Nat} (control : code < 0x20) (rest : List Char) :
    readFourHex ('0' :: '0' :: (code / 16).digitChar :: (code % 16).digitChar :: rest) =
      .ok (code, rest) := by
  have zero : hexValue? '0' = some 0 := by decide
  have high := hexValue?_digitChar (code / 16) (by omega)
  have low := hexValue?_digitChar (code % 16) (by omega)
  have value : ((0 * 16 + 0) * 16 + code / 16) * 16 + code % 16 = code := by omega
  simp only [readFourHex, zero, high, low, value]

theorem readEscape_control {c : Char} (control : c.toNat < 0x20) (rest : List Char) :
    readEscape (.keep room) ((unicodeEscape c).tail ++ rest) = .ok (c, rest) := by
  have short : shortEscape? 'u' = none := rfl
  have trailing : isTrailingSurrogate c.toNat = false := by
    simp only [isTrailingSurrogate, Bool.and_eq_false_iff, decide_eq_false_iff_not]
    omega
  have leading : isLeadingSurrogate c.toNat = false := by
    simp only [isLeadingSurrogate, Bool.and_eq_false_iff, decide_eq_false_iff_not]
    omega
  simp only [unicodeEscape, unicodeEscape_digits c.toNat control, List.tail_cons, List.cons_append,
    List.nil_append, readEscape, short, ↓reduceIte, readUnicodeEscape, readFourHex_control control,
    trailing, leading, Bool.false_eq_true, Char.ofNat_toNat]

theorem readStringFrom_escape {mode : Mode} {read text rest : List Char} {value : Char}
    (escape : readEscape mode text = .ok (value, rest)) :
    readStringFrom mode read ('\\' :: text) = readStringFrom mode (value :: read) rest := by
  rw [readStringFrom, if_neg (by decide), if_pos rfl]
  split
  · rename_i failed
    simp [escape] at failed
  · rename_i found
    rw [escape] at found
    cases found
    rfl

/-- Reading the written form of a character adds the character. -/
theorem readStringFrom_escapeChar (c : Char) (read rest : List Char) :
    readStringFrom (.keep room) read (escapeChar c ++ rest) =
      readStringFrom (.keep room) (c :: read) rest := by
  unfold escapeChar
  split_ifs with quote backslash backspace formFeed lineFeed carriage tab control
  iterate 7
    · subst c
      exact readStringFrom_escape rfl
  · exact readStringFrom_escape (readEscape_control control rest)
  · rw [List.singleton_append, readStringFrom, if_neg quote, if_neg backslash, if_neg control]

/-- Reading gives back the characters that were written before the closing quote. -/
theorem readStringFrom_written (characters read rest : List Char) :
    readStringFrom (.keep room) read (characters.flatMap escapeChar ++ '"' :: rest) =
      .ok (String.ofList (read.reverse ++ characters), rest) := by
  induction characters generalizing read with
  | nil => simp [readStringFrom]
  | cons c characters ih =>
      rw [List.flatMap_cons, List.append_assoc, readStringFrom_escapeChar, ih, List.reverse_cons,
        List.append_assoc, List.singleton_append]

theorem writeString_append (text : String) (rest : List Char) :
    writeString text ++ rest = '"' :: (text.toList.flatMap escapeChar ++ '"' :: rest) := by
  simp [writeString]

/-- Reading undoes writing a string. -/
theorem readString_written (text : String) (rest : List Char) :
    readString (.keep room) (text.toList.flatMap escapeChar ++ '"' :: rest) = .ok (text, rest) := by
  rw [readString, readStringFrom_written, List.reverse_nil, List.nil_append, String.ofList_toList]

end Strings

section Numbers

variable {cutOff : ReadError} {rest : List Char}

/-- The digits of a number are digits. -/
theorem isDigit_of_mem_toDigits {n : Nat} {c : Char} (member : c ∈ Nat.toDigits 10 n) :
    isDigit c = true := by
  have digit := Nat.isDigit_of_mem_toDigits (by decide) (by decide) member
  simpa [isDigit, Char.isDigit, Char.le_def] using digit

/-- The digits of a positive number do not start with a zero. -/
theorem toDigits_of_pos {n : Nat} (positive : 0 < n) :
    ∃ c digits, Nat.toDigits 10 n = c :: digits ∧ c ≠ '0' := by
  induction n using Nat.strongRecOn with
  | ind n ih =>
      by_cases small : n < 10
      · have nonzero : ∀ digit < 10, 0 < digit → digit.digitChar ≠ '0' := by decide
        exact ⟨_, [], Nat.toDigits_of_lt_base small, nonzero n small positive⟩
      · obtain ⟨c, digits, leading, nonzero⟩ := ih (n / 10) (by omega) (by omega)
        refine ⟨c, digits ++ [(n % 10).digitChar], ?_, nonzero⟩
        rw [Nat.toDigits_of_base_le (by decide) (by omega), leading, List.cons_append]

/-- What ends a value goes on with no number. -/
theorem EndsValue.head_ne (ends : EndsValue rest) {c : Char} {tail : List Char}
    (start : rest = c :: tail) : isDigit c = false ∧ c ≠ '.' ∧ c ≠ 'e' ∧ c ≠ 'E' := by
  subst start
  rcases ends c rfl with rfl | rfl | rfl <;> decide

/-- The digits of a number end where the value does. -/
theorem EndsValue.spanDigits (ends : EndsValue rest) {digits : List Char}
    (each : ∀ c ∈ digits, isDigit c = true) : spanDigits (digits ++ rest) = (digits, rest) := by
  have none_left : rest.takeWhile isDigit = [] ∧ rest.dropWhile isDigit = rest := by
    cases rest with
    | nil => exact ⟨rfl, rfl⟩
    | cons c tail =>
        have other := (ends.head_ne rfl).1
        simp [other]
  rw [Json.spanDigits, List.takeWhile_append_of_pos each, List.dropWhile_append_of_pos each,
    none_left.1, none_left.2, List.append_nil]

/-- The whole part of a number is read back. -/
theorem EndsValue.readWhole (ends : EndsValue rest) (n : Nat) :
    readWhole cutOff (Nat.toDigits 10 n ++ rest) = .ok (Nat.toDigits 10 n, rest) := by
  rcases Nat.eq_zero_or_pos n with rfl | positive
  · cases rest with
    | nil => rfl
    | cons c tail =>
        have other := (ends.head_ne rfl).1
        simp [Json.readWhole, other]
  · obtain ⟨c, digits, written, nonzero⟩ := toDigits_of_pos positive
    have each : ∀ d ∈ c :: digits, isDigit d = true := fun d member =>
      isDigit_of_mem_toDigits (written ▸ member)
    have first := each c List.mem_cons_self
    have span := ends.spanDigits fun d member => each d (List.mem_cons_of_mem c member)
    simp only [written, List.cons_append, Json.readWhole, if_neg nonzero, if_pos first, span]

/-- A whole number has no fraction. -/
theorem EndsValue.readFraction (ends : EndsValue rest) :
    readFraction cutOff rest = .ok (none, rest) := by
  unfold Json.readFraction
  split
  · exact absurd rfl (ends.head_ne rfl).2.1
  · rfl

/-- A whole number has no exponent. -/
theorem EndsValue.readExponent (ends : EndsValue rest) :
    readExponent cutOff rest = .ok (none, rest) := by
  cases rest with
  | nil => rfl
  | cons c tail =>
      have other := (ends.head_ne rfl).2.2
      simp [Json.readExponent, other]

/-- Digits come without a sign. -/
theorem numberSign_digits (n : Nat) :
    numberSign (Nat.toDigits 10 n ++ rest) = (false, Nat.toDigits 10 n ++ rest) := by
  cases written : Nat.toDigits 10 n with
  | nil => exact absurd written Nat.toDigits_ne_nil
  | cons c digits =>
      have first : c ∈ Nat.toDigits 10 n := by simp [written]
      have digit := isDigit_of_mem_toDigits first
      unfold numberSign
      split
      · rename_i start
        cases start
        simp [isDigit] at digit
      · rfl

/-- The parts of a written integer are its sign and its digits. -/
theorem EndsValue.readNumberParts (ends : EndsValue rest) (value : Int) :
    readNumberParts cutOff (writeInt value ++ rest) =
      .ok ({ negative := value < 0, whole := Nat.toDigits 10 value.natAbs, fraction := none,
             exponent := none }, rest) := by
  have sign : numberSign (writeInt value ++ rest) =
      (decide (value < 0), Nat.toDigits 10 value.natAbs ++ rest) := by
    unfold writeInt
    split_ifs with negative
    · simp [numberSign, negative]
    · simp [numberSign_digits, negative]
  simp only [Json.readNumberParts, sign, ends.readWhole, ends.readFraction, ends.readExponent]

/-- The integers that keep their value: words with or without a sign. -/
def FitsWord (value : Int) : Prop :=
  Int64.minValue.toInt ≤ value ∧ value < UInt64.size

/-- An integer that fits in a word is read back from its digits. -/
theorem FitsWord.integer? {value : Int} (fits : FitsWord value) :
    NumberParts.integer?
      { negative := value < 0, whole := Nat.toDigits 10 value.natAbs, fraction := none,
        exponent := none } = some value := by
  have magnitude : digitsValue (Nat.toDigits 10 value.natAbs) = value.natAbs :=
    Nat.ofDigitChars_toDigits (by decide) (by decide)
  have least : Int64.minValue.toInt = -(UInt64.size / 2 : Nat) := by decide
  obtain ⟨lower, upper⟩ := fits
  simp only [NumberParts.integer?, magnitude, decide_eq_true_eq]
  split_ifs with negative inside
  · rw [Option.some.injEq]
    omega
  · omega
  · rw [Option.some.injEq]
    omega
  · omega

/-- Reading undoes writing an integer of at most 64 bits. -/
theorem readNumber_written {mode : Mode} {value : Int} (fits : FitsWord value)
    (ends : EndsValue rest) :
    readNumber mode (writeInt value ++ rest) = .ok (.int value, rest) := by
  simp only [readNumber, ends.readNumberParts, numberValue, fits.integer?, Except.map]

/-- A written integer starts with its sign or a digit. -/
theorem writeInt_start (value : Int) :
    ∃ c tail, writeInt value = c :: tail ∧ (c = '-' ∨ isDigit c = true) := by
  unfold writeInt
  split_ifs with negative
  · exact ⟨_, _, rfl, .inl rfl⟩
  · cases written : Nat.toDigits 10 value.natAbs with
    | nil => exact absurd written Nat.toDigits_ne_nil
    | cons c digits =>
        have first : c ∈ Nat.toDigits 10 value.natAbs := by simp [written]
        exact ⟨c, digits, rfl, .inr (isDigit_of_mem_toDigits first)⟩

end Numbers

end FragmentFlow.Json
