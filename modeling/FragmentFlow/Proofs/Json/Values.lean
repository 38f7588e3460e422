import FragmentFlow.Proofs.Json.Tokens

/-!
# Written values are read back

A value without inexact numbers is read back from its one-line form, if as many
arrays and objects may be opened as it nests (`Exact.readValue`).  The text after it
is left as it is, as long as it starts with a mark that ends a value.
-/

namespace FragmentFlow.Json

/-- A scan gives a value and leaves the rest of its text. -/
def Reads {α : Type} {text : List Char} (scan : ScanWithin text α) (value : α)
    (rest : List Char) : Prop :=
  ∃ shorter, scan = .ok (value, ⟨rest, shorter⟩)

/-- A text starts with neither a blank nor the end of an array. -/
def StartsItem (text : List Char) : Prop :=
  ∃ c tail, text = c :: tail ∧ isSpace c = false ∧ c ≠ ']'

/-- The values that keep their numbers: every number is an integer of at most 64
bits. -/
inductive Exact : Json → Prop where
  | null : Exact .null
  | bool (value : Bool) : Exact (.bool value)
  | int {value : Int} (fits : FitsWord value) : Exact (.int value)
  | str (value : String) : Exact (.str value)
  | arr {items : List Json} (each : ∀ item ∈ items, Exact item) : Exact (.arr items)
  | obj {fields : List (String × Json)} (each : ∀ field ∈ fields, Exact field.2) :
      Exact (.obj fields)

section Steps

variable {mode : Mode} {text left next rest tail : List Char} {item value result : Json}

/-- Nothing is skipped before a character that is no space. -/
theorem skipSpaces_cons {c : Char} (shown : isSpace c = false) (tail : List Char) :
    skipSpaces (c :: tail) = c :: tail := by
  simp [skipSpaces, shown]

/-- An item starts a text whatever follows it. -/
theorem StartsItem.append (starts : StartsItem left) (rest : List Char) :
    StartsItem (left ++ rest) := by
  obtain ⟨c, tail, rfl, shown, inside⟩ := starts
  exact ⟨c, tail ++ rest, rfl, shown, inside⟩

/-- A value that is not nested is read as soon as its first character is found. -/
theorem readValue_scalar {c : Char} (shown : isSpace c = false) (notArray : c ≠ '[')
    (notObject : c ≠ '\x7b') (scalar : readScalar mode (c :: tail) = .ok (value, rest)) :
    Reads (readValue mode (c :: tail)) value rest := by
  have skipped := skipSpaces_cons shown tail
  rw [readValue]
  split
  case h_1 start =>
    rw [skipped] at start
    cases start
    exact absurd rfl notArray
  case h_2 start =>
    rw [skipped] at start
    cases start
    exact absurd rfl notObject
  case h_3 =>
    simp only [skipped, scalar]
    exact ⟨_, rfl⟩

/-- A last item ends the array. -/
theorem readItems_last {read : List Json} {inside : left.length < text.length}
    (first : Reads (readValue mode left) item (']' :: rest)) :
    Reads (readItems mode text read left inside) (.arr (read.reverse ++ [item])) rest := by
  obtain ⟨shorter, first⟩ := first
  rw [readItems, first, ← List.reverse_cons]
  exact ⟨_, rfl⟩

/-- Behind a comma the next item is read. -/
theorem readItems_comma {read : List Json} {inside : left.length < text.length}
    (first : Reads (readValue mode left) item (',' :: next)) (starts : StartsItem next)
    (later : ∀ inside, Reads (readItems mode text (item :: read) next inside) result rest) :
    Reads (readItems mode text read left inside) result rest := by
  obtain ⟨shorter, first⟩ := first
  obtain ⟨c, tail, rfl, shown, notClosed⟩ := starts
  have skipped := skipSpaces_cons shown tail
  rw [readItems, first]
  dsimp only
  split
  -- The comma is at hand; of what follows it only the first character is known.
  case h_3 start =>
    cases start
    split
    case h_3 start =>
      rw [skipped] at start
      cases start
      exact later _
    all_goals
      rename_i start
      simp [skipped, notClosed] at start
  case h_4 other => exact absurd rfl (other _)
  all_goals
    rename_i start
    cases start

/-- A last field ends the object. -/
theorem readFields_last {name : String} {read : List (String × Json)}
    {inside : left.length < text.length} (named : readString mode left = .ok (name, ':' :: next))
    (first : Reads (readValue mode next) value ('\x7d' :: rest)) :
    Reads (readFields mode text read left inside) (.obj (read.reverse ++ [(name, value)]))
      rest := by
  obtain ⟨shorter, first⟩ := first
  rw [readFields]
  split
  case h_1 failed => simp [named] at failed
  case h_2 found =>
    rw [named] at found
    cases found
    split
    case h_2 start =>
      cases start
      rw [first, ← List.reverse_cons]
      exact ⟨_, rfl⟩
    case h_3 other => exact absurd rfl (other _)
    case h_1 start => cases start

/-- Behind a comma the next field is read. -/
theorem readFields_comma {name : String} {read : List (String × Json)}
    {inside : left.length < text.length} (named : readString mode left = .ok (name, ':' :: tail))
    (first : Reads (readValue mode tail) value (',' :: '"' :: next))
    (later : ∀ inside,
      Reads (readFields mode text ((name, value) :: read) next inside) result rest) :
    Reads (readFields mode text read left inside) result rest := by
  obtain ⟨shorter, first⟩ := first
  rw [readFields]
  split
  case h_1 failed => simp [named] at failed
  case h_2 found =>
    rw [named] at found
    cases found
    split
    case h_2 start =>
      cases start
      rw [first]
      exact later _
    case h_3 other => exact absurd rfl (other _)
    case h_1 start => cases start

/-- An array is read item by item, one level deeper. -/
theorem readValue_array {room : Nat} (starts : StartsItem next)
    (later : ∀ inside, Reads (readItems (.keep room) ('[' :: next) [] next inside) result rest) :
    Reads (readValue (.keep (room + 1)) ('[' :: next)) result rest := by
  obtain ⟨c, tail, rfl, shown, notClosed⟩ := starts
  have skipped := skipSpaces_cons shown tail
  rw [readValue]
  split
  case h_1 start =>
    cases start
    dsimp only [Mode.enter]
    split
    case h_3 start =>
      rw [skipped] at start
      cases start
      exact later _
    all_goals
      rename_i start
      simp [skipped, notClosed] at start
  case h_2 start => cases start
  case h_3 other _ => exact absurd rfl (other _)

/-- An object is read field by field, one level deeper. -/
theorem readValue_object {room : Nat}
    (later : ∀ inside,
      Reads (readFields (.keep room) ('\x7b' :: '"' :: next) [] next inside) result rest) :
    Reads (readValue (.keep (room + 1)) ('\x7b' :: '"' :: next)) result rest := by
  rw [readValue]
  exact later _

/-- A number starts with nothing that means something else. -/
theorem number_start {c : Char} (number : c = '-' ∨ isDigit c = true) :
    isSpace c = false ∧ c ≠ ']' ∧ c ≠ '[' ∧ c ≠ '\x7b' := by
  refine ⟨?_, ?_, ?_, ?_⟩
  · rw [Bool.eq_false_iff]
    intro space
    simp only [isSpace, Bool.or_eq_true, decide_eq_true_eq] at space
    rcases space with ((rfl | rfl) | rfl) | rfl <;> revert number <;> decide
  all_goals
    rintro rfl
    revert number
    decide

/-- What starts like a number is read as one. -/
theorem readScalar_number {c : Char} (number : c = '-' ∨ isDigit c = true) :
    readScalar mode (c :: tail) = readNumber mode (c :: tail) := by
  unfold readScalar
  split
  case h_5 start =>
    cases start
    rw [if_pos (by simpa using number)]
  case h_6 start => cases start
  all_goals
    rename_i start
    cases start
    simp [isDigit] at number

end Steps

section Texts

variable {rest : List Char}

/-- Items are nested no deeper than a bound if each of them is not. -/
theorem nestingItems_le_iff {items : List Json} {bound : Nat} :
    nestingItems items ≤ bound ↔ ∀ item ∈ items, item.nesting ≤ bound := by
  induction items with
  | nil => simp [nestingItems]
  | cons item items ih => rw [nestingItems, Nat.max_le, ih, List.forall_mem_cons]

/-- Fields are nested no deeper than a bound if each of them is not. -/
theorem nestingFields_le_iff {fields : List (String × Json)} {bound : Nat} :
    nestingFields fields ≤ bound ↔ ∀ field ∈ fields, field.2.nesting ≤ bound := by
  induction fields with
  | nil => simp [nestingFields]
  | cons field fields ih => rw [nestingFields, Nat.max_le, ih, List.forall_mem_cons]

/-- There is room for an array if there is room for its items after it is opened. -/
theorem exists_room_items {items : List Json} {room : Nat}
    (fits : (Json.arr items).nesting ≤ room) :
    ∃ inner, room = inner + 1 ∧ ∀ item ∈ items, item.nesting ≤ inner := by
  rw [nesting] at fits
  obtain ⟨inner, rfl⟩ := Nat.exists_eq_add_one.2 (Nat.zero_lt_of_lt fits)
  exact ⟨inner, rfl, nestingItems_le_iff.1 (Nat.le_of_succ_le_succ fits)⟩

/-- There is room for an object if there is room for its values after it is opened. -/
theorem exists_room_fields {fields : List (String × Json)} {room : Nat}
    (fits : (Json.obj fields).nesting ≤ room) :
    ∃ inner, room = inner + 1 ∧ ∀ field ∈ fields, field.2.nesting ≤ inner := by
  rw [nesting] at fits
  obtain ⟨inner, rfl⟩ := Nat.exists_eq_add_one.2 (Nat.zero_lt_of_lt fits)
  exact ⟨inner, rfl, nestingFields_le_iff.1 (Nat.le_of_succ_le_succ fits)⟩

theorem endsValue_nil : EndsValue [] := by
  simp [EndsValue]

theorem endsValue_writeItems (items : List Json) (rest : List Char) :
    EndsValue (writeItems items ++ rest) := by
  cases items <;> simp [EndsValue, writeItems]

theorem endsValue_writeFields (fields : List (String × Json)) (rest : List Char) :
    EndsValue (writeFields fields ++ rest) := by
  cases fields <;> simp [EndsValue, writeFields]

/-- An array is written as its first item and the rest of them. -/
theorem write_arr_append (item : Json) (items : List Json) (rest : List Char) :
    (Json.arr (item :: items)).write ++ rest =
      '[' :: (item.write ++ (writeItems items ++ rest)) := by
  simp [write]

/-- Further items are written behind commas. -/
theorem writeItems_append (item : Json) (items : List Json) (rest : List Char) :
    writeItems (item :: items) ++ rest = ',' :: (item.write ++ (writeItems items ++ rest)) := by
  simp [writeItems]

/-- A field as it stands in a text after the opening quote of its name. -/
def fieldText (name : String) (value : Json) (rest : List Char) : List Char :=
  name.toList.flatMap escapeChar ++ '"' :: ':' :: (value.write ++ rest)

/-- An object is written as its first field and the rest of them. -/
theorem write_obj_append (name : String) (value : Json) (fields : List (String × Json))
    (rest : List Char) :
    (Json.obj ((name, value) :: fields)).write ++ rest =
      '\x7b' :: '"' :: fieldText name value (writeFields fields ++ rest) := by
  simp [write, writeString, fieldText]

/-- Further fields are written behind commas. -/
theorem writeFields_append (name : String) (value : Json) (fields : List (String × Json))
    (rest : List Char) :
    writeFields ((name, value) :: fields) ++ rest =
      ',' :: '"' :: fieldText name value (writeFields fields ++ rest) := by
  simp [writeFields, writeString, fieldText]

/-- The name of a written field is read back. -/
theorem readString_fieldText {room : Nat} (name : String) (value : Json) (rest : List Char) :
    readString (.keep room) (fieldText name value rest) =
      .ok (name, ':' :: (value.write ++ rest)) :=
  readString_written name _

/-- A written value starts an item. -/
theorem Exact.startsItem {json : Json} (exact : Exact json) : StartsItem json.write := by
  cases exact with
  | null => exact ⟨_, _, rfl, by decide, by decide⟩
  | bool value => cases value <;> exact ⟨_, _, rfl, by decide, by decide⟩
  | str => exact ⟨_, _, rfl, by decide, by decide⟩
  | @int value _ =>
      obtain ⟨c, tail, written, number⟩ := writeInt_start value
      have start := number_start number
      exact ⟨c, tail, by rw [write, written], start.1, start.2.1⟩
  | @arr items _ => cases items <;> exact ⟨_, _, rfl, by decide, by decide⟩
  | @obj fields _ => cases fields <;> exact ⟨_, _, rfl, by decide, by decide⟩

end Texts

section Values

variable {mode : Mode} {text rest : List Char} {room : Nat}

/-- Reading undoes writing the items of an array if it undoes writing each item. -/
theorem readItems_written {first : Json} {items read : List Json}
    (each : ∀ item ∈ first :: items, StartsItem item.write ∧
      ∀ rest, EndsValue rest → Reads (readValue mode (item.write ++ rest)) item rest)
    (inside : (first.write ++ (writeItems items ++ rest)).length < text.length) :
    Reads (readItems mode text read (first.write ++ (writeItems items ++ rest)) inside)
      (.arr (read.reverse ++ first :: items)) rest := by
  have one := (each first List.mem_cons_self).2 _ (endsValue_writeItems items rest)
  induction items generalizing first read with
  | nil => exact readItems_last one
  | cons item items ih =>
      have others := fun other member => each other (List.mem_cons_of_mem first member)
      rw [writeItems_append] at one
      have two := (others item List.mem_cons_self).2 _ (endsValue_writeItems items rest)
      have starts := (others item List.mem_cons_self).1.append (writeItems items ++ rest)
      simp only [writeItems_append]
      refine readItems_comma one starts fun inside => ?_
      rw [List.append_cons, ← List.reverse_cons]
      exact ih others inside two

/-- Reading undoes writing the fields of an object if it undoes writing each value. -/
theorem readFields_written {name : String} {first : Json} {fields read : List (String × Json)}
    (each : ∀ field ∈ (name, first) :: fields, ∀ rest, EndsValue rest →
      Reads (readValue (.keep room) (field.2.write ++ rest)) field.2 rest)
    (inside : (fieldText name first (writeFields fields ++ rest)).length < text.length) :
    Reads (readFields (.keep room) text read (fieldText name first (writeFields fields ++ rest))
      inside) (.obj (read.reverse ++ (name, first) :: fields)) rest := by
  have named : readString (.keep room) (fieldText name first (writeFields fields ++ rest)) = _ :=
    readString_fieldText name first _
  have one := each (name, first) List.mem_cons_self _ (endsValue_writeFields fields rest)
  induction fields generalizing name first read with
  | nil => exact readFields_last named one
  | cons field fields ih =>
      obtain ⟨next, value⟩ := field
      have others := fun other member => each other (List.mem_cons_of_mem (name, first) member)
      rw [writeFields_append] at one
      simp only [writeFields_append] at named ⊢
      refine readFields_comma named one fun inside => ?_
      rw [List.append_cons, ← List.reverse_cons]
      exact ih others inside (readString_fieldText next value _)
        (others (next, value) List.mem_cons_self _ (endsValue_writeFields fields rest))

/-- Reading undoes writing: an exact value is read back from its one-line form, and
what follows it is left. -/
theorem Exact.readValue {json : Json} (exact : Exact json) (fits : json.nesting ≤ room)
    (ends : EndsValue rest) : Reads (readValue (.keep room) (json.write ++ rest)) json rest := by
  induction exact generalizing room rest with
  | null => exact readValue_scalar (by decide) (by decide) (by decide) rfl
  | bool value =>
      cases value <;> exact readValue_scalar (by decide) (by decide) (by decide) rfl
  | str value =>
      have scalar : readScalar (.keep room) ((Json.str value).write ++ rest) =
          .ok (.str value, rest) := by
        rw [write, writeString_append, readScalar, readString_written]
        rfl
      exact readValue_scalar (by decide) (by decide) (by decide) scalar
  | @int value fitsWord =>
      obtain ⟨c, tail, written, number⟩ := writeInt_start value
      have start := number_start number
      have scalar : readNumber (.keep room) (writeInt value ++ rest) = .ok (.int value, rest) :=
        readNumber_written fitsWord ends
      rw [written, List.cons_append, ← readScalar_number number] at scalar
      rw [write, written]
      exact readValue_scalar start.1 start.2.2.1 start.2.2.2 scalar
  | @arr items each ih =>
      obtain ⟨room, rfl, itemFits⟩ := exists_room_items fits
      cases items with
      | nil =>
          rw [write, List.cons_append, Json.readValue]
          exact ⟨_, rfl⟩
      | cons item items =>
          rw [write_arr_append]
          refine readValue_array ((each item List.mem_cons_self).startsItem.append _) fun inside =>
            readItems_written (fun other member => ?_) inside
          exact ⟨(each other member).startsItem,
            fun rest ends => ih other member (itemFits other member) ends⟩
  | @obj fields each ih =>
      obtain ⟨room, rfl, valueFits⟩ := exists_room_fields fits
      cases fields with
      | nil =>
          rw [write, List.cons_append, Json.readValue]
          exact ⟨_, rfl⟩
      | cons field fields =>
          rw [write_obj_append]
          exact readValue_object fun inside => readFields_written
            (fun other member rest ends => ih other member (valueFits other member) ends) inside

end Values

end FragmentFlow.Json
