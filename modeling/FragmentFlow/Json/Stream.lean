import FragmentFlow.Json.Reader
import FragmentFlow.Json.Record

/-!
# Reading shapes while scanning

The outer layers of a document are read while its text is scanned: a value of
the wrong shape is noticed where it stands, before any fault that comes later in
the text.  Arrays and objects are folded over a state, item by item.
-/

namespace FragmentFlow.Json

/-- How something is read from the front of a text when this many more arrays
and objects may be opened. -/
abbrev Reading (α : Type) := (room : Nat) → (text : List Char) → ScanWithin text α

/-- How an item updates a state. -/
abbrev Step (σ : Type) := σ → (text : List Char) → ScanWithin text σ

/-- The error of a value that is not of the shape asked for; a value that is not
nested is read to its end first. -/
def wrongShape (text : List Char) : ReadError :=
  match text with
  | '[' :: _ | '\x7b' :: _ => .mismatched
  | _ =>
    match readScalar (.keep 0) text with
    | .error fault => fault
    | .ok _ => .mismatched

/-- Replaces what was read. -/
def ScanWithin.map {α β : Type} {text : List Char} (f : α → β) (scan : ScanWithin text α) :
    ScanWithin text β :=
  Except.map (fun read => (f read.1, read.2)) scan

/-- Reads a string. -/
def readText : Reading String := fun room text =>
  match start : skipSpaces text with
  | '"' :: rest =>
    (readString (.keep room) rest).within fun found =>
      Nat.lt_trans (length_readString_lt found) (length_lt_of_skipSpaces start)
  | rest => .error (wrongShape rest)

section Items

variable {rest tail after left text : List Char} {mark c : Char}

theorem length_lt_of_item (next : skipSpaces rest = mark :: tail)
    (shorter : rest.length < left.length) (inside : left.length ≤ text.length) :
    tail.length < text.length := by
  have := length_lt_of_skipSpaces next
  omega

theorem length_lt_of_comma (next : skipSpaces rest = mark :: tail)
    (following : skipSpaces tail = c :: after) (shorter : rest.length < left.length) :
    (c :: after).length < left.length := by
  have := length_lt_of_skipSpaces next
  have := length_skipSpaces_le tail
  rw [following] at this
  omega

theorem length_le_of_comma (next : skipSpaces rest = mark :: tail)
    (following : skipSpaces tail = c :: after) (shorter : rest.length < left.length)
    (inside : left.length ≤ text.length) : (c :: after).length ≤ text.length := by
  have := length_lt_of_comma next following shorter
  omega

theorem length_lt_of_closed (first : skipSpaces text = ']' :: tail) : tail.length < text.length :=
  length_lt_of_skipSpaces first

theorem length_le_of_first (first : skipSpaces text = c :: tail) :
    (c :: tail).length ≤ text.length :=
  first ▸ length_skipSpaces_le text

end Items

/-- Folds the items of an array; the text that is left starts with an item.  No
comma may follow once the state is full. -/
def foldItems {σ : Type} (full : σ → Bool) (step : Step σ) (text : List Char) (state : σ)
    (left : List Char) (inside : left.length ≤ text.length) : ScanWithin text σ :=
  match step state left with
  | .error fault => .error fault
  | .ok (state, ⟨rest, shorter⟩) =>
    match next : skipSpaces rest with
    | [] => .error .truncated
    | ']' :: tail => .ok (state, ⟨tail, length_lt_of_item next shorter inside⟩)
    | ',' :: tail =>
      if full state then .error .malformed
      else
        match following : skipSpaces tail with
        | [] => .error .truncated
        | ']' :: _ => .error .malformed
        | c :: tail' =>
          foldItems full step text state (c :: tail')
            (length_le_of_comma next following shorter inside)
    | _ => .error .malformed
termination_by left.length
decreasing_by exact length_lt_of_comma next following shorter

/-- Folds an array after its opening bracket. -/
def foldArray {σ : Type} (full : σ → Bool) (step : Step σ) (state : σ) (text : List Char) :
    ScanWithin text σ :=
  match first : skipSpaces text with
  | [] => .error .truncated
  | ']' :: tail => .ok (state, ⟨tail, length_lt_of_closed first⟩)
  | c :: tail =>
    foldItems full step text state (c :: tail) (length_le_of_first first)

/-- Reads the colon after a name, then a value. -/
def readAfterColon {α : Type} (value : (text : List Char) → ScanWithin text α)
    (text : List Char) : ScanWithin text α :=
  match colon : skipSpaces text with
  | [] => .error .truncated
  | ':' :: rest =>
    match value rest with
    | .error fault => .error fault
    | .ok (result, ⟨rest', shorter⟩) =>
      .ok (result, ⟨rest', Nat.lt_trans shorter (length_lt_of_skipSpaces colon)⟩)
  | _ => .error .malformed

/-- Folds the fields of an object; the text that is left starts inside the quotes
of a name.  The step is given the name and the text after it. -/
def foldFields {σ : Type} (step : String → Step σ) (text : List Char) (state : σ)
    (left : List Char) (inside : left.length < text.length) : ScanWithin text σ :=
  match named : readString (.keep 0) left with
  | .error fault => .error fault
  | .ok (name, afterName) =>
    have nameShorter := length_readString_lt named
    match step name state afterName with
    | .error fault => .error fault
    | .ok (state, ⟨rest, shorter⟩) =>
      match next : skipSpaces rest with
      | [] => .error .truncated
      | '\x7d' :: tail =>
        have := length_lt_of_skipSpaces next
        .ok (state, ⟨tail, by omega⟩)
      | ',' :: tail =>
        match following : skipSpaces tail with
        | [] => .error .truncated
        | '"' :: tail' =>
          have less : tail'.length < left.length := by
            have := length_lt_of_skipSpaces next
            have := length_lt_of_skipSpaces following
            omega
          foldFields step text state tail' (by omega)
        | _ => .error .malformed
      | _ => .error .malformed
termination_by left.length

/-- Folds an object after its opening brace. -/
def foldObject {σ : Type} (step : String → Step σ) (state : σ) (text : List Char) :
    ScanWithin text σ :=
  match first : skipSpaces text with
  | [] => .error .truncated
  | '\x7d' :: tail => .ok (state, ⟨tail, length_lt_of_skipSpaces first⟩)
  | '"' :: tail => foldFields step text state tail (length_lt_of_skipSpaces first)
  | _ => .error .malformed

/-- Reads a value by what its first character opens; an array or an object takes
one of the places for nesting. -/
def readOpened {α : Type} (array object : Option (Reading α)) : Reading α := fun room text =>
  match start : skipSpaces text with
  | '[' :: rest =>
    match array, room with
    | none, _ => .error .mismatched
    | some _, 0 => .error .malformed
    | some read, room + 1 =>
      match read room rest with
      | .error fault => .error fault
      | .ok (value, ⟨rest', shorter⟩) =>
        .ok (value, ⟨rest', Nat.lt_trans shorter (length_lt_of_skipSpaces start)⟩)
  | '\x7b' :: rest =>
    match object, room with
    | none, _ => .error .mismatched
    | some _, 0 => .error .malformed
    | some read, room + 1 =>
      match read room rest with
      | .error fault => .error fault
      | .ok (value, ⟨rest', shorter⟩) =>
        .ok (value, ⟨rest', Nat.lt_trans shorter (length_lt_of_skipSpaces start)⟩)
  | rest => .error (wrongShape rest)

/-- Reads a list. -/
def readList {α : Type} (item : Reading α) : Reading (List α) :=
  readOpened
    (some fun room text =>
      (foldArray (fun _ => false) (fun read text => (item room text).map (· :: read)) [] text).map
        List.reverse)
    none

/-- A field of a record that is read while scanning. -/
structure RecordField (σ : Type) where
  name : String
  /-- Whether the field was given before. -/
  given : σ → Bool
  read : (room : Nat) → Step σ

/-- Reads a record: an object of its fields, where unknown fields are skipped and
no known field is repeated, or an array of its fields in order. -/
def readRecord {σ : Type} (fields : List (RecordField σ)) (start : σ) : Reading σ :=
  readOpened
    (some fun room text =>
      (foldArray (fun state => state.2.isEmpty)
        (fun state text =>
          match state.2 with
          | [] => .error .malformed
          | field :: later => (field.read room state.1 text).map fun read => (read, later))
        (start, fields) text).map Prod.fst)
    (some fun room text =>
      foldObject
        (fun name state text =>
          match fields.find? fun field => field.name == name with
          | none => (readAfterColon (readValue .skip) text).map fun _ => state
          | some field =>
            if field.given state then .error .mismatched
            else readAfterColon (field.read room state) text)
        start text)

/-- Reads the tag of a form. -/
def readTag (forms : List String) : Reading String := fun room text =>
  match readText room text with
  | .error fault => .error fault
  | .ok (word, rest) => if forms.contains word then .ok (word, rest) else .error .mismatched

/-- A tagged form as far as it is read: its tag and its contents, last one first. -/
structure Draft (α : Type) where
  form : Option String := none
  read : List α := []

/-- The form and contents of a tagged value, if its tag was read. -/
def Draft.finish {α : Type} (contents : List α → Contents) (state : Draft α) :
    Except ReadError (String × Contents) :=
  match state.form with
  | none => .error .mismatched
  | some form => .ok (form, contents state.read.reverse)

/-- Reads a tagged form.  Its tag is judged where it stands; all other contents
are kept as values. -/
def readTagged (tag : String) (forms : List String) : Reading (String × Contents) :=
  readOpened
    (some fun room text =>
      let items := foldArray (fun _ => false)
        (fun (state : Draft Json) text =>
          match state.form with
          | none => (readTag forms room text).map fun form => { state with form := some form }
          | some _ =>
            (readValue (.keep room) text).map fun item =>
              { state with read := item :: state.read })
        {} text
      match items with
      | .error fault => .error fault
      | .ok (state, rest) => (state.finish .positional).map fun tagged => (tagged, rest))
    (some fun room text =>
      let fields := foldObject
        (fun name (state : Draft (String × Json)) text =>
          if name == tag then
            if state.form.isSome then .error .mismatched
            else
              (readAfterColon (readTag forms room) text).map fun form =>
                { state with form := some form }
          else
            (readAfterColon (readValue (.keep room)) text).map fun value =>
              { state with read := (name, value) :: state.read })
        {} text
      match fields with
      | .error fault => .error fault
      | .ok (state, rest) => (state.finish .named).map fun tagged => (tagged, rest))

end FragmentFlow.Json
