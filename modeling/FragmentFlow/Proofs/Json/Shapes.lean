import FragmentFlow.Json.Stream
import FragmentFlow.Proofs.Json.Values

/-!
# Written shapes are accepted

A reading accepts a value if it gives the same result wherever the one-line form of
the value stands (`Accepts`).  Strings, lists, records and tagged forms that are read
while their text is scanned accept what is written for them.  Folding the fields of
an object is a run over its state, one step per field (`FieldRun`).
-/

namespace FragmentFlow.Json

/-- A reading gives a result for every text that starts with the one-line form of a
value, if as many arrays and objects may be opened as the value nests. -/
structure Accepts {α : Type} (reading : Reading α) (json : Json) (result : α) : Prop where
  starts : StartsItem json.write
  reads : ∀ {room : Nat} {rest : List Char}, json.nesting ≤ room → EndsValue rest →
    Reads (reading room (json.write ++ rest)) result rest

section Readings

variable {α β : Type} {text next rest : List Char} {room : Nat} {json : Json} {value : α}

/-- What is read may be converted. -/
theorem Reads.map {scan : ScanWithin text α} (read : Reads scan value rest) (f : α → β) :
    Reads (scan.map f) (f value) rest := by
  obtain ⟨shorter, rfl⟩ := read
  exact ⟨shorter, rfl⟩

/-- What is accepted may be converted. -/
theorem Accepts.map {reading : Reading α} (accepts : Accepts reading json value) (f : α → β) :
    Accepts (fun room text => (reading room text).map f) json (f value) where
  starts := accepts.starts
  reads fits ends := (accepts.reads fits ends).map f

/-- Reading a value as it is accepts the value. -/
theorem Exact.accepts (exact : Exact json) :
    Accepts (fun room => Json.readValue (.keep room)) json json where
  starts := exact.startsItem
  reads := exact.readValue

theorem accepts_readText (content : String) : Accepts readText (.str content) content where
  starts := (Exact.str content).startsItem
  reads {room rest} _ _ := by
    rw [write, writeString_append, readText]
    split
    case h_1 start =>
      cases start
      simp only [readString_written]
      exact ⟨_, rfl⟩
    case h_2 other => exact absurd rfl (other _)

theorem readAfterColon_reads {read : (text : List Char) → ScanWithin text α}
    (found : Reads (read next) value rest) :
    Reads (readAfterColon read (':' :: next)) value rest := by
  obtain ⟨shorter, found⟩ := found
  unfold readAfterColon
  split
  case h_1 start => cases start
  case h_2 start =>
    cases start
    rw [found]
    exact ⟨_, rfl⟩
  case h_3 other => exact absurd rfl (other _)

theorem readOpened_array {array : Reading α} {object : Option (Reading α)}
    (found : Reads (array room next) value rest) :
    Reads (readOpened (some array) object (room + 1) ('[' :: next)) value rest := by
  obtain ⟨shorter, found⟩ := found
  unfold readOpened
  split
  case h_1 start =>
    cases start
    dsimp only
    rw [found]
    exact ⟨_, rfl⟩
  case h_2 start => cases start
  case h_3 other _ => exact absurd rfl (other _)

theorem readOpened_object {array : Option (Reading α)} {object : Reading α}
    (found : Reads (object room next) value rest) :
    Reads (readOpened array (some object) (room + 1) ('\x7b' :: next)) value rest := by
  obtain ⟨shorter, found⟩ := found
  unfold readOpened
  split
  case h_1 start => cases start
  case h_2 start =>
    cases start
    dsimp only
    rw [found]
    exact ⟨_, rfl⟩
  case h_3 _ other => exact absurd rfl (other _)

end Readings

section Lists

variable {α σ : Type} {full : σ → Bool} {step : Step σ} {state middle final : σ}
  {text left next rest : List Char}

theorem foldItems_last {inside : left.length ≤ text.length}
    (first : Reads (step state left) final (']' :: rest)) :
    Reads (foldItems full step text state left inside) final rest := by
  obtain ⟨shorter, first⟩ := first
  rw [foldItems, first]
  exact ⟨_, rfl⟩

theorem foldItems_comma {inside : left.length ≤ text.length}
    (first : Reads (step state left) middle (',' :: next)) (notFull : full middle = false)
    (starts : StartsItem next)
    (later : ∀ inside, Reads (foldItems full step text middle next inside) final rest) :
    Reads (foldItems full step text state left inside) final rest := by
  obtain ⟨shorter, first⟩ := first
  obtain ⟨c, tail, rfl, shown, notClosed⟩ := starts
  have skipped := skipSpaces_cons shown tail
  rw [foldItems, first]
  dsimp only
  split
  case h_3 start =>
    cases start
    rw [if_neg (by simp [notFull])]
    split
    case h_3 start =>
      rw [skipped] at start
      cases start
      exact later _
    all_goals
      rename_i start
      simp [skipped, notClosed] at start
  case h_4 other => exact absurd rfl (other _)
  all_goals
    rename_i start
    cases start

theorem foldArray_items (starts : StartsItem text)
    (later : ∀ inside, Reads (foldItems full step text state text inside) final rest) :
    Reads (foldArray full step state text) final rest := by
  obtain ⟨c, tail, rfl, shown, notClosed⟩ := starts
  have skipped := skipSpaces_cons shown tail
  unfold foldArray
  split
  case h_3 start =>
    rw [skipped] at start
    cases start
    exact later _
  all_goals
    rename_i start
    simp [skipped, notClosed] at start

variable {item : Reading α} {encode : α → Json} {room : Nat}

/-- Items are collected last one first. -/
theorem foldItems_written (each : ∀ value, Accepts item (encode value) value) {first : α}
    {values : List α} (read : List α)
    (fits : ∀ value ∈ first :: values, (encode value).nesting ≤ room)
    (inside : ((encode first).write ++ (writeItems (values.map encode) ++ rest)).length ≤
      text.length) :
    Reads (foldItems (fun _ => false) (fun read text => (item room text).map (· :: read)) text read
      ((encode first).write ++ (writeItems (values.map encode) ++ rest)) inside)
      (values.reverse ++ first :: read) rest := by
  have one := ((each first).reads (fits first List.mem_cons_self)
    (endsValue_writeItems (values.map encode) rest)).map (· :: read)
  induction values generalizing first read with
  | nil => exact foldItems_last one
  | cons value values ih =>
      have otherFits := fun other member => fits other (List.mem_cons_of_mem first member)
      have two := (each value).reads (otherFits value List.mem_cons_self)
        (endsValue_writeItems (values.map encode) rest)
      rw [List.map_cons, writeItems_append] at one
      simp only [List.map_cons, writeItems_append, List.reverse_cons, List.append_assoc,
        List.singleton_append]
      refine foldItems_comma one rfl ((each value).starts.append _) fun inside => ?_
      exact ih (first :: read) otherFits inside (two.map _)

/-- A list accepts an array of what its items accept. -/
theorem accepts_readList (each : ∀ value, Accepts item (encode value) value) (values : List α) :
    Accepts (readList item) (.arr (values.map encode)) values where
  starts := by cases values <;> exact ⟨_, _, rfl, by decide, by decide⟩
  reads {room rest} fits ends := by
    obtain ⟨room, rfl, itemFits⟩ := exists_room_items fits
    rw [List.forall_mem_map] at itemFits
    cases values with
    | nil => exact readOpened_array ⟨_, rfl⟩
    | cons first values =>
        rw [List.map_cons, write_arr_append]
        have starts := (each first).starts.append (writeItems (values.map encode) ++ rest)
        have items := foldArray_items starts fun inside => foldItems_written each [] itemFits inside
        have found := items.map List.reverse
        rw [List.reverse_append, List.reverse_reverse, List.reverse_singleton] at found
        exact readOpened_array found

end Lists

section Records

variable {σ : Type} {step : String → Step σ} {state middle final : σ}
  {text left next rest : List Char} {name : String}

/-- A run of steps over written fields, from one state to another. -/
inductive FieldRun (step : String → Step σ) : σ → List (String × Json) → σ → Prop where
  | nil (state : σ) : FieldRun step state [] state
  | cons {state middle final : σ} {name : String} {value : Json} {fields : List (String × Json)}
      (first : ∀ {rest}, EndsValue rest →
        Reads (step name state (':' :: (value.write ++ rest))) middle rest)
      (later : FieldRun step middle fields final) :
      FieldRun step state ((name, value) :: fields) final

theorem foldFields_last {inside : left.length < text.length}
    (named : readString (.keep 0) left = .ok (name, next))
    (first : Reads (step name state next) final ('\x7d' :: rest)) :
    Reads (foldFields step text state left inside) final rest := by
  obtain ⟨shorter, first⟩ := first
  rw [foldFields]
  split
  case h_1 failed => simp [named] at failed
  case h_2 found =>
    rw [named] at found
    cases found
    rw [first]
    exact ⟨_, rfl⟩

theorem foldFields_comma {inside : left.length < text.length} {tail : List Char}
    (named : readString (.keep 0) left = .ok (name, tail))
    (first : Reads (step name state tail) middle (',' :: '"' :: next))
    (later : ∀ inside, Reads (foldFields step text middle next inside) final rest) :
    Reads (foldFields step text state left inside) final rest := by
  obtain ⟨shorter, first⟩ := first
  rw [foldFields]
  split
  case h_1 failed => simp [named] at failed
  case h_2 found =>
    rw [named] at found
    cases found
    rw [first]
    exact later _

/-- A run through some fields is a reading of their text. -/
theorem FieldRun.foldFields {value : Json} {fields : List (String × Json)}
    (run : FieldRun step state ((name, value) :: fields) final)
    (inside : (fieldText name value (writeFields fields ++ rest)).length < text.length) :
    Reads (foldFields step text state (fieldText name value (writeFields fields ++ rest)) inside)
      final rest := by
  induction fields generalizing state name value with
  | nil =>
      obtain _ | ⟨first, ⟨⟩⟩ := run
      exact foldFields_last (readString_fieldText name value _)
        (first (endsValue_writeFields [] rest))
  | cons field fields ih =>
      obtain _ | ⟨first, later⟩ := run
      obtain ⟨second, other⟩ := field
      have one := first (endsValue_writeFields ((second, other) :: fields) rest)
      rw [writeFields_append] at one
      simp only [writeFields_append]
      exact foldFields_comma (readString_fieldText name value _) one fun inside => ih later inside

/-- A run through the fields of an object is a reading of it. -/
theorem FieldRun.foldObject {value : Json} {fields : List (String × Json)}
    (run : FieldRun step state ((name, value) :: fields) final) :
    Reads (foldObject step state ('"' :: fieldText name value (writeFields fields ++ rest)))
      final rest :=
  run.foldFields _

variable {α : Type} {value : Json} {fields : List (String × Json)} {result : α}

/-- An object is accepted if folding its fields is, with one place less for nesting. -/
theorem accepts_readOpened {array : Option (Reading α)} {object : Reading α}
    (reads : ∀ {room rest}, (∀ field ∈ (name, value) :: fields, field.2.nesting ≤ room) →
      Reads (object room ('"' :: fieldText name value (writeFields fields ++ rest))) result rest) :
    Accepts (readOpened array (some object)) (.obj ((name, value) :: fields)) result where
  starts := ⟨_, _, rfl, by decide, by decide⟩
  reads {room rest} fits ends := by
    obtain ⟨room, rfl, valueFits⟩ := exists_room_fields fits
    rw [write_obj_append]
    exact readOpened_object (reads valueFits)

/-- A run over the written fields of a record: each is known, given for the first
time, and accepted. -/
inductive RecordRun (known : List (RecordField σ)) : σ → List (String × Json) → σ → Prop where
  | nil (state : σ) : RecordRun known state [] state
  | cons {state middle final : σ} {field : RecordField σ} {name : String} {value : Json}
      {fields : List (String × Json)}
      (found : known.find? (fun field => field.name == name) = some field)
      (fresh : field.given state = false)
      (first : Accepts (fun room => field.read room state) value middle)
      (later : RecordRun known middle fields final) :
      RecordRun known state ((name, value) :: fields) final

/-- A record accepts an object of its fields. -/
theorem RecordRun.accepts {known : List (RecordField σ)}
    (run : RecordRun known state ((name, value) :: fields) final) :
    Accepts (readRecord known state) (.obj ((name, value) :: fields)) final := by
  refine accepts_readOpened fun {room rest} fits => FieldRun.foldObject ?_
  generalize (name, value) :: fields = written at run fits
  induction run with
  | nil state => exact .nil state
  | cons found fresh first later ih =>
      refine .cons (fun {rest} ends => ?_) (ih fun other member => fits other (.tail _ member))
      simp only [found, fresh]
      exact readAfterColon_reads (first.reads (fits _ List.mem_cons_self) ends)

theorem accepts_readTag {forms : List String} {form : String} (member : form ∈ forms) :
    Accepts (readTag forms) (.str form) form where
  starts := (accepts_readText form).starts
  reads {room rest} fits ends := by
    obtain ⟨shorter, read⟩ := (accepts_readText form).reads fits ends
    rw [readTag, read]
    exact ⟨shorter, if_pos (List.contains_iff_mem.2 member)⟩

/-- Contents that are kept one by one are collected last one first. -/
theorem FieldRun.collect {step : String → Step (Draft (String × Json))} {form : Option String}
    (read : List (String × Json))
    (each : ∀ field ∈ fields, ∀ read {rest}, EndsValue rest →
      Reads (step field.1 { form, read } (':' :: (field.2.write ++ rest)))
        { form, read := field :: read } rest) :
    FieldRun step { form, read } fields { form, read := fields.reverse ++ read } := by
  induction fields generalizing read with
  | nil => exact .nil _
  | cons field fields ih =>
      rw [List.reverse_cons, List.append_assoc, List.singleton_append]
      exact .cons (each field List.mem_cons_self read)
        (ih (field :: read) fun other member => each other (.tail field member))

/-- A tagged form accepts an object that starts with its tag; its other fields are
kept in their order. -/
theorem accepts_readTagged {tag form : String} {forms : List String} (member : form ∈ forms)
    (untagged : ∀ field ∈ fields, field.1 ≠ tag) (exact : ∀ field ∈ fields, Exact field.2) :
    Accepts (readTagged tag forms) (.obj ((tag, .str form) :: fields)) (form, .named fields) := by
  refine accepts_readOpened fun {room rest} fits => ?_
  dsimp only
  generalize outcome : foldObject _ _ _ = scan
  have folded : Reads scan { form := some form, read := fields.reverse ++ [] } rest := by
    rw [← outcome]
    refine FieldRun.foldObject (.cons (fun {rest} ends => ?_)
      (FieldRun.collect [] fun field isField read rest ends => ?_))
    · have tagFits := fits _ List.mem_cons_self
      have tagged := readAfterColon_reads ((accepts_readTag member).reads tagFits ends)
      simp only [beq_self_eq_true, Option.isSome_none, Bool.false_eq_true, ↓reduceIte]
      exact tagged.map _
    · have valueFits := fits field (.tail _ isField)
      have kept := readAfterColon_reads ((exact field isField).accepts.reads valueFits ends)
      simp only [beq_iff_eq, untagged field isField, ↓reduceIte]
      exact kept.map _
  obtain ⟨shorter, rfl⟩ := folded
  exact ⟨shorter, by simp [Draft.finish, Except.map]⟩

end Records

end FragmentFlow.Json
