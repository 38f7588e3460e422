import FragmentFlow.Json.Record
import FragmentFlow.Proofs.Json.Shapes
import Mathlib.Data.List.Forall2

/-!
# The slots of written records

A record that is written as an object with distinct names fills one slot per field
(`Contents.slots?_named`).  `Decodes` says that a value has a meaning and can be read
back from its text; lists and optional values have theirs from their parts.
-/

namespace FragmentFlow.Json

variable {α : Type}

namespace Contents

variable {fields : List (String × Json)}

/-- A field that is there once is in the slot of its name. -/
theorem namedSlot?_of_filter {name : String} {value : Json}
    (found : fields.filter (fun field => field.1 == name) = [(name, value)])
    (below : value.size < (named fields).bound) :
    namedSlot? fields name = some (some ⟨value, below⟩) := by
  unfold namedSlot?
  split
  case h_1 none => simp [found] at none
  case h_2 one =>
    rw [found] at one
    cases one
    rfl
  case h_3 other => exact absurd found (other _)

theorem size_lt_bound (field : String × Json) (member : field ∈ fields) :
    field.2.size < (named fields).bound :=
  Nat.lt_succ_of_le (size_le_sizeFields member)

/-- Among distinct names every field is the only one of its name. -/
theorem filter_name_of_nodup (distinct : (fields.map Prod.fst).Nodup) {field : String × Json}
    (member : field ∈ fields) : fields.filter (fun other => other.1 == field.1) = [field] := by
  induction fields with
  | nil => simp at member
  | cons head fields ih =>
      rw [List.map_cons, List.nodup_cons] at distinct
      rcases List.mem_cons.1 member with rfl | later
      · have others : fields.filter (fun other => other.1 == field.1) = [] := by
          rw [List.filter_eq_nil_iff]
          intro other isOther same
          exact distinct.1 (List.mem_map.2 ⟨other, isOther, beq_iff_eq.1 same⟩)
        rw [List.filter_cons_of_pos (by simp), others]
      · have differs : head.1 ≠ field.1 := fun same =>
          distinct.1 (same ▸ List.mem_map_of_mem later)
        rw [List.filter_cons_of_neg (by simpa using differs), ih distinct.2 later]

/-- Each of some fields with distinct names fills its slot. -/
theorem mapM_namedSlot? (distinct : (fields.map Prod.fst).Nodup) {part : List (String × Json)}
    (within : ∀ field ∈ part, field ∈ fields) :
    (part.map Prod.fst).mapM (namedSlot? fields) =
      some (part.pmap (fun field below => some ⟨field.2, below⟩) fun field member =>
        size_lt_bound field (within field member)) := by
  induction part with
  | nil => rfl
  | cons field part ih =>
      have member := within field List.mem_cons_self
      have slot := namedSlot?_of_filter (filter_name_of_nodup distinct member)
        (size_lt_bound field member)
      have slots := ih fun other isOther => within other (.tail field isOther)
      rw [List.map_cons, List.mapM_cons, slot, slots]
      rfl

/-- Fields with distinct names fill the slots of a record that declares them in their
order. -/
@[simp] theorem slots?_named {names : List String} (same : fields.map Prod.fst = names)
    (distinct : names.Nodup) :
    (named fields).slots? names =
      some (fields.pmap (fun field below => some ⟨field.2, below⟩) size_lt_bound) := by
  subst same
  exact mapM_namedSlot? distinct fun _ member => member

/-- A default does not matter to a value that is there. -/
@[simp] theorem withDefault_some {contents : Contents} (default : α)
    (decode : Below contents.bound → Option α) (value : Below contents.bound) :
    contents.withDefault default decode (some value) = decode value :=
  rfl

end Contents

section Decoding

variable {decode : Json → Option α} {json : Json} {items : List Json} {value : α}
  {values : List α} {bound : Nat}

/-- The items of an array, each with its meaning. -/
def list? (decode : Json → Option α) (json : Json) : Option (List α) :=
  json.items?.bind fun items => items.mapM decode

/-- Items are decoded for what they are, whatever is known about their sizes. -/
@[simp] theorem listOf?_eq :
    (listOf? fun value : Below bound => decode value.1) = fun value => value.1.list? decode := by
  funext ⟨json, below⟩
  cases json with
  | arr items =>
      simp only [listOf?, Below.items?, list?, items?, Option.bind_some]
      rw [List.mapM_subtype fun _ _ => rfl, List.unattach, List.map_map]
      exact congrArg _ items.attach_map_subtype_val
  | _ => rfl

/-- A value has a meaning and is read back from its text. -/
structure Decodes (decode : Json → Option α) (json : Json) (value : α) : Prop where
  exact : Exact json
  decodes : decode json = some value

/-- A list is decoded item by item. -/
theorem Decodes.list (each : List.Forall₂ (Decodes decode) items values) :
    Decodes (list? decode) (.arr items) values where
  exact := by
    refine .arr ?_
    induction each with
    | nil => simp
    | cons first _ ih => exact List.forall_mem_cons.2 ⟨first.exact, ih⟩
  decodes := by
    rw [list?, items?, Option.bind_some]
    induction each with
    | nil => rfl
    | cons first _ ih =>
        rw [List.mapM_cons, first.decodes, ih]
        rfl

/-- A mapped list is decoded item by item. -/
theorem Decodes.list_map {encode : α → Json}
    (each : ∀ value, Decodes decode (encode value) value) (values : List α) :
    Decodes (list? decode) (.arr (values.map encode)) values := by
  refine .list ?_
  rw [List.forall₂_map_left_iff]
  exact List.forall₂_same.2 fun value _ => each value

/-- A value that may be absent is written as `null` if it is. -/
inductive DecodesOption (decode : Json → Option α) : Json → Option α → Prop where
  | absent : DecodesOption decode .null none
  | present {json : Json} {value : α} (written : json ≠ .null)
      (present : Decodes decode json value) : DecodesOption decode json (some value)

/-- A value that may be missing is exact. -/
theorem DecodesOption.exact {value : Option α} (option : DecodesOption decode json value) :
    Exact json := by
  cases option with
  | absent => exact .null
  | present _ present => exact present.exact

/-- A value that may be missing is decoded from its slot. -/
theorem DecodesOption.optional {contents : Contents} {value : Option α}
    (option : DecodesOption decode json value) (below : json.size < contents.bound) :
    contents.optional (fun value => decode value.1) (some ⟨json, below⟩) = some value := by
  cases option with
  | absent => rfl
  | present written present =>
      unfold Contents.optional
      split
      case h_1 none => cases none
      case h_2 isNull =>
        cases isNull
        exact absurd rfl written
      case h_3 found =>
        cases found
        simp only [present.decodes, Option.map_some]

end Decoding

/-- A value is written as a form that has a meaning: an object of its tag and of
fields that are exact. -/
inductive FormOf (tag : String) (forms : List String) (meaning : String → Contents → Option α) :
    Json → α → Prop where
  | intro {form : String} {fields : List (String × Json)} {value : α} (member : form ∈ forms)
      (untagged : ∀ field ∈ fields, field.1 ≠ tag) (exact : ∀ field ∈ fields, Exact field.2)
      (meant : meaning form (.named fields) = some value) :
      FormOf tag forms meaning (.obj ((tag, .str form) :: fields)) value

namespace FormOf

variable {tag : String} {forms : List String} {meaning : String → Contents → Option α} {json : Json}
  {value : α}

/-- What has a form is exact. -/
theorem exact_json (written : FormOf tag forms meaning json value) : Exact json := by
  obtain ⟨member, untagged, exact, meant⟩ := written
  exact .obj (List.forall_mem_cons.2 ⟨.str _, exact⟩)

/-- What has a form is there. -/
theorem ne_null (written : FormOf tag forms meaning json value) : json ≠ .null := by
  rintro rfl
  cases written

/-- What has a form has its tag and its contents. -/
theorem tagged? (written : FormOf tag forms meaning json value) :
    ∃ form contents, json.tagged? tag forms = some (form, contents) ∧
      meaning form contents.1 = some value := by
  obtain ⟨member, untagged, exact, meant⟩ := written
  rename_i form fields
  have isForm : formOf? forms (.str form) = some form := if_pos (List.contains_iff_mem.2 member)
  have tagOnly : ((tag, Json.str form) :: fields).filter (fun field => field.1 == tag) =
      [(tag, .str form)] := by
    rw [List.filter_cons_of_pos (by simp), List.filter_eq_nil_iff.2]
    exact fun field isField => by simpa using untagged field isField
  have others : ((tag, Json.str form) :: fields).filter (fun field => field.1 != tag) = fields := by
    rw [List.filter_cons_of_neg (by simp), List.filter_eq_self]
    exact fun field isField => by simpa using untagged field isField
  refine ⟨form, ⟨.named (((tag, .str form) :: fields).filter fun field => field.1 != tag), ?_⟩,
    ?_, by simp only [others, meant]⟩
  · rw [others]
    simp only [Contents.bound, size, sizeFields]
    omega
  · simp only [Json.tagged?, tagOnly, isForm, Option.map_some]

end FormOf

end FragmentFlow.Json
