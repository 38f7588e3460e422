import FragmentFlow.Json.Value

/-!
# Records and tagged forms in JSON

A record is written as an object of its fields or as an array of them in the
order of their declaration.  A tagged form is a record with one more field that
says which form it is; as an array it starts with the tag.

Slots are the values found for the fields of a record.  They come with the fact
that they are smaller than the record, on which decoders recur.
-/

namespace FragmentFlow.Json

/-- The contents of a record: its fields by name or by position. -/
inductive Contents where
  | named (fields : List (String × Json))
  | positional (items : List Json)

/-- A value below a size. -/
abbrev Below (bound : Nat) := { value : Json // value.size < bound }

/-- The value found for a field, if there is one. -/
abbrev Slot (bound : Nat) := Option (Below bound)

/-- The items of an array below a size. -/
def Below.items? {bound : Nat} (value : Below bound) : Option (List (Below bound)) :=
  match value with
  | ⟨arr items, below⟩ =>
    some (items.attach.map fun item =>
      ⟨item.1, by
        have := size_le_sizeItems item.2
        simp only [size] at below
        omega⟩)
  | _ => none

/-- A list below a size, read item by item. -/
def listOf? {α : Type} {bound : Nat} (decode : Below bound → Option α) (value : Below bound) :
    Option (List α) :=
  value.items?.bind fun items => items.mapM decode

namespace Contents

/-- A size above the sizes of all values in the contents. -/
def bound : Contents → Nat
  | named fields => sizeFields fields + 1
  | positional items => sizeItems items + 1

/-- The slot of a field given by name; none of its values may be repeated. -/
def namedSlot? (fields : List (String × Json)) (name : String) :
    Option (Slot (named fields).bound) :=
  match found : fields.filter (fun field => field.1 == name) with
  | [] => some none
  | [field] => some (some ⟨field.2, by
      have member : field ∈ fields.filter (fun field => field.1 == name) := by simp [found]
      have := size_le_sizeFields (List.mem_filter.1 member).1
      simp only [bound]
      omega⟩)
  | _ => none

/-- The slots of a record with the given fields.  There are none if a field is
given twice or if there are more items than fields. -/
def slots? (contents : Contents) (names : List String) : Option (List (Slot contents.bound)) :=
  match contents with
  | named fields => names.mapM (namedSlot? fields)
  | positional items =>
    if items.length ≤ names.length then
      some (items.attach.map (fun item => some ⟨item.1, by
          have := size_le_sizeItems item.2
          simp only [bound]
          omega⟩) ++
        List.replicate (names.length - items.length) none)
    else none

/-- Whether the fields are given by position. -/
def isPositional : Contents → Bool
  | named _ => false
  | positional _ => true

/-- An optional field: absent or `null` when given by name, but always present
when given by position. -/
def optional {α : Type} (contents : Contents) (decode : Below contents.bound → Option α)
    (slot : Slot contents.bound) : Option (Option α) :=
  match slot with
  | none => if contents.isPositional then none else some none
  | some ⟨null, _⟩ => some none
  | some value => (decode value).map some

/-- A field that has a value when it is left out. -/
def withDefault {α : Type} {contents : Contents} (default : α)
    (decode : Below contents.bound → Option α) (slot : Slot contents.bound) : Option α :=
  match slot with
  | none => some default
  | some value => decode value

end Contents

/-- The contents of a record that has no tag. -/
def contents? (value : Json) : Option { contents : Contents // contents.bound ≤ value.size } :=
  match value with
  | obj fields => some ⟨.named fields, by simp [Contents.bound, size]⟩
  | arr items => some ⟨.positional items, by simp [Contents.bound, size]⟩
  | _ => none

/-- The form that a tag names, by its word or by its position among the forms. -/
def formOf? (forms : List String) : Json → Option String
  | str word => if forms.contains word then some word else none
  | int index => if 0 ≤ index then forms[index.toNat]? else none
  | _ => none

theorem sizeFields_filter_le (p : String × Json → Bool) (fields : List (String × Json)) :
    sizeFields (fields.filter p) ≤ sizeFields fields := by
  induction fields with
  | nil => simp
  | cons head tail ih =>
    obtain ⟨name, value⟩ := head
    rw [List.filter_cons]
    split
    · simp only [sizeFields]
      omega
    · simp only [sizeFields]
      omega

/-- The form and the contents of a tagged value. -/
def tagged? (tag : String) (forms : List String) (value : Json) :
    Option (String × { contents : Contents // contents.bound ≤ value.size }) :=
  match value with
  | obj fields =>
    match fields.filter (fun field => field.1 == tag) with
    | [field] =>
      (formOf? forms field.2).map fun form =>
        (form, ⟨.named (fields.filter (fun field => field.1 != tag)), by
          have := sizeFields_filter_le (fun field => field.1 != tag) fields
          simp only [Contents.bound, size]
          omega⟩)
    | _ => none
  | arr (head :: items) =>
    (formOf? forms head).map fun form =>
      (form, ⟨.positional items, by simp only [Contents.bound, size, sizeItems]; omega⟩)
  | _ => none

/-- Whether the form of a tagged value is named by its word. -/
def hasTagWord (tag : String) : Json → Bool
  | obj fields => ((fields.lookup tag).bind str?).isSome
  | arr (str _ :: _) => true
  | _ => false

/-- The word and the content of a choice.  A word alone has no content. -/
def choice? (value : Json) :
    Option (String × Option (Below value.size)) :=
  match value with
  | str word => some (word, none)
  | obj [(word, content)] =>
    some (word, some ⟨content, by simp only [size, sizeFields]; omega⟩)
  | _ => none

/-- Whether a choice without content is written properly: as a word, with `null`
or with an empty object. -/
def isBare {bound : Nat} : Option (Below bound) → Bool
  | none => true
  | some ⟨null, _⟩ => true
  | some ⟨obj [], _⟩ => true
  | _ => false

end FragmentFlow.Json
