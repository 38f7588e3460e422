/-!
# JSON values

Objects keep their fields in the order of the text, repeated names included.
A number is either an integer of at most 64 bits or some other number, of which
only the spelling is kept.
-/

namespace FragmentFlow

/-- A JSON value. -/
inductive Json where
  | null
  | bool (value : Bool)
  | int (value : Int)
  | real (spelling : String)
  | str (value : String)
  | arr (items : List Json)
  | obj (fields : List (String × Json))

namespace Json

mutual

/-- The number of values a value consists of, itself included. -/
def size : Json → Nat
  | null | bool _ | int _ | real _ | str _ => 1
  | arr items => sizeItems items + 1
  | obj fields => sizeFields fields + 1

/-- The number of values in a list. -/
def sizeItems : List Json → Nat
  | [] => 0
  | item :: items => item.size + sizeItems items

/-- The number of values in a list of fields. -/
def sizeFields : List (String × Json) → Nat
  | [] => 0
  | (_, value) :: fields => value.size + sizeFields fields

end

theorem size_le_sizeItems {item : Json} {items : List Json} (member : item ∈ items) :
    item.size ≤ sizeItems items := by
  induction items with
  | nil => simp at member
  | cons head tail ih =>
    simp only [sizeItems]
    rcases List.mem_cons.1 member with rfl | later
    · omega
    · have := ih later
      omega

theorem size_le_sizeFields {field : String × Json} {fields : List (String × Json)}
    (member : field ∈ fields) : field.2.size ≤ sizeFields fields := by
  induction fields with
  | nil => simp at member
  | cons head tail ih =>
    obtain ⟨name, value⟩ := head
    simp only [sizeFields]
    rcases List.mem_cons.1 member with rfl | later
    · simp
    · have := ih later
      omega

mutual

/-- How many arrays and objects are open at the deepest place of a value. -/
def nesting : Json → Nat
  | null | bool _ | int _ | real _ | str _ => 0
  | arr items => nestingItems items + 1
  | obj fields => nestingFields fields + 1

/-- The deepest nesting in a list. -/
def nestingItems : List Json → Nat
  | [] => 0
  | item :: items => max item.nesting (nestingItems items)

/-- The deepest nesting in a list of fields. -/
def nestingFields : List (String × Json) → Nat
  | [] => 0
  | (_, value) :: fields => max value.nesting (nestingFields fields)

end

/-- The first field with a name, if the value is an object that has one. -/
def field? (value : Json) (name : String) : Option Json :=
  match value with
  | obj fields => fields.lookup name
  | _ => none

/-- The text of a string. -/
def str? : Json → Option String
  | str value => some value
  | _ => none

/-- The value of an integer. -/
def int? : Json → Option Int
  | int value => some value
  | _ => none

/-- The truth value. -/
def bool? : Json → Option Bool
  | bool value => some value
  | _ => none

/-- The items of an array. -/
def items? : Json → Option (List Json)
  | arr items => some items
  | _ => none

/-- The fields of an object. -/
def fields? : Json → Option (List (String × Json))
  | obj fields => some fields
  | _ => none

/-- An optional value, `null` when absent. -/
def ofOption (value : Option Json) : Json :=
  value.getD null

end Json

end FragmentFlow
