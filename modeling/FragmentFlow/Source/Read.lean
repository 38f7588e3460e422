import FragmentFlow.Json.Stream
import FragmentFlow.Source.Decode

/-!
# Reading units from text

The layers of a unit down to the members of its classes are read while the text
is scanned; a member, and an argument of a class annotation, is first read as a
value and then given its meaning.
-/

namespace FragmentFlow.Source

open Json (RecordField ReadError Reading ScanWithin readList readRecord readTagged readText)

/-- Reads a tagged form and gives it its meaning. -/
def readForm {α : Type} (tag : String) (forms : List String)
    (meaning : String → Json.Contents → Option α) : Reading α := fun room text =>
  match readTagged tag forms room text with
  | .error fault => .error fault
  | .ok ((form, contents), rest) =>
    match meaning form contents with
    | none => .error .mismatched
    | some value => .ok (value, rest)

/-- Reads an expression. -/
def readExpr : Reading Expr := readForm "expr" exprForms exprOf?

/-- Reads a member. -/
def readMember : Reading Member := readForm "member" memberForms memberOf?

/-- A required name and two lists, as far as they are given. -/
structure Draft (α β : Type) where
  name : Option String := none
  first : Option (List α) := none
  second : Option (List β) := none

namespace Draft

variable {α β : Type}

/-- The name of a draft. -/
def nameField : RecordField (Draft α β) where
  name := "name"
  given draft := draft.name.isSome
  read room draft text := (readText room text).map fun name => { draft with name := some name }

/-- The first list of a draft. -/
def firstField (name : String) (item : Reading α) : RecordField (Draft α β) where
  name := name
  given draft := draft.first.isSome
  read room draft text :=
    (readList item room text).map fun items => { draft with first := some items }

/-- The second list of a draft. -/
def secondField (name : String) (item : Reading β) : RecordField (Draft α β) where
  name := name
  given draft := draft.second.isSome
  read room draft text :=
    (readList item room text).map fun items => { draft with second := some items }

/-- Completes a draft that has its name; lists that were not given are empty. -/
def finish {γ : Type} (build : String → List α → List β → γ) {text : List Char}
    (scan : ScanWithin text (Draft α β)) : ScanWithin text γ :=
  match scan with
  | .error fault => .error fault
  | .ok (draft, rest) =>
    match draft.name with
    | none => .error .mismatched
    | some name => .ok (build name (draft.first.getD []) (draft.second.getD []), rest)

end Draft

/-- Reads an annotation of a class. -/
def readAnnot : Reading Annot := fun room text =>
  Draft.finish (β := Empty) (fun name args _ => { name, args })
    (readRecord [Draft.nameField, Draft.firstField "args" readExpr] {} room text)

/-- Reads a class. -/
def readClass : Reading Class := fun room text =>
  Draft.finish (fun name annotations members => { name, annotations, members })
    (readRecord [Draft.nameField, Draft.firstField "annotations" readAnnot,
      Draft.secondField "members" readMember] {} room text)

/-- Reads a unit. -/
def readUnit : Reading CompilationUnit := fun room text =>
  Draft.finish (fun name imports classes => { name, imports, classes })
    (readRecord [Draft.nameField, Draft.firstField "imports" readText,
      Draft.secondField "classes" readClass] {} room text)

/-- Reads a text that holds one unit. -/
def CompilationUnit.parse (text : String) : Except ReadError CompilationUnit :=
  match readUnit Json.maxNesting text.toList with
  | .error fault => .error fault
  | .ok (unit, ⟨rest, _⟩) => (Json.readEnd rest).map fun _ => unit

end FragmentFlow.Source
