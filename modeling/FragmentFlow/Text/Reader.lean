/-!
# Readers

A reader takes something from the front of a text, or fails.  A failed reader has
taken nothing, so another one can be tried in its place.
-/

namespace FragmentFlow.Text

/-- Takes something from the front of a text. -/
structure Reader (α : Type) where
  run : List Char → Option (α × List Char)

namespace Reader

variable {α β : Type}

instance : Monad Reader where
  pure value := ⟨fun text => some (value, text)⟩
  bind reader next := ⟨fun text =>
    match reader.run text with
    | none => none
    | some (value, rest) => (next value).run rest⟩

instance : OrElse (Reader α) where
  orElse reader other := ⟨fun text => reader.run text <|> (other ()).run text⟩

/-- The reader that always fails. -/
def fail : Reader α := ⟨fun _ => none⟩

/-- The value of a result, or failure. -/
def ofOption (value : Option α) : Reader α := ⟨fun text => value.map fun value => (value, text)⟩

/-- Goes on only if a condition holds. -/
def guard (condition : Bool) : Reader PUnit := ofOption (if condition then some () else none)

/-- Takes a character that passes a test. -/
def one (test : Char → Bool) : Reader Char := ⟨fun text =>
  match text with
  | [] => none
  | c :: rest => if test c then some (c, rest) else none⟩

/-- Takes a certain character. -/
def char (c : Char) : Reader Char := one (· == c)

/-- Takes certain characters in their order. -/
def word : List Char → Reader PUnit
  | [] => pure ()
  | c :: rest => do
    let _ ← char c
    word rest

/-- Takes all characters up to the first that fails a test. -/
def takeWhile (test : Char → Bool) : Reader (List Char) := ⟨fun text => some (text.span test)⟩

/-- Takes something if it is there. -/
def optional (reader : Reader α) : Reader (Option α) :=
  (do return some (← reader)) <|> return none

/-- What a reader takes when it is repeated until it fails or takes nothing. -/
def repeated (reader : Reader α) (text : List Char) : List α × List Char :=
  match reader.run text with
  | none => ([], text)
  | some (value, rest) =>
    if rest.length < text.length then
      let (values, rest) := repeated reader rest
      (value :: values, rest)
    else ([value], rest)
termination_by text.length

/-- Takes something as often as it is there. -/
def many (reader : Reader α) : Reader (List α) := ⟨fun text => some (repeated reader text)⟩

/-- Takes one or more things with separators between them. -/
def separated (reader : Reader α) (separator : Reader β) : Reader (List α) := do
  let first ← reader
  let rest ← many do
    let _ ← separator
    reader
  return first :: rest

/-- Goes on only at the end of the text. -/
def atEnd : Reader PUnit := ⟨fun text => if text.isEmpty then some ((), text) else none⟩

end Reader

end FragmentFlow.Text
