/-!
# TOML values

The values of a TOML document.  Tables remember how they were made, because that
decides whether more may be added to them.
-/

namespace FragmentFlow.Toml

/-- How a table was made. -/
inductive TableKind where
  /-- In braces; nothing can be added. -/
  | closed
  /-- By a header of its own. -/
  | header
  /-- By a header of a table inside it. -/
  | implied
  /-- By a key with dots. -/
  | dotted
  deriving DecidableEq, Repr

/-- A value.  Of numbers with a fraction and of dates only their being there is
kept. -/
inductive Value where
  | str (value : String)
  | int (value : Int)
  | real
  | bool (value : Bool)
  | date
  | arr (items : List Value)
  /-- Tables made by headers in double brackets. -/
  | tables (items : List Value)
  | table (kind : TableKind) (entries : List (String × Value))

/-- The entries with a value put under a key. -/
def putEntry (key : String) (value : Value) (entries : List (String × Value)) :
    List (String × Value) :=
  if (entries.lookup key).isSome then
    entries.map fun entry => if entry.1 == key then (key, value) else entry
  else entries ++ [(key, value)]

namespace Value

/-- Changes the table at the end of a path.  Tables that are missing on the way are
made.  A key with dots does not lead into a table that has a header, and nothing
leads into a table in braces; of tables in double brackets the last one is
meant. -/
def updateAt (dotted : Bool) (change : Value → Option Value) : List String → Value → Option Value
  | [], root => change root
  | key :: path, table kind entries =>
    match entries.lookup key with
    | none => do
      let inner ← updateAt dotted change path (table (if dotted then .dotted else .implied) [])
      some (table kind (putEntry key inner entries))
    | some (table innerKind inner) =>
      if innerKind = .closed ∨ (dotted = true ∧ innerKind = .header) then none
      else do
        let inner ← updateAt dotted change path (table innerKind inner)
        some (table kind (putEntry key inner entries))
    | some (tables items) => do
      let inner ← updateAt dotted change path (← items.getLast?)
      some (table kind (putEntry key (tables (items.dropLast ++ [inner])) entries))
    | some _ => none
  | _ :: _, _ => none

/-- Adds a value under a key that must be new. -/
def insertNew (root : Value) (key : String) (value : Value) : Option Value :=
  match root with
  | table kind entries =>
    if (entries.lookup key).isSome then none else some (table kind (entries ++ [(key, value)]))
  | _ => none

/-- Adds a value under a key with dots; only a table made by such keys may get
another one this way. -/
def insertDotted (root : Value) (path : List String) (key : String) (value : Value) :
    Option Value :=
  if path.isEmpty then root.insertNew key value
  else
    root.updateAt true (fun
      | table .dotted entries => (table .dotted entries).insertNew key value
      | _ => none) path

/-- Opens the table of a header. -/
def openTable (key : String) : Value → Option Value
  | table kind entries =>
    match entries.lookup key with
    | none => some (table kind (entries ++ [(key, table .header [])]))
    | some (table .implied inner) => some (table kind (putEntry key (table .header inner) entries))
    | some _ => none
  | _ => none

/-- Opens one more table of a header in double brackets. -/
def openNext (key : String) : Value → Option Value
  | table kind entries =>
    match entries.lookup key with
    | none => some (table kind (entries ++ [(key, tables [table .header []])]))
    | some (tables items) =>
      some (table kind (putEntry key (tables (items ++ [table .header []])) entries))
    | some _ => none
  | _ => none

end Value

end FragmentFlow.Toml
