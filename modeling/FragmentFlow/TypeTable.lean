import FragmentFlow.Text.Blank

/-!
# Known type names

A type name is looked up after everything that only decorates it is removed:
blanks around it, type arguments, array brackets and, if need be, its package.
-/

namespace FragmentFlow

/-- The part of a name after its last dot. -/
def simpleName (name : List Char) : List Char :=
  (name.reverse.takeWhile (· != '.')).reverse

namespace TypeTable

/-- Drops the array brackets a reversed name starts with. -/
def dropBrackets : List Char → List Char
  | ']' :: '[' :: rest => dropBrackets rest
  | rest => rest

/-- The element type of a name: type arguments, array brackets and the blanks
around what is left are removed, in this order. -/
def baseName (name : List Char) : List Char :=
  let head := (Text.trim name).takeWhile (· != '<')
  Text.trim (dropBrackets head.reverse).reverse

end TypeTable

/-- The type names a program may mention. -/
structure TypeTable where
  known : List String := []

namespace TypeTable

/-- Names that every program knows. -/
def builtinNames : List String :=
  ["void", "var", "int", "long", "short", "byte", "char", "float", "double", "boolean",
   "Object", "String", "Integer", "Long", "Boolean", "Runnable", "Throwable", "Exception",
   "Error", "RuntimeException", "ArithmeticException", "IllegalArgumentException",
   "IllegalStateException", "NullPointerException", "UnsupportedOperationException"]

/-- The table that knows nothing. -/
def empty : TypeTable := {}

/-- The table of the names that every program knows. -/
def builtins : TypeTable := { known := builtinNames }

/-- A table that knows some names more. -/
def extend (table : TypeTable) (names : List String) : TypeTable :=
  { known := table.known ++ names }

/-- Whether a name is listed as it stands. -/
def contains (table : TypeTable) (name : String) : Bool :=
  table.known.contains name

/-- Whether a type name is known: its element type is listed, with its package
or without. -/
def resolves (table : TypeTable) (name : String) : Bool :=
  let base := baseName name.toList
  table.contains (String.ofList base) || table.contains (String.ofList (simpleName base))

end TypeTable

end FragmentFlow
