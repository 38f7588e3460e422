import FragmentFlow.TypeTable
import Mathlib.Data.List.DropRight

/-!
# What decorates a type name

Blanks around a type name never matter.  Array brackets and type arguments behind a name lead
back to the name itself with one exception: brackets are dropped only as far as they follow
each other directly, so that blanks behind the brackets of a name protect these from whatever
is written after the blanks.
-/

namespace FragmentFlow

namespace Text

variable {c : Char} {blanks : List Char}

theorem trimStart_blanks_append (blank : blanks.all isBlank = true) (text : List Char) :
    trimStart (blanks ++ text) = trimStart text :=
  List.dropWhile_append_of_pos (List.all_eq_true.1 blank)

/-- Trimming stops at the first character that is not blank. -/
theorem trimStart_append_cons (solid : isBlank c = false) (text rest : List Char) :
    trimStart (text ++ c :: rest) = trimStart text ++ c :: rest := by
  have stops : (c :: rest).dropWhile isBlank = c :: rest := by
    rw [List.dropWhile_cons, solid]
    rfl
  rw [trimStart, List.dropWhile_append, stops]
  split
  · rename_i isEmpty
    rw [trimStart, List.isEmpty_iff.1 isEmpty, List.nil_append]
  · rfl

theorem trimEnd_eq (text : List Char) : trimEnd text = (trimStart text.reverse).reverse := rfl

theorem trimEnd_append_blanks (blank : blanks.all isBlank = true) (text : List Char) :
    trimEnd (text ++ blanks) = trimEnd text := by
  have reversed : blanks.reverse.all isBlank = true := by rw [List.all_reverse, blank]
  rw [trimEnd_eq, List.reverse_append, trimStart_blanks_append reversed, trimEnd_eq]

theorem trimEnd_append_cons (solid : isBlank c = false) (text rest : List Char) :
    trimEnd (text ++ c :: rest) = text ++ c :: trimEnd rest := by
  rw [trimEnd_eq, List.reverse_append, List.reverse_cons, List.append_assoc, List.singleton_append,
    trimStart_append_cons solid, List.reverse_append, List.reverse_cons, List.reverse_reverse,
    List.append_assoc, List.singleton_append, trimEnd_eq]

theorem trim_append_cons (solid : isBlank c = false) (text rest : List Char) :
    trim (text ++ c :: rest) = trimStart text ++ c :: trimEnd rest := by
  rw [trim, trimStart_append_cons solid, trimEnd_append_cons solid]

/-- What trimming takes off the end is blank. -/
theorem exists_blanks (text : List Char) :
    ∃ blanks, blanks.all isBlank = true ∧ trimStart text = trim text ++ blanks := by
  refine ⟨((trimStart text).reverse.takeWhile isBlank).reverse, ?_, ?_⟩
  · rw [List.all_reverse, List.all_takeWhile]
  · rw [trim, trimEnd, ← List.reverse_append, List.takeWhile_append_dropWhile,
      List.reverse_reverse]

theorem trim_blanks_append (blank : blanks.all isBlank = true) (text : List Char) :
    trim (blanks ++ text) = trim text := by
  rw [trim, trimStart_blanks_append blank, trim]

theorem trim_append_blanks (blank : blanks.all isBlank = true) (text : List Char) :
    trim (text ++ blanks) = trim text := by
  rw [trim, trim, trimStart, List.dropWhile_append]
  split
  · rename_i isEmpty
    have none : blanks.dropWhile isBlank = [] :=
      List.dropWhile_eq_nil_iff.2 (List.all_eq_true.1 blank)
    rw [trimStart, List.isEmpty_iff.1 isEmpty, none]
  · exact trimEnd_append_blanks blank _

theorem trim_trimStart (text : List Char) : trim (trimStart text) = trim text := by
  rw [trim, trimStart, trimStart, List.dropWhile_idempotent, trim, trimStart]

end Text

namespace TypeTable

open Text

variable {name : List Char}

/-- Only brackets at the very end are dropped. -/
theorem dropBrackets_reverse (plain : ¬ ['[', ']'] <:+ name) :
    dropBrackets name.reverse = name.reverse := by
  rw [dropBrackets.eq_def]
  split
  · rename_i rest shape
    refine absurd ⟨rest.reverse, ?_⟩ plain
    rw [← List.reverse_reverse name, shape]
    simp
  · rfl

/-- The element type of a name in front of a suffix: blanks at the end of the name are in the
middle of what is trimmed, and protect brackets. -/
def frontName (name : List Char) : List Char :=
  trim (dropBrackets (trimStart (name.takeWhile (· != '<'))).reverse).reverse

theorem takeWhile_angle (plain : '<' ∉ name) : name.takeWhile (· != '<') = name := by
  rw [List.takeWhile_eq_self_iff]
  intro c member
  simpa using fun same : c = '<' => plain (same ▸ member)

theorem takeWhile_append_angle (plain : '<' ∉ name) (rest : List Char) :
    (name ++ '<' :: rest).takeWhile (· != '<') = name := by
  have all : ∀ c ∈ name, (c != '<') = true := List.takeWhile_eq_self_iff.1 (takeWhile_angle plain)
  rw [List.takeWhile_append_of_pos all, List.takeWhile_cons_of_neg (by decide), List.append_nil]

/-- Trimming adds no character. -/
theorem not_mem_trimStart {c : Char} {text : List Char} (absent : c ∉ text) :
    c ∉ trimStart text := fun member =>
  absent ((List.dropWhile_sublist isBlank).subset member)

/-- What counts is the first angle bracket, whether it is in the name or follows it. -/
theorem frontName_append_angle (plain : '<' ∉ name) (rest : List Char) :
    frontName (name ++ '<' :: rest) = frontName name := by
  rw [frontName, takeWhile_append_angle plain, frontName, takeWhile_angle plain]

/-- Type arguments may be anything. -/
theorem baseName_append_angle (name rest : List Char) :
    baseName (name ++ '<' :: rest) = frontName name := by
  have first : ∀ {front : List Char} (back : List Char), '<' ∉ front →
      baseName (front ++ '<' :: back) = frontName front := by
    intro front back plain
    rw [baseName, trim_append_cons (by decide), takeWhile_append_angle (not_mem_trimStart plain),
      frontName, takeWhile_angle plain]
  by_cases inside : '<' ∈ name
  · obtain ⟨front, back, rfl, plain⟩ := List.eq_append_cons_of_mem inside
    rw [List.append_assoc, List.cons_append, first _ plain, frontName_append_angle plain]
  · exact first rest inside

/-- Brackets behind a name are dropped like type arguments. -/
theorem baseName_append_brackets (name : List Char) :
    baseName (name ++ ['[', ']']) = frontName name := by
  by_cases inside : '<' ∈ name
  · obtain ⟨front, back, rfl, plain⟩ := List.eq_append_cons_of_mem inside
    rw [List.append_assoc, List.cons_append, baseName_append_angle, frontName_append_angle plain]
  · have trimmed : trim (name ++ ['[', ']']) = trimStart name ++ ['[', ']'] := by
      rw [trim_append_cons (by decide)]
      rfl
    have plain : '<' ∉ trimStart name ++ ['[', ']'] := by
      simpa using not_mem_trimStart inside
    rw [baseName, trimmed, takeWhile_angle plain, List.reverse_append, frontName,
      takeWhile_angle inside]
    rfl

/-- Blanks end a name right behind array brackets. -/
def SpacedBrackets (name : List Char) : Prop :=
  '<' ∉ name ∧ ∃ front blanks, blanks ≠ [] ∧ blanks.all isBlank = true ∧
    name = front ++ '[' :: ']' :: blanks

/-- Blanks at the end keep the brackets before them. -/
theorem trim_dropBrackets_blanks {text blanks : List Char} (blank : blanks.all isBlank = true)
    (some : blanks ≠ []) : trim (dropBrackets (text ++ blanks).reverse).reverse = trim text := by
  have kept : ¬ ['[', ']'] <:+ text ++ blanks := by
    rintro ⟨front, shape⟩
    have last := congrArg List.getLast? shape
    rw [List.getLast?_append_of_ne_nil _ some, List.getLast?_append_of_ne_nil _ (by simp)] at last
    have closes : ']' ∈ blanks := List.mem_of_getLast? last.symm
    exact absurd (List.all_eq_true.1 blank _ closes) (by decide)
  rw [dropBrackets_reverse kept, List.reverse_reverse]
  exact trim_append_blanks blank text

/-- The front of a name without type arguments is the name itself, trimmed. -/
theorem frontName_of_spaced (spaced : SpacedBrackets name) : frontName name = trim name := by
  obtain ⟨plain, front, blanks, some, blank, rfl⟩ := spaced
  have shape : trimStart (front ++ '[' :: ']' :: blanks) =
      (trimStart front ++ ['[', ']']) ++ blanks := by
    rw [trimStart_append_cons (by decide), List.append_assoc]
    rfl
  rw [frontName, takeWhile_angle plain, shape, trim_dropBrackets_blanks blank some,
    ← trim_append_blanks blank, ← shape, trim_trimStart]

/-- In front of a suffix every other name has the element type that it has alone. -/
theorem frontName_of_not_spaced (other : ¬ SpacedBrackets name) :
    frontName name = baseName name := by
  by_cases inside : '<' ∈ name
  · obtain ⟨front, back, rfl, plain⟩ := List.eq_append_cons_of_mem inside
    rw [baseName_append_angle, frontName_append_angle plain]
  · obtain ⟨blanks, blank, split⟩ := exists_blanks name
    have plain : '<' ∉ trim name := fun member =>
      not_mem_trimStart inside (split ▸ List.mem_append_left _ member)
    rw [frontName, takeWhile_angle inside, baseName, takeWhile_angle plain, split]
    by_cases none : blanks = []
    · rw [none, List.append_nil]
    · -- without brackets before the blanks, there is nothing to drop either way
      have unbracketed : ¬ ['[', ']'] <:+ trim name := by
        rintro ⟨front, shape⟩
        refine other ⟨inside, name.takeWhile isBlank ++ front, blanks, none, blank, ?_⟩
        calc name
            = name.takeWhile isBlank ++ trimStart name := List.takeWhile_append_dropWhile.symm
          _ = name.takeWhile isBlank ++ (front ++ ['[', ']'] ++ blanks) := by rw [split, shape]
          _ = (name.takeWhile isBlank ++ front) ++ '[' :: ']' :: blanks := by simp
      rw [trim_dropBrackets_blanks blank none, dropBrackets_reverse unbracketed,
        List.reverse_reverse]

/-- Whether an element type is listed, with its package or without. -/
def lists (table : TypeTable) (base : List Char) : Bool :=
  table.contains (String.ofList base) || table.contains (String.ofList (simpleName base))

theorem resolves_eq (table : TypeTable) (name : String) :
    table.resolves name = table.lists (baseName name.toList) := rfl

/-- Blanks around a name make no difference, and array brackets and type arguments behind it
mean the same.  They lead back to the name itself, unless it ends with blanks behind array
brackets: then these brackets are taken for a part of the element type. -/
theorem resolves_decorated (table : TypeTable) (name arguments before after : String)
    (blankBefore : before.toList.all isBlank = true)
    (blankAfter : after.toList.all isBlank = true) :
    table.resolves (before ++ name ++ after) = table.resolves name ∧
    table.resolves (name ++ "<" ++ arguments) = table.resolves (name ++ "[]") ∧
    (¬ SpacedBrackets name.toList → table.resolves (name ++ "[]") = table.resolves name) ∧
    (SpacedBrackets name.toList →
      table.resolves (name ++ "[]") = table.lists (trim name.toList)) := by
  have brackets : table.resolves (name ++ "[]") = table.lists (frontName name.toList) := by
    rw [resolves_eq, String.toList_append]
    exact congrArg table.lists (baseName_append_brackets name.toList)
  refine ⟨?_, ?_, fun other => ?_, fun spaced => ?_⟩
  · rw [resolves_eq, String.toList_append, String.toList_append, baseName,
      trim_append_blanks blankAfter, trim_blanks_append blankBefore, resolves_eq, baseName]
  · rw [brackets, resolves_eq, String.toList_append, String.toList_append, List.append_assoc]
    exact congrArg table.lists (baseName_append_angle name.toList arguments.toList)
  · rw [brackets, frontName_of_not_spaced other, resolves_eq]
  · rw [brackets, frontName_of_spaced spaced]

/-- A qualified array type with blanks around it and type arguments behind it. -/
theorem qualifiedString_decorated :
    builtins.resolves "java.lang.String" = true ∧
    builtins.resolves " java.lang.String\t" = true ∧
    builtins.resolves "java.lang.String[]" = true ∧
    builtins.resolves "java.lang.String<T>" = true := by
  have plain : ¬ SpacedBrackets "java.lang.String".toList := by
    rintro ⟨-, front, blanks, -, -, shape⟩
    have bracket : '[' ∈ "java.lang.String".toList := by
      rw [shape]
      exact List.mem_append_right _ List.mem_cons_self
    exact absurd bracket (by decide)
  have alone : builtins.resolves "java.lang.String" = true := by decide
  obtain ⟨around, arguments, brackets, -⟩ :=
    resolves_decorated builtins "java.lang.String" "T>" " " "\t" (by decide) (by decide)
  have suffixed := (brackets plain).trans alone
  exact ⟨alone, around.trans alone, suffixed, arguments.trans suffixed⟩

/-- An array type resolves with a blank behind it, and does not when brackets or type arguments
follow the blank. -/
theorem spacedArray_unresolved :
    builtins.resolves "int[] " = true ∧ builtins.resolves "int[] []" = false ∧
      builtins.resolves "int[] <T>" = false := by
  decide

end TypeTable

end FragmentFlow
