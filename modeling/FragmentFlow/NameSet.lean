/-!
# Sets of names

A set of names is the strictly increasing list of its elements, so that equal
sets are equal values.  Names are ordered by their characters.
-/

namespace FragmentFlow

/-- A finite set of names. -/
structure NameSet where
  names : List String
  increasing : names.Pairwise (· < ·)
  deriving DecidableEq

/-- Two different names are ordered one way or the other. -/
theorem lt_of_not_lt_of_ne {a b : String} (notLess : ¬ a < b) (different : a ≠ b) : b < a :=
  Std.lt_of_le_of_ne (String.not_lt.1 notLess) fun same => different same.symm

namespace NameSet

/-- The list with a name put at its place. -/
def insertName (name : String) : List String → List String
  | [] => [name]
  | head :: tail =>
    if name < head then name :: head :: tail
    else if name = head then head :: tail
    else head :: insertName name tail

theorem mem_insertName {name other : String} {names : List String} :
    other ∈ insertName name names ↔ other = name ∨ other ∈ names := by
  induction names with
  | nil => simp [insertName]
  | cons head tail ih =>
    simp only [insertName]
    split
    · simp
    · split
      · rename_i same
        subst same
        simp
      · simp only [List.mem_cons, ih]
        constructor
        · rintro (rfl | rfl | later)
          · exact Or.inr (Or.inl rfl)
          · exact Or.inl rfl
          · exact Or.inr (Or.inr later)
        · rintro (rfl | rfl | later)
          · exact Or.inr (Or.inl rfl)
          · exact Or.inl rfl
          · exact Or.inr (Or.inr later)

theorem increasing_insertName {name : String} {names : List String}
    (increasing : names.Pairwise (· < ·)) : (insertName name names).Pairwise (· < ·) := by
  induction names with
  | nil => simp [insertName]
  | cons head tail ih =>
    obtain ⟨least, rest⟩ := List.pairwise_cons.1 increasing
    simp only [insertName]
    split
    · rename_i less
      refine List.pairwise_cons.2 ⟨fun other member => ?_, increasing⟩
      rcases List.mem_cons.1 member with rfl | later
      · exact less
      · exact String.lt_trans less (least other later)
    · split
      · exact increasing
      · rename_i notLess different
        refine List.pairwise_cons.2 ⟨fun other member => ?_, ih rest⟩
        rcases mem_insertName.1 member with rfl | later
        · exact lt_of_not_lt_of_ne notLess different
        · exact least other later

/-- The set without elements. -/
def empty : NameSet where
  names := []
  increasing := List.Pairwise.nil

/-- A set with one more element. -/
def insert (set : NameSet) (name : String) : NameSet where
  names := insertName name set.names
  increasing := increasing_insertName set.increasing

/-- Whether a name is in a set. -/
def contains (set : NameSet) (name : String) : Bool :=
  set.names.contains name

/-- A set with the names of a list added. -/
def insertAll (set : NameSet) (names : List String) : NameSet :=
  names.foldl insert set

/-- The set of the names in a list. -/
def ofList (names : List String) : NameSet :=
  empty.insertAll names

/-- The elements for which a test holds. -/
def filter (set : NameSet) (test : String → Bool) : NameSet where
  names := set.names.filter test
  increasing := set.increasing.filter test

/-- The elements of either set. -/
def union (set other : NameSet) : NameSet :=
  set.insertAll other.names

/-- The elements of both sets. -/
def inter (set other : NameSet) : NameSet :=
  set.filter other.contains

/-- The elements of the first set that are not in the second. -/
def diff (set other : NameSet) : NameSet :=
  set.filter fun name => !other.contains name

/-- The number of elements. -/
def size (set : NameSet) : Nat :=
  set.names.length

end NameSet

end FragmentFlow
