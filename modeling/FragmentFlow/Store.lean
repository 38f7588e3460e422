import FragmentFlow.Constant
import FragmentFlow.NameSet

/-!
# Stores

A store gives every name a constant.  Only bindings other than bottom are kept,
in the order of their names, so that stores with the same bindings are equal
values.
-/

namespace FragmentFlow

/-- The constants of the variables at one place of a program. -/
structure Store where
  entries : List (String × Constant)
  increasing : entries.Pairwise fun a b => a.1 < b.1
  proper : ∀ entry ∈ entries, entry.2 ≠ .bottom
  deriving DecidableEq

namespace Store

/-- The list with a binding put at its place. -/
def putEntry (name : String) (value : Constant) :
    List (String × Constant) → List (String × Constant)
  | [] => [(name, value)]
  | (key, old) :: tail =>
    if name < key then (name, value) :: (key, old) :: tail
    else if name = key then (key, value) :: tail
    else (key, old) :: putEntry name value tail

theorem mem_putEntry {name : String} {value : Constant} {entry : String × Constant}
    {entries : List (String × Constant)} (member : entry ∈ putEntry name value entries) :
    entry = (name, value) ∨ entry ∈ entries := by
  induction entries with
  | nil => simpa [putEntry] using member
  | cons head tail ih =>
    obtain ⟨key, old⟩ := head
    simp only [putEntry] at member
    split at member
    · simpa using member
    · split at member
      · rename_i same
        subst same
        rcases List.mem_cons.1 member with rfl | later
        · exact Or.inl rfl
        · exact Or.inr (List.mem_cons_of_mem _ later)
      · rcases List.mem_cons.1 member with rfl | later
        · exact Or.inr List.mem_cons_self
        · rcases ih later with rfl | found
          · exact Or.inl rfl
          · exact Or.inr (List.mem_cons_of_mem _ found)

theorem increasing_putEntry {name : String} {value : Constant}
    {entries : List (String × Constant)} (increasing : entries.Pairwise fun a b => a.1 < b.1) :
    (putEntry name value entries).Pairwise fun a b => a.1 < b.1 := by
  induction entries with
  | nil => simp [putEntry]
  | cons head tail ih =>
    obtain ⟨key, old⟩ := head
    obtain ⟨least, rest⟩ := List.pairwise_cons.1 increasing
    simp only [putEntry]
    split
    · rename_i less
      refine List.pairwise_cons.2 ⟨fun other member => ?_, increasing⟩
      rcases List.mem_cons.1 member with rfl | later
      · exact less
      · exact String.lt_trans less (least other later)
    · split
      · exact List.pairwise_cons.2 ⟨least, rest⟩
      · rename_i notLess different
        refine List.pairwise_cons.2 ⟨fun other member => ?_, ih rest⟩
        rcases mem_putEntry member with rfl | later
        · exact lt_of_not_lt_of_ne notLess different
        · exact least other later

/-- The store that binds nothing. -/
def empty : Store where
  entries := []
  increasing := List.Pairwise.nil
  proper := by simp

/-- The constant of a name; a name without a binding is at bottom. -/
def get (store : Store) (name : String) : Constant :=
  (store.entries.lookup name).getD .bottom

/-- A store without a binding for a name. -/
def erase (store : Store) (name : String) : Store where
  entries := store.entries.filter fun entry => entry.1 != name
  increasing := store.increasing.filter _
  proper entry member := store.proper entry (List.mem_filter.1 member).1

/-- A store with another constant for a name. -/
def set (store : Store) (name : String) (value : Constant) : Store :=
  if bottom : value = .bottom then store.erase name
  else
    { entries := putEntry name value store.entries
      increasing := increasing_putEntry store.increasing
      proper := fun entry member => by
        rcases mem_putEntry member with rfl | found
        · exact bottom
        · exact store.proper entry found }

/-- A store with the same constant for several names. -/
def setAll (store : Store) (names : List String) (value : Constant) : Store :=
  names.foldl (fun store name => store.set name value) store

/-- The store in which the names of a list may be anything. -/
def topFor (names : List String) : Store :=
  empty.setAll names .top

/-- The store of a list of bindings; later ones win. -/
def ofList (bindings : List (String × Constant)) : Store :=
  bindings.foldl (fun store binding => store.set binding.1 binding.2) empty

/-- The number of bindings. -/
def size (store : Store) : Nat :=
  store.entries.length

/-- Whether nothing is bound. -/
def isEmpty (store : Store) : Bool :=
  store.entries.isEmpty

/-- The order of stores, tested on the bindings of the smaller one. -/
def isBelow (store other : Store) : Bool :=
  store.entries.all fun entry => entry.2.isBelow (other.get entry.1)

/-- The least store above two stores. -/
def join (store other : Store) : Store :=
  other.entries.foldl
    (fun joined entry => joined.set entry.1 ((store.get entry.1).join entry.2)) store

end Store

end FragmentFlow
