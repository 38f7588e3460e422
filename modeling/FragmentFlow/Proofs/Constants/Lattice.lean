import FragmentFlow.Store
import Mathlib.Order.Lattice

/-!
# The lattices of constants and stores

Constants form a flat lattice.  Stores are compared name by name, where a name
without a binding is at bottom; `get` of every operation on stores is given in terms
of `get`, so that nothing else has to look at the entries.
-/

namespace FragmentFlow

namespace Constant

instance : LE Constant where
  le a b := a.isBelow b = true

instance : DecidableLE Constant := fun a b =>
  inferInstanceAs (Decidable (a.isBelow b = true))

theorem le_iff {a b : Constant} : a ≤ b ↔ a = bottom ∨ b = top ∨ a = b := by
  change isBelow a b = true ↔ _
  simp [isBelow, or_assoc]

theorem bottom_le (a : Constant) : bottom ≤ a :=
  le_iff.2 (Or.inl rfl)

theorem le_top (a : Constant) : a ≤ top :=
  le_iff.2 (Or.inr (Or.inl rfl))

/-- A value above one that is not bottom is the same or top. -/
theorem eq_or_eq_top_of_le {a b : Constant} (below : a ≤ b) (proper : a ≠ bottom) :
    b = a ∨ b = top := by
  rcases le_iff.1 below with isBottom | isTop | same
  · exact absurd isBottom proper
  · exact Or.inr isTop
  · exact Or.inl same.symm

/-- Joining with bottom changes nothing. -/
theorem join_bottom (a : Constant) : a.join bottom = a := by
  cases a <;> rfl

/-- Joining bottom with a constant gives the constant. -/
theorem bottom_join (a : Constant) : bottom.join a = a := by
  cases a <;> rfl

theorem join_eq_of_ne {a b : Constant} (first : a ≠ bottom) (second : b ≠ bottom) :
    a.join b = if a = b then a else top := by
  cases a <;> cases b <;> first | rfl | exact absurd rfl first | exact absurd rfl second

instance : SemilatticeSup Constant where
  sup := join
  le_refl a := le_iff.2 (Or.inr (Or.inr rfl))
  le_trans a b c first second := by
    rcases le_iff.1 first with rfl | rfl | rfl
    · exact bottom_le c
    · rcases le_iff.1 second with absurdity | rfl | rfl
      · cases absurdity
      · exact le_top a
      · exact le_top a
    · exact second
  le_antisymm a b first second := by
    rcases le_iff.1 first with rfl | rfl | same
    · rcases le_iff.1 second with rfl | absurdity | same
      · rfl
      · cases absurdity
      · exact same.symm
    · rcases le_iff.1 second with absurdity | rfl | same
      · cases absurdity
      · rfl
      · exact same.symm
    · exact same
  le_sup_left a b := by
    by_cases first : a = bottom
    · exact first ▸ bottom_le _
    · by_cases second : b = bottom
      · subst second
        exact le_iff.2 (Or.inr (Or.inr (join_bottom a).symm))
      · rw [join_eq_of_ne first second]
        split
        · exact le_iff.2 (Or.inr (Or.inr rfl))
        · exact le_top a
  le_sup_right a b := by
    by_cases second : b = bottom
    · exact second ▸ bottom_le _
    · by_cases first : a = bottom
      · subst first
        exact le_iff.2 (Or.inr (Or.inr (bottom_join b).symm))
      · rw [join_eq_of_ne first second]
        split
        · exact le_iff.2 (Or.inr (Or.inr ‹a = b›.symm))
        · exact le_top b
  sup_le a b c first second := by
    by_cases left : a = bottom
    · subst left
      rw [bottom_join]
      exact second
    · by_cases right : b = bottom
      · subst right
        rw [join_bottom]
        exact first
      · rw [join_eq_of_ne left right]
        split
        · exact first
        · rename_i different
          rcases eq_or_eq_top_of_le first left with rfl | rfl
          · rcases eq_or_eq_top_of_le second right with same | rfl
            · exact absurd same different
            · exact le_top _
          · exact le_top _

end Constant

namespace Store

theorem lookup_entry (name key : String) (value : Constant) (tail : List (String × Constant)) :
    ((key, value) :: tail).lookup name = if name = key then some value else tail.lookup name := by
  by_cases same : name = key
  · simp [same]
  · simp [List.lookup_cons, same, beq_false_of_ne same]

theorem lookup_putEntry (name other : String) (value : Constant)
    (entries : List (String × Constant)) :
    (putEntry name value entries).lookup other =
      if other = name then some value else entries.lookup other := by
  induction entries with
  | nil => exact lookup_entry other name value []
  | cons head tail ih =>
      obtain ⟨key, old⟩ := head
      simp only [putEntry]
      split
      · rw [lookup_entry]
      · split
        · rename_i isKey
          subst isKey
          rw [lookup_entry, lookup_entry]
          by_cases same : other = name <;> simp [same]
        · rename_i notKey
          rw [lookup_entry, lookup_entry, ih]
          by_cases here : other = key
          · subst here
            simp [Ne.symm notKey]
          · simp [here]

theorem lookup_filter_ne (name other : String) (entries : List (String × Constant)) :
    (entries.filter fun entry => entry.1 != name).lookup other =
      if other = name then none else entries.lookup other := by
  induction entries with
  | nil => simp
  | cons head tail ih =>
      obtain ⟨key, old⟩ := head
      by_cases isKey : key = name
      · subst isKey
        rw [List.filter_cons_of_neg (by simp), ih, lookup_entry]
        by_cases same : other = key <;> simp [same]
      · rw [List.filter_cons_of_pos (by simpa using isKey), lookup_entry, lookup_entry, ih]
        by_cases same : other = name
        · subst same
          simp [Ne.symm isKey]
        · simp [same]

@[simp] theorem get_empty (name : String) : empty.get name = .bottom := rfl

@[simp] theorem get_set (store : Store) (name : String) (value : Constant) (other : String) :
    (store.set name value).get other = if other = name then value else store.get other := by
  unfold set
  split
  · rename_i isBottom
    rw [get, erase, lookup_filter_ne]
    split
    · exact isBottom.symm
    · rfl
  · rw [get, lookup_putEntry]
    split <;> rfl

@[simp] theorem get_setAll (store : Store) (names : List String) (value : Constant)
    (other : String) :
    (store.setAll names value).get other = if other ∈ names then value else store.get other := by
  unfold setAll
  induction names generalizing store with
  | nil => rfl
  | cons name names ih =>
      rw [List.foldl_cons, ih, get_set]
      by_cases later : other ∈ names
      · simp [later]
      · simp [later]

@[simp] theorem get_topFor (names : List String) (name : String) :
    (topFor names).get name = if name ∈ names then .top else .bottom := by
  rw [topFor, get_setAll, get_empty]

/-- Joining in the entries of a list one by one. -/
theorem get_foldl_join (store : Store) (name : String) (entries : List (String × Constant))
    (increasing : entries.Pairwise fun a b => a.1 < b.1) (joined : Store) :
    (entries.foldl (fun joined entry =>
      joined.set entry.1 ((store.get entry.1).join entry.2)) joined).get name =
      match entries.lookup name with
      | some value => (store.get name).join value
      | none => joined.get name := by
  induction entries generalizing joined with
  | nil => rfl
  | cons head tail ih =>
      obtain ⟨key, value⟩ := head
      obtain ⟨least, rest⟩ := List.pairwise_cons.1 increasing
      rw [List.foldl_cons, ih rest, lookup_entry, get_set]
      by_cases here : name = key
      · subst here
        have absent : tail.lookup name = none := by
          rw [List.lookup_eq_none_iff]
          intro entry member
          have different : name ≠ entry.1 := fun same =>
            String.lt_irrefl _ (same ▸ least entry member)
          simpa using different
        simp [absent]
      · simp [here]

@[simp] theorem get_join (store other : Store) (name : String) :
    (store.join other).get name = (store.get name).join (other.get name) := by
  rw [join, get_foldl_join store name other.entries other.increasing, get, get]
  cases other.entries.lookup name with
  | none => exact (Constant.join_bottom _).symm
  | some value => rfl

theorem mem_of_lookup {name : String} {value : Constant} {entries : List (String × Constant)}
    (found : entries.lookup name = some value) : (name, value) ∈ entries := by
  induction entries with
  | nil => cases found
  | cons head tail ih =>
      obtain ⟨key, old⟩ := head
      rw [lookup_entry] at found
      split at found
      · rename_i here
        cases found
        exact here ▸ List.mem_cons_self
      · exact List.mem_cons_of_mem _ (ih found)

theorem lookup_of_mem {entry : String × Constant} {entries : List (String × Constant)}
    (increasing : entries.Pairwise fun a b => a.1 < b.1) (member : entry ∈ entries) :
    entries.lookup entry.1 = some entry.2 := by
  induction entries with
  | nil => cases member
  | cons head tail ih =>
      obtain ⟨key, old⟩ := head
      obtain ⟨least, rest⟩ := List.pairwise_cons.1 increasing
      rw [lookup_entry]
      rcases List.mem_cons.1 member with rfl | later
      · exact if_pos rfl
      · have different : entry.1 ≠ key := fun same =>
          String.lt_irrefl _ (same ▸ least entry later)
        rw [if_neg different]
        exact ih rest later

theorem nodup_of_increasing {entries : List (String × Constant)}
    (increasing : entries.Pairwise fun a b => a.1 < b.1) : entries.Nodup := by
  apply List.Pairwise.imp _ increasing
  rintro a b less rfl
  exact String.lt_irrefl _ less

/-- The entries of a list in order are determined by what is looked up. -/
theorem eq_of_lookup_eq {entries others : List (String × Constant)}
    (increasing : entries.Pairwise fun a b => a.1 < b.1)
    (alike : others.Pairwise fun a b => a.1 < b.1)
    (same : ∀ name, entries.lookup name = others.lookup name) : entries = others := by
  have included : ∀ {one other : List (String × Constant)},
      one.Pairwise (fun a b => a.1 < b.1) → (∀ name, one.lookup name = other.lookup name) →
        ∀ entry ∈ one, entry ∈ other := by
    intro one other sorted lookup entry member
    apply mem_of_lookup
    rw [← lookup, lookup_of_mem sorted member]
  have asymmetric : ∀ a b : String × Constant, a ∈ entries → b ∈ others → a.1 < b.1 → b.1 < a.1 →
      a = b := fun _ _ _ _ less more => absurd (String.lt_trans less more) (String.lt_irrefl _)
  apply List.Perm.eq_of_pairwise asymmetric increasing alike
  rw [List.perm_ext_iff_of_nodup]
  · exact fun entry => ⟨included increasing same entry,
      included alike (fun name => (same name).symm) entry⟩
  · exact nodup_of_increasing increasing
  · exact nodup_of_increasing alike

theorem lookup_ne_bottom (store : Store) (name : String) :
    store.entries.lookup name ≠ some .bottom := fun found =>
  store.proper _ (mem_of_lookup found) rfl

/-- Stores with the same bindings are equal. -/
theorem ext_get {store other : Store} (same : ∀ name, store.get name = other.get name) :
    store = other := by
  have lookup : ∀ name, store.entries.lookup name = other.entries.lookup name := by
    intro name
    have values := same name
    rw [get, get] at values
    have proper := store.lookup_ne_bottom name
    have alike := other.lookup_ne_bottom name
    cases one : store.entries.lookup name <;> cases two : other.entries.lookup name <;> simp_all
  have entries := eq_of_lookup_eq store.increasing other.increasing lookup
  cases store
  cases other
  cases entries
  rfl

instance : LE Store where
  le store other := store.isBelow other = true

instance : DecidableLE Store := fun store other =>
  inferInstanceAs (Decidable (store.isBelow other = true))

/-- Stores are ordered name by name. -/
theorem le_iff_get {store other : Store} :
    store ≤ other ↔ ∀ name, store.get name ≤ other.get name := by
  change store.isBelow other = true ↔ _
  rw [isBelow, List.all_eq_true]
  constructor
  · intro below name
    cases found : store.entries.lookup name with
    | none =>
        rw [get, found]
        exact Constant.bottom_le _
    | some value =>
        rw [get, found]
        exact below (name, value) (mem_of_lookup found)
  · intro below entry member
    have value : store.get entry.1 = entry.2 := by
      rw [get, lookup_of_mem store.increasing member]
      rfl
    exact value ▸ below entry.1

instance : SemilatticeSup Store where
  sup := join
  le_refl store := le_iff_get.2 fun _ => le_refl _
  le_trans a b c first second := le_iff_get.2 fun name =>
    le_trans (le_iff_get.1 first name) (le_iff_get.1 second name)
  le_antisymm a b first second := ext_get fun name =>
    le_antisymm (le_iff_get.1 first name) (le_iff_get.1 second name)
  le_sup_left a b := le_iff_get.2 fun name => get_join a b name ▸ le_sup_left
  le_sup_right a b := le_iff_get.2 fun name => get_join a b name ▸ le_sup_right
  sup_le a b c first second := le_iff_get.2 fun name => by
    rw [get_join]
    exact sup_le (le_iff_get.1 first name) (le_iff_get.1 second name)

end Store

end FragmentFlow
