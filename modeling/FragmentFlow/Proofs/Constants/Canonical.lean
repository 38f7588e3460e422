import FragmentFlow.Proofs.Constants.Lattice

/-!
# Stores are canonical

A store lists its bindings once and in order, and none of them is at bottom.  The constants
of the names therefore determine it, and comparing and joining the listed bindings compares
and joins the constants of all names.
-/

namespace FragmentFlow.Store

/-- The stores that are made by binding names and by joining, from the store without bindings
and those in which some names may be anything. -/
inductive Built : Store → Prop
  | empty : Built empty
  | topFor (names : List String) : Built (topFor names)
  | set {store : Store} (name : String) (value : Constant) :
      Built store → Built (store.set name value)
  | join {store other : Store} : Built store → Built other → Built (store.join other)

variable {store : Store} {name : String} {value : Constant}

/-- Joining the empty store with another gives the other. -/
theorem empty_join (store : Store) : empty.join store = store := by
  apply ext_get
  intro name
  rw [get_join, get_empty, Constant.bottom_join]

/-- Every store is made by binding its names one after the other. -/
theorem built (store : Store) : Built store := by
  have bound : ∀ (entries : List (String × Constant)) (joined : Store), Built joined →
      Built (entries.foldl (fun joined entry =>
        joined.set entry.1 ((empty.get entry.1).join entry.2)) joined) := by
    intro entries
    induction entries with
    | nil => exact fun _ made => made
    | cons entry entries ih => exact fun joined made => ih _ (.set _ _ made)
  -- joining binds the names of the second store, so that it makes every store from nothing
  rw [← empty_join store]
  exact bound store.entries empty .empty

/-- The bindings are the constants other than bottom. -/
theorem mem_entries : (name, value) ∈ store.entries ↔ value ≠ .bottom ∧ store.get name = value := by
  constructor
  · intro member
    refine ⟨store.proper _ member, ?_⟩
    rw [get, lookup_of_mem store.increasing member]
    rfl
  · rintro ⟨proper, rfl⟩
    apply mem_of_lookup
    cases found : store.entries.lookup name with
    | none => exact absurd (by rw [get, found]; rfl) proper
    | some bound => rw [get, found]; rfl

theorem isBelow_iff_join_eq {other : Store} :
    store.isBelow other = true ↔ store.join other = other :=
  (sup_eq_right : store ⊔ other = other ↔ store ≤ other).symm

/-- Stores are made by the operations on them and list the constants other than bottom, so that
their constants determine them.  They are joined and compared name by name, and joining is
commutative, associative and idempotent and gives the least store above both. -/
theorem canonical_semilattice (a b c : Store) :
    Built a ∧
    (∀ name value, (name, value) ∈ a.entries ↔ value ≠ .bottom ∧ a.get name = value) ∧
    (a = b ↔ ∀ name, a.get name = b.get name) ∧
    (∀ name, (a.join b).get name = (a.get name).join (b.get name)) ∧
    (a.isBelow b = true ↔ ∀ name, (a.get name).isBelow (b.get name) = true) ∧
    (a.isBelow b = true ↔ a.join b = b) ∧
    a.join b = b.join a ∧ (a.join b).join c = a.join (b.join c) ∧ a.join a = a ∧
    a.isBelow (a.join b) = true ∧ b.isBelow (a.join b) = true ∧
    ∀ upper : Store, a.isBelow upper = true → b.isBelow upper = true →
      (a.join b).isBelow upper = true := by
  refine ⟨built a, fun _ _ => mem_entries, ⟨?_, ext_get⟩, get_join a b, le_iff_get,
    isBelow_iff_join_eq, sup_comm a b, sup_assoc a b c, sup_idem a, ?_, ?_, ?_⟩
  · rintro rfl name
    rfl
  · exact (le_sup_left : a ≤ a ⊔ b)
  · exact (le_sup_right : b ≤ a ⊔ b)
  · intro upper first second
    exact (sup_le first second : a ⊔ b ≤ upper)

end FragmentFlow.Store
