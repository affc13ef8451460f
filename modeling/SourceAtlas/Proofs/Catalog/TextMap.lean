import SourceAtlas.Catalog.Snapshot
import SourceAtlas.Proofs.Association
/-!
What a map holds under a key after each operation, and the way of a catalog through its snapshot: a
map is made again from its own entries, so a catalog is made again from its own snapshot.
-/

namespace SourceAtlas

namespace TextMap

/-! ### Look-up -/

theorem lookup_insertEntry (key other : String) (value : α) (entries : List (String × α)) :
    (insertEntry key value entries).lookup other =
      if other = key then some value else entries.lookup other := by
  induction entries with
  | nil => exact lookup_cons_ite key other value []
  | cons e rest ih =>
    obtain ⟨k, a⟩ := e
    rw [insertEntry]
    split
    · rw [lookup_cons_ite]
    · split
      · rename_i here
        simp only [here, lookup_cons_ite]
        split <;> rfl
      · rename_i later
        rw [lookup_cons_ite, lookup_cons_ite, ih]
        by_cases first : other = k
        · simp [first, Ne.symm later]
        · simp [first]

/-- A set value stands under its key, and nothing else is changed. -/
@[simp] theorem get?_insert (m : TextMap α) (key other : String) (value : α) :
    (m.insert key value).get? other = if other = key then some value else m.get? other :=
  lookup_insertEntry key other value m.entries

/-- An erased key has no value, and nothing else is changed. -/
@[simp] theorem get?_erase (m : TextMap α) (key other : String) :
    (m.erase key).get? other = if other = key then none else m.get? other := by
  have hidden := lookup_filter (· != key) other m.entries
  simp only [bne_iff_ne, ite_not] at hidden
  exact hidden

theorem mem_keys_iff (m : TextMap α) (key : String) : key ∈ m.keys ↔ (m.get? key).isSome := by
  simp [keys, get?, List.lookup_isSome_iff]

/-- In a map every entry is the one that is found under its key. -/
theorem get?_of_mem_entries {m : TextMap α} {e : String × α} (h : e ∈ m.entries) :
    m.get? e.1 = some e.2 := by
  obtain ⟨entries, increasing⟩ := m
  rw [get?]
  induction entries with
  | nil => cases h
  | cons d rest ih =>
    obtain ⟨first, later⟩ := List.pairwise_cons.1 increasing
    rcases List.mem_cons.1 h with rfl | h
    · exact List.lookup_cons_self
    · have ne : e.1 ≠ d.1 := fun same => String.lt_irrefl _ (same ▸ first e h)
      rw [lookup_cons_ite, if_neg ne]
      exact ih later h

/-- Where all items of the lists name the key that they stand under, the list under a key is made of
the items that name it. -/
theorem filter_flatten_values {m : TextMap (List α)} {owner : α → String}
    (owned : ∀ k l, m.get? k = some l → ∀ x ∈ l, owner x = k) (key : String) :
    m.values.flatten.filter (owner · == key) = (m.get? key).getD [] := by
  have named : ∀ e ∈ m.entries, ∀ x ∈ e.2, owner x = e.1 := fun e he =>
    owned e.1 e.2 (get?_of_mem_entries he)
  obtain ⟨entries, increasing⟩ := m
  rw [values, get?]
  dsimp only at named ⊢
  clear owned
  induction entries with
  | nil => rfl
  | cons e rest ih =>
    obtain ⟨k, l⟩ := e
    obtain ⟨here, later⟩ := List.forall_mem_cons.1 named
    obtain ⟨first, after⟩ := List.pairwise_cons.1 increasing
    rw [List.map_cons, List.flatten_cons, List.filter_append, ih after later, lookup_cons_ite]
    by_cases same : key = k
    · -- no later entry has the same key
      subst same
      have gone : rest.lookup key = none := by
        rw [List.lookup_eq_none_iff]
        intro d hd
        exact bne_iff_ne.2 fun same : key = d.1 => String.lt_irrefl _ (same ▸ first d hd)
      rw [gone, if_pos rfl, List.filter_eq_self.2 fun x hx => by simp [here x hx]]
      exact List.append_nil l
    · rw [if_neg same, List.filter_eq_nil_iff.2 fun x hx => by simp [here x hx, Ne.symm same]]
      rfl

/-! ### Maps from entries -/

theorem insertEntry_last (key : String) (value : α) {entries : List (String × α)}
    (h : ∀ e ∈ entries, e.1 < key) : insertEntry key value entries = entries ++ [(key, value)] := by
  induction entries with
  | nil => rfl
  | cons e rest ih =>
    have lt := h e List.mem_cons_self
    have not_gt : ¬key < e.1 := fun gt => String.lt_irrefl _ (String.lt_trans lt gt)
    have ne : ¬key = e.1 := fun same => String.lt_irrefl _ (same ▸ lt)
    rw [insertEntry, if_neg not_gt, if_neg ne, ih fun d hd => h d (List.mem_cons_of_mem _ hd),
      List.cons_append]

/-- Entries in order are put one behind the other. -/
theorem entries_foldl_insert (entries : List (String × α)) (m : TextMap α)
    (increasing : Increasing (m.entries ++ entries)) :
    (entries.foldl (fun m e => m.insert e.1 e.2) m).entries = m.entries ++ entries := by
  induction entries generalizing m with
  | nil => exact (List.append_nil _).symm
  | cons e rest ih =>
    have before : ∀ d ∈ m.entries, d.1 < e.1 := by
      intro d hd
      exact (List.pairwise_append.1 increasing).2.2 d hd e List.mem_cons_self
    have last : (m.insert e.1 e.2).entries = m.entries ++ [e] := insertEntry_last e.1 e.2 before
    have moved : m.entries ++ e :: rest = (m.insert e.1 e.2).entries ++ rest := by
      rw [last, List.append_assoc]
      rfl
    rw [moved] at increasing ⊢
    exact ih (m.insert e.1 e.2) increasing

/-- A map is made again from its own entries. -/
theorem ofList_entries (m : TextMap α) : ofList m.entries = m :=
  ext ((entries_foldl_insert m.entries empty m.increasing).trans (List.nil_append _))

end TextMap

/-- A catalog is made again from its own snapshot. -/
theorem Catalog.ofSnapshot_toSnapshot (c : Catalog) : ofSnapshot c.toSnapshot = c := by
  simp [ofSnapshot, toSnapshot, TextMap.ofList_entries]

end SourceAtlas
