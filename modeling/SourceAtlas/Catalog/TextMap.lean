/-!
Values under texts, in byte order of the texts. A map is its list of entries, with the proof that
their keys increase; so two maps are equal exactly when they hold the same values under the same
keys.
-/

namespace SourceAtlas

/-- Entries whose keys increase. -/
def Increasing (entries : List (String × α)) : Prop := entries.Pairwise fun a b => a.1 < b.1

instance (entries : List (String × α)) : Decidable (Increasing entries) :=
  inferInstanceAs (Decidable (List.Pairwise _ _))

/-- A map from texts to values. -/
structure TextMap (α : Type) where
  entries : List (String × α)
  increasing : Increasing entries

namespace TextMap

/-- Maps with the same entries are equal. -/
theorem ext {m n : TextMap α} (h : m.entries = n.entries) : m = n := by
  cases m; cases n; cases h; rfl

instance [DecidableEq α] : DecidableEq (TextMap α) := fun m n =>
  if h : m.entries = n.entries then .isTrue (ext h) else .isFalse fun e => h (e ▸ rfl)

/-- The map without entries. -/
def empty : TextMap α := ⟨[], .nil⟩

/-- Entries with one more, or with the value of its key replaced. -/
def insertEntry (key : String) (value : α) : List (String × α) → List (String × α)
  | [] => [(key, value)]
  | e :: rest =>
    if key < e.1 then (key, value) :: e :: rest
    else if key = e.1 then (key, value) :: rest
    else e :: insertEntry key value rest

/-- The keys of the entries are those from before and the new one. -/
theorem mem_insertEntry {key : String} {value : α} {entries : List (String × α)}
    {e : String × α} (h : e ∈ insertEntry key value entries) : e.1 = key ∨ e ∈ entries := by
  induction entries with
  | nil => simp [insertEntry] at h; exact .inl (h ▸ rfl)
  | cons d rest ih =>
    simp only [insertEntry] at h
    split at h
    · rcases List.mem_cons.1 h with h | h
      · exact .inl (h ▸ rfl)
      · exact .inr h
    · split at h
      · rcases List.mem_cons.1 h with h | h
        · exact .inl (h ▸ rfl)
        · exact .inr (List.mem_cons_of_mem _ h)
      · rcases List.mem_cons.1 h with h | h
        · exact .inr (h ▸ List.mem_cons_self)
        · exact (ih h).imp id (List.mem_cons_of_mem _)

/-- Insertion keeps the order. -/
theorem insertEntry_increasing (key : String) (value : α) {entries : List (String × α)}
    (h : Increasing entries) : Increasing (insertEntry key value entries) := by
  induction entries with
  | nil => exact List.pairwise_singleton _ _
  | cons d rest ih =>
    obtain ⟨first, later⟩ := List.pairwise_cons.1 h
    simp only [insertEntry]
    split
    · rename_i lt
      refine List.pairwise_cons.2 ⟨fun e he => ?_, h⟩
      rcases List.mem_cons.1 he with rfl | he
      · exact lt
      · exact String.lt_trans lt (first e he)
    · split
      · rename_i eq
        exact List.pairwise_cons.2 ⟨fun e he => eq ▸ first e he, later⟩
      · rename_i nlt neq
        refine List.pairwise_cons.2 ⟨fun e he => ?_, ih later⟩
        rcases mem_insertEntry he with he | he
        · rw [he]
          exact String.not_le.1 fun le => neq (String.le_antisymm le (String.not_lt.1 nlt))
        · exact first e he

/-- The map with a value set under a key. -/
def insert (m : TextMap α) (key : String) (value : α) : TextMap α :=
  ⟨insertEntry key value m.entries, insertEntry_increasing key value m.increasing⟩

/-- The map without the value of a key. -/
def erase (m : TextMap α) (key : String) : TextMap α :=
  ⟨m.entries.filter (·.1 != key), m.increasing.filter _⟩

/-- The map of a list of entries; the last value given for a key counts. -/
def ofList (entries : List (String × α)) : TextMap α :=
  entries.foldl (fun m e => m.insert e.1 e.2) empty

/-- The value under a key. -/
def get? (m : TextMap α) (key : String) : Option α := m.entries.lookup key

/-- The values in the order of their keys. -/
def values (m : TextMap α) : List α := m.entries.map (·.2)

/-- The keys that have a value. -/
def keys (m : TextMap α) : List String := m.entries.map (·.1)

/-- The number of entries. -/
def size (m : TextMap α) : Nat := m.entries.length

instance : Inhabited (TextMap α) := ⟨empty⟩

end TextMap

end SourceAtlas
