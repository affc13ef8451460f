import Mathlib.Algebra.BigOperators.Group.Finset.Basic
import Mathlib.Algebra.GroupWithZero.Nat
import SourceAtlas.Proofs.Catalog.TextMap
/-!
Counting in maps. What the values of a map add up to is the sum over any keys that include its own, as a
key without a value adds nothing. A map that is counted up item by item holds, for every word that occurs
among the items, how often it does; together these are as many as the items.
-/

namespace SourceAtlas.TextMap

/-! ### Sums over keys -/

theorem mem_keys_insert {m : TextMap α} {key k : String} {value : α} :
    k ∈ (m.insert key value).keys ↔ k = key ∨ k ∈ m.keys := by
  rw [mem_keys_iff, mem_keys_iff, get?_insert]
  by_cases same : k = key <;> simp [same]

theorem nodup_keys (m : TextMap α) : m.keys.Nodup := by
  refine List.pairwise_map.2 (m.increasing.imp fun lt same => ?_)
  rw [same] at lt
  exact String.lt_irrefl _ lt

/-- The values add up to what is under the keys. -/
theorem sum_values (m : TextMap α) (f : α → Nat) {keys : Finset String}
    (within : ∀ k ∈ m.keys, k ∈ keys) :
    (m.values.map f).sum = ∑ k ∈ keys, ((m.get? k).map f).getD 0 := by
  have found : m.values.map f = m.keys.map fun k => ((m.get? k).map f).getD 0 := by
    rw [values, TextMap.keys, List.map_map, List.map_map]
    refine List.map_congr_left fun e mem => ?_
    simp [get?_of_mem_entries mem]
  rw [found, ← List.sum_toFinset _ m.nodup_keys]
  refine Finset.sum_subset (fun k mem => within k (List.mem_toFinset.1 mem)) fun k _ other => ?_
  rw [List.mem_toFinset, mem_keys_iff, Option.not_isSome_iff_eq_none] at other
  rw [other]
  rfl

/-- So the items of all lists with a property are those of the lists under the keys. -/
theorem countP_flatten_values (m : TextMap (List α)) (p : α → Bool) {keys : Finset String}
    (within : ∀ k ∈ m.keys, k ∈ keys) :
    m.values.flatten.countP p = ∑ k ∈ keys, ((m.get? k).getD []).countP p := by
  rw [List.countP_flatten, sum_values m _ within]
  refine Finset.sum_congr rfl fun k _ => ?_
  cases m.get? k <;> rfl

theorem length_flatten_values (m : TextMap (List α)) {keys : Finset String}
    (within : ∀ k ∈ m.keys, k ∈ keys) :
    m.values.flatten.length = ∑ k ∈ keys, ((m.get? k).getD []).length := by
  simpa using m.countP_flatten_values (fun _ => true) within

theorem size_eq_card {m : TextMap α} {keys : Finset String} (exact : ∀ k, k ∈ m.keys ↔ k ∈ keys) :
    m.size = keys.card := by
  have same : m.keys.toFinset = keys := Finset.ext fun k => List.mem_toFinset.trans (exact k)
  rw [← same, List.toFinset_card_of_nodup m.nodup_keys, TextMap.keys, List.length_map, size]

/-! ### Counting up -/

/-- A new value is added to the sum in place of the one that was there. -/
theorem sum_insertEntry (key : String) (value : Nat) {entries : List (String × Nat)}
    (increasing : Increasing entries) :
    ((insertEntry key value entries).map (·.2)).sum + (entries.lookup key).getD 0 =
      (entries.map (·.2)).sum + value := by
  induction entries with
  | nil => simp [insertEntry]
  | cons e rest ih =>
    obtain ⟨k, n⟩ := e
    obtain ⟨first, later⟩ := List.pairwise_cons.1 increasing
    rw [insertEntry, lookup_cons_ite]
    by_cases less : key < k
    · -- all keys that are there are greater
      have absent : rest.lookup key = none := by
        rw [List.lookup_eq_none_iff]
        intro d mem
        exact bne_iff_ne.2 fun same => String.lt_irrefl _ (same ▸ String.lt_trans less (first d mem))
      have other : key ≠ k := fun same => String.lt_irrefl _ (same ▸ less)
      rw [if_pos less, if_neg other, absent]
      simp only [List.map_cons, List.sum_cons, Option.getD_none]
      omega
    · by_cases same : key = k
      · rw [if_neg less, if_pos same, if_pos same]
        simp only [List.map_cons, List.sum_cons, Option.getD_some]
        omega
      · have behind := ih later
        rw [if_neg less, if_neg same, if_neg same]
        simp only [List.map_cons, List.sum_cons]
        omega

/-- The map holds how often each word occurs among the items that were seen, if it does. -/
structure Counts (word : α → String) (seen : List α) (counts : TextMap Nat) : Prop where
  counted : ∀ w n, counts.get? w = some n ↔ n = seen.countP (word · == w) ∧ n ≠ 0
  total : counts.values.sum = seen.length

theorem counts_nil (word : α → String) : Counts word [] .empty := by
  refine ⟨fun w n => ?_, rfl⟩
  simp [get?, empty]

variable {word : α → String} {seen items : List α} {counts : TextMap Nat}

theorem Counts.getD (h : Counts word seen counts) (w : String) :
    (counts.get? w).getD 0 = seen.countP (word · == w) := by
  cases found : counts.get? w with
  | some n => exact ((h.counted w n).1 found).1
  | none =>
    by_contra other
    rw [(h.counted w _).2 ⟨rfl, Ne.symm other⟩] at found
    cases found

/-- One more item counts once for its word. -/
theorem Counts.step (h : Counts word seen counts) (a : α) :
    Counts word (seen ++ [a]) (counts.insert (word a) ((counts.get? (word a)).getD 0 + 1)) := by
  refine ⟨fun w n => ?_, ?_⟩
  · rw [get?_insert, List.countP_append, List.countP_singleton, h.getD]
    by_cases same : w = word a
    · subst same
      rw [if_pos rfl, if_pos (beq_self_eq_true _), Option.some.injEq]
      constructor
      · rintro rfl
        exact ⟨rfl, Nat.succ_ne_zero _⟩
      · exact fun ⟨eq, _⟩ => eq.symm
    · have other : (word a == w) = false := beq_eq_false_iff_ne.2 (Ne.symm same)
      rw [if_neg same, h.counted]
      simp [other]
  · have added := sum_insertEntry (word a) ((counts.get? (word a)).getD 0 + 1) counts.increasing
    have total : (counts.entries.map (·.2)).sum = seen.length := h.total
    rw [List.length_append, List.length_singleton]
    change (List.map _ (insertEntry _ _ _)).sum = _
    rw [get?] at added ⊢
    omega

theorem Counts.foldl (h : Counts word seen counts) (items : List α) :
    Counts word (seen ++ items) (items.foldl
      (fun counts a => counts.insert (word a) ((counts.get? (word a)).getD 0 + 1)) counts) := by
  induction items generalizing seen counts with
  | nil => rwa [List.append_nil]
  | cons a items ih =>
    have next := ih (h.step a)
    rw [List.append_assoc] at next
    exact next

end SourceAtlas.TextMap
