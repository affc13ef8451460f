/-!
Look-up in association lists: in front of the rest, and after entries were filtered by their keys.
-/

namespace SourceAtlas

variable [BEq κ] [LawfulBEq κ] [DecidableEq κ]

theorem lookup_cons_ite (key other : κ) (a : α) (rest : List (κ × α)) :
    ((key, a) :: rest).lookup other = if other = key then some a else rest.lookup other := by
  by_cases same : other = key
  · simp [same]
  · simp [List.lookup_cons, beq_eq_false_iff_ne.2 same, same]

/-- A filter on keys hides the keys that it does not pass and no others. -/
theorem lookup_filter (pass : κ → Bool) (key : κ) : ∀ entries : List (κ × α),
    (entries.filter fun e => pass e.1).lookup key = if pass key then entries.lookup key else none
  | [] => by simp
  | (k, a) :: rest => by
    rw [List.filter_cons]
    split
    · rename_i passes
      rw [lookup_cons_ite, lookup_cons_ite, lookup_filter]
      by_cases same : key = k
      · simp [same, passes]
      · simp [same]
    · rename_i stopped
      rw [lookup_cons_ite, lookup_filter]
      by_cases same : key = k
      · simp [same, stopped]
      · simp [same]

omit [DecidableEq κ] in
theorem mem_of_lookup {key : κ} {a : α} : ∀ {entries : List (κ × α)},
    entries.lookup key = some a → (key, a) ∈ entries
  | (k, b) :: rest, h => by
    rw [List.lookup_cons] at h
    split at h
    · rename_i same
      obtain rfl : key = k := by simpa using same
      obtain rfl : b = a := by simpa using h
      exact List.mem_cons_self
    · exact List.mem_cons_of_mem _ (mem_of_lookup h)

end SourceAtlas
