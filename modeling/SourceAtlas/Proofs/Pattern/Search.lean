import SourceAtlas.Proofs.Pattern.Forward
/-!
Searches through a line. A search passes over the places where a pattern has no end. Where a pattern
always reads something, each further match of a search through the whole line begins behind the one
before, so the bound on their number plays no part.
-/

namespace SourceAtlas

namespace Cursor

variable {k e : Cursor} {accepts : Char → Bool}

/-- Passing over characters moves them from the text that follows to what was read. -/
theorem Passes.read_add_length (h : k.Passes accepts e) :
    k.read + k.after.length = e.read + e.after.length ∧ k.read ≤ e.read := by
  induction h with
  | here k => exact ⟨rfl, Nat.le_refl _⟩
  | @further k i e c next _ _ ih =>
    obtain ⟨read, last, text⟩ := k
    cases text with
    | nil => cases next
    | cons d ds =>
      obtain ⟨rfl, rfl⟩ := Prod.mk.inj (Option.some.inj next)
      simp only [List.length_cons] at ih ⊢
      omega

theorem Passes.suffix (h : k.Passes accepts e) : e.after <:+ k.after := by
  induction h with
  | here k => exact List.suffix_rfl
  | @further k i e c next _ _ ih =>
    rw [Pattern.after_of_next? next]
    exact ih.trans (List.suffix_cons c i.after)

end Cursor

namespace Pattern

variable {p : Pattern} {k e : Cursor} {m : Match}

theorem ends_of_matchAt? (h : p.matchAt? k = some m) : p.Ends k m.cursor := by
  obtain ⟨e, ends, found⟩ := ends_of_find? h
  rw [← Option.some.inj found]
  exact ends

theorem matchAt?_eq_none (none : ∀ e, ¬p.Ends k e) : p.matchAt? k = .none :=
  Option.eq_none_iff_forall_ne_some.2 fun _ found => none _ (ends_of_matchAt? found)

/-- A match that is found is one at a place from here on. -/
theorem matchAt?_of_searchFrom? {read : Nat} {last : Option Char} {text : List Char}
    (h : p.searchFrom? read last text = some m) :
    ∃ j, Cursor.Passes (fun _ => true) ⟨read, last, text⟩ j ∧ p.matchAt? j = some m := by
  induction text generalizing read last with
  | nil => exact ⟨_, .here _, h⟩
  | cons c cs ih =>
    rw [searchFrom?] at h
    split at h
    · rename_i found
      exact ⟨_, .here _, found.trans h⟩
    · obtain ⟨j, passes, found⟩ := ih h
      exact ⟨j, .further rfl rfl passes, found⟩

theorem exists_of_searchFrom? {read : Nat} {last : Option Char} {text : List Char}
    (h : p.searchFrom? read last text = some m) :
    ∃ j, Cursor.Passes (fun _ => true) ⟨read, last, text⟩ j ∧ p.Ends j m.cursor := by
  obtain ⟨j, passes, found⟩ := matchAt?_of_searchFrom? h
  exact ⟨j, passes, ends_of_matchAt? found⟩

theorem searchFrom?_eq_none (none : ∀ j e, Cursor.Passes (fun _ => true) k j → ¬p.Ends j e) :
    p.searchFrom? k.read k.last k.after = .none :=
  Option.eq_none_iff_forall_ne_some.2 fun m found => by
    obtain ⟨j, passes, ends⟩ := exists_of_searchFrom? found
    exact none j m.cursor passes ends

/-- The pattern has no end where it is read inside of a text that `rest` follows. -/
def Skips (p : Pattern) (t rest : List Char) : Prop :=
  ∀ b, b <:+ t → b ≠ [] → ∀ k e : Cursor, k.after = b ++ rest → ¬p.Ends k e

/-- So it is if the pattern begins with none of its characters. -/
theorem skips_of_head? {t : List Char} (h : ∀ k e, p.Ends k e → ∃ c ∈ k.after.head?, c ∉ t)
    (rest : List Char) : p.Skips t rest := by
  intro b suffix filled k e front ends
  obtain ⟨c, cs, rfl⟩ := List.exists_cons_of_ne_nil filled
  obtain ⟨d, first, other⟩ := h k e ends
  rw [front] at first
  obtain rfl : c = d := Option.some.inj first
  exact other (suffix.mem List.mem_cons_self)

/-- A text in two parts is told part by part. -/
theorem Skips.append {a b rest : List Char} (first : p.Skips a (b ++ rest)) (second : p.Skips b rest) :
    p.Skips (a ++ b) rest := by
  rintro t ⟨before, eq⟩ filled k e front
  rcases List.append_eq_append_iff.1 eq with ⟨a', whole, rfl⟩ | ⟨b', _, whole⟩
  · rw [List.append_assoc] at front
    by_cases none : a' = []
    · subst none
      exact second b List.suffix_rfl filled k e front
    · exact first a' ⟨before, whole.symm⟩ none k e front
  · exact second t ⟨b', whole.symm⟩ filled k e front

/-- Such a text is passed over. -/
theorem searchFrom?_past {t rest : List Char} (skips : p.Skips t rest) {k : Cursor}
    (h : k.after = t ++ rest) :
    p.searchFrom? k.read k.last k.after =
      p.searchFrom? (k.past t rest).read (k.past t rest).last rest := by
  rw [h]
  induction t generalizing k with
  | nil => rfl
  | cons c t ih =>
    have here : p.matchAt? ⟨k.read, k.last, c :: (t ++ rest)⟩ = none :=
      matchAt?_eq_none fun e => skips (c :: t) List.suffix_rfl (List.cons_ne_nil _ _) _ e rfl
    have later : p.Skips t rest := fun b suffix => skips b (suffix.trans (List.suffix_cons c t))
    have next := @ih later (k.past [c] (t ++ rest)) rfl
    rw [Cursor.past_past] at next
    rw [List.cons_append, searchFrom?, here]
    exact next

theorem searchFrom?_of_matchAt? (h : p.matchAt? k = some m) :
    p.searchFrom? k.read k.last k.after = some m := by
  obtain ⟨read, last, text⟩ := k
  cases text with
  | nil => exact h
  | cons c cs =>
    simp only [searchFrom?]
    rw [h]

/-! ### All matches -/

/-- Each of the matches in a line is one at a place of it. -/
theorem matchAt?_of_mem_searchAll {line : List Char} (mem : m ∈ p.searchAll line) :
    ∃ j, (Cursor.start line).Passes (fun _ => true) j ∧ p.matchAt? j = some m := by
  have from_ : ∀ {fuel k}, m ∈ p.searchAllFrom fuel k →
      ∃ j, k.Passes (fun _ => true) j ∧ p.matchAt? j = some m := by
    intro fuel
    induction fuel with
    | zero => exact fun mem => absurd mem List.not_mem_nil
    | succ fuel ih =>
      intro k mem
      rw [searchAllFrom] at mem
      split at mem
      · cases mem
      · rename_i d found
        obtain ⟨i, passes, here⟩ := matchAt?_of_searchFrom? found
        split at mem
        · rcases List.mem_cons.1 mem with rfl | later
          · exact ⟨i, passes, here⟩
          · -- the search goes on behind the match
            obtain ⟨j, further, there⟩ := ih later
            exact ⟨j, (passes.trans (ends_of_matchAt? here).passes).trans further, there⟩
        · obtain rfl := List.mem_singleton.1 mem
          exact ⟨i, passes, here⟩
  exact from_ mem

/-- The pattern always reads something. -/
def Filled (p : Pattern) : Prop := ∀ k e : Cursor, p.Ends k e → k.read < e.read

theorem filled_one (accepts : Char → Bool) : Filled (one accepts) := by
  rintro ⟨read, last, text⟩ e ⟨c, next, _⟩
  cases text with
  | nil => cases next
  | cons d ds =>
    obtain ⟨rfl, rfl⟩ := Prod.mk.inj (Option.some.inj next)
    exact Nat.lt_succ_self read

theorem Filled.both {p : Pattern} (h : p.Filled) (q : Pattern) : Filled (both p q) := by
  rintro k e ⟨i, first, rest⟩
  exact Nat.lt_of_lt_of_le (h k i first) rest.passes.read_add_length.2

theorem Filled.behind {q : Pattern} (h : q.Filled) (p : Pattern) : Filled (Pattern.both p q) := by
  rintro k e ⟨i, first, rest⟩
  exact Nat.lt_of_le_of_lt first.passes.read_add_length.2 (h i e rest)

theorem Filled.behind_wordEdge {q : Pattern} (h : q.Filled) : Filled (Pattern.both wordEdge q) :=
  h.behind wordEdge

/-- Behind a match that is found less of the line is left. -/
theorem Filled.length_lt (h : p.Filled) (found : p.searchFrom? k.read k.last k.after = some m) :
    k.read < m.cursor.read ∧ m.cursor.after.length < k.after.length := by
  obtain ⟨j, passes, ends⟩ := exists_of_searchFrom? found
  have first := passes.read_add_length
  have second := ends.passes.read_add_length
  have further := h j m.cursor ends
  simp only at first
  omega

/-- All matches from a place on. -/
def matchesFrom (p : Pattern) (k : Cursor) : List Match := p.searchAllFrom (k.after.length + 1) k

theorem searchAllFrom_eq (h : p.Filled) {fuel : Nat} (enough : k.after.length < fuel) :
    p.searchAllFrom fuel k = p.matchesFrom k := by
  have same : ∀ {n k fuel}, k.after.length < n → k.after.length < fuel →
      p.searchAllFrom n k = p.searchAllFrom fuel k := by
    intro n
    induction n with
    | zero => exact fun less => absurd less (Nat.not_lt_zero _)
    | succ n ih =>
      intro k fuel less enough
      obtain ⟨fuel, rfl⟩ := Nat.exists_eq_succ_of_ne_zero (Nat.ne_zero_of_lt enough)
      rw [searchAllFrom, searchAllFrom]
      split
      · rfl
      · rename_i m found
        have shorter := (h.length_lt found).2
        have rest := @ih m.cursor fuel (by omega) (by omega)
        rw [rest]
  exact same enough (Nat.lt_succ_self _)

theorem searchAll_eq_nil {line : List Char} (h : p.search? line = none) : p.searchAll line = [] := by
  have first : p.searchFrom? (Cursor.start line).read (Cursor.start line).last (Cursor.start line).after =
      none := h
  rw [searchAll, searchAllFrom, first]

/-- They are the first one and those behind it. -/
theorem matchesFrom_eq (h : p.Filled) (k : Cursor) : p.matchesFrom k =
    match p.searchFrom? k.read k.last k.after with
    | none => []
    | some m => m :: p.matchesFrom m.cursor := by
  cases found : p.searchFrom? k.read k.last k.after with
  | none => rw [matchesFrom, searchAllFrom, found]
  | some m =>
    obtain ⟨further, shorter⟩ := h.length_lt found
    rw [matchesFrom, searchAllFrom, found]
    dsimp only
    rw [if_pos further, searchAllFrom_eq h shorter]

/-- None of them begins in a text that is passed over. -/
theorem matchesFrom_past (h : p.Filled) {t rest : List Char} (skips : p.Skips t rest)
    (front : k.after = t ++ rest) : p.matchesFrom k = p.matchesFrom (k.past t rest) := by
  rw [matchesFrom_eq h, matchesFrom_eq h (k.past t rest), searchFrom?_past skips front]
  rfl

end Pattern

end SourceAtlas
