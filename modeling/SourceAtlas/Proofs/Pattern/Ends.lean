import Mathlib.Logic.Relation
import SourceAtlas.Pattern
/-!
Where a pattern can end. The search tries the readings of a pattern one after the other; here they are
a relation between matches, one case per form of pattern, and every match that the search finds is
one of them. So what all readings of a pattern have in common is known of each match. The places at
which they end are a relation between the places of a line alone. A search through a line comes to all
of its places.
-/

namespace SourceAtlas

/-- The place is reached from another by passing over characters of a class. -/
inductive Cursor.Passes (accepts : Char → Bool) : Cursor → Cursor → Prop
  | here (k : Cursor) : Passes accepts k k
  | further {k i e : Cursor} {c : Char} (next : k.next? = some (c, i)) (accepted : accepts c)
      (rest : Passes accepts i e) : Passes accepts k e

theorem Cursor.Passes.trans {accepts : Char → Bool} {k i e : Cursor} (first : k.Passes accepts i)
    (second : i.Passes accepts e) : k.Passes accepts e := by
  induction first with
  | here => exact second
  | further next accepted _ ih => exact .further next accepted (ih second)

namespace Pattern

/-- The pattern, read from the first place on, can end at the second one. -/
def Ends : Pattern → Cursor → Cursor → Prop
  | empty, k, e => e = k
  | one accepts, k, e => ∃ c, k.next? = some (c, e) ∧ accepts c
  | wordEdge, k, e => k.atWordEdge ∧ e = k
  | lineEnd, k, e => k.after = [] ∧ e = k
  | both p q, k, e => ∃ i, p.Ends k i ∧ q.Ends i e
  | either p q, k, e => p.Ends k e ∨ q.Ends k e
  | run accepts, k, e => e = k.skip accepts
  | fewest accepts, k, e => k.Passes accepts e
  | many p, k, e => Relation.ReflTransGen p.Ends k e
  | only fits p, k, e => p.Ends k e ∧ fits (k.upTo e)
  | group _ p, k, e => p.Ends k e

/-- The second match is the first one moved on by a reading of the pattern, with the groups kept that
it has set. -/
def Reads : Pattern → Match → Match → Prop
  | empty, m, e => e = m
  | one accepts, m, e => ∃ c k, m.cursor.next? = some (c, k) ∧ accepts c ∧ e = m.moveTo k
  | wordEdge, m, e => m.cursor.atWordEdge ∧ e = m
  | lineEnd, m, e => m.rest = [] ∧ e = m
  | both p q, m, e => ∃ i, p.Reads m i ∧ q.Reads i e
  | either p q, m, e => p.Reads m e ∨ q.Reads m e
  | run accepts, m, e => e = m.moveTo (m.cursor.skip accepts)
  | fewest accepts, m, e => ∃ k, m.cursor.Passes accepts k ∧ e = m.moveTo k
  | many p, m, e => Relation.ReflTransGen p.Reads m e
  | only fits p, m, e => p.Reads m e ∧ fits (m.cursor.upTo e.cursor)
  | group i p, m, e => ∃ d, p.Reads m d ∧ e = { d with groups := (i, m.cursor, d.cursor) :: d.groups }

variable {p : Pattern} {next : Match → Option Match} {m r : Match}

theorem passes_of_advance {accepts : Char → Bool} {goOn : Cursor → Option Match} {read : Nat}
    {last : Option Char} {text : List Char} (h : advance accepts goOn read last text = some r) :
    ∃ e, Cursor.Passes accepts ⟨read, last, text⟩ e ∧ goOn e = some r := by
  induction text generalizing read last with
  | nil => exact ⟨_, .here _, h⟩
  | cons c cs ih =>
    rw [advance] at h
    split at h
    · rename_i found
      exact ⟨_, .here _, found.trans h⟩
    · split at h
      · rename_i accepted
        obtain ⟨e, passes, found⟩ := ih h
        exact ⟨e, .further rfl accepted passes, found⟩
      · cases h

/-- What a repetition reads is a chain of readings, if each step of it is a reading. -/
theorem chain_of_repeated {step : (Match → Option Match) → Match → Option Match}
    (sound : ∀ {goOn : Match → Option Match} {m : Match}, step goOn m = some r →
      ∃ e, p.Reads m e ∧ goOn e = some r)
    {fuel : Nat} (h : repeated step next fuel m = some r) :
    ∃ e, Relation.ReflTransGen p.Reads m e ∧ next e = some r := by
  induction fuel generalizing m with
  | zero => exact ⟨m, .refl, h⟩
  | succ fuel ih =>
    rw [repeated] at h
    split at h
    · rename_i found
      obtain ⟨i, first, later⟩ := sound (found.trans h)
      obtain ⟨e, chain, last⟩ := ih later
      exact ⟨e, .head first chain, last⟩
    · exact ⟨m, .refl, h⟩

/-- A search goes on from a reading of the pattern. -/
theorem reads_of_find? (h : p.find? next m = some r) : ∃ e, p.Reads m e ∧ next e = some r := by
  induction p generalizing next m with
  | empty => exact ⟨m, rfl, h⟩
  | one accepts =>
    rw [find?] at h
    split at h
    · rename_i c k here
      rw [Option.ite_none_right_eq_some] at h
      exact ⟨m.moveTo k, ⟨c, k, here, h.1, rfl⟩, h.2⟩
    · cases h
  | wordEdge =>
    rw [find?, Option.ite_none_right_eq_some] at h
    exact ⟨m, ⟨h.1, rfl⟩, h.2⟩
  | lineEnd =>
    rw [find?, Option.ite_none_right_eq_some, List.isEmpty_iff] at h
    exact ⟨m, ⟨h.1, rfl⟩, h.2⟩
  | both p q first second =>
    obtain ⟨i, front, found⟩ := first h
    obtain ⟨e, back, found⟩ := second found
    exact ⟨e, ⟨i, front, back⟩, found⟩
  | either p q first second =>
    rw [find?] at h
    split at h
    · rename_i found
      obtain ⟨e, reads, found⟩ := first (found.trans h)
      exact ⟨e, .inl reads, found⟩
    · obtain ⟨e, reads, found⟩ := second h
      exact ⟨e, .inr reads, found⟩
  | run accepts => exact ⟨m.moveTo (m.cursor.skip accepts), rfl, h⟩
  | fewest accepts =>
    obtain ⟨k, passes, found⟩ := passes_of_advance h
    exact ⟨m.moveTo k, ⟨k, passes, rfl⟩, found⟩
  | many p ih => exact chain_of_repeated ih h
  | only fits p ih =>
    obtain ⟨e, reads, found⟩ := ih h
    rw [Option.ite_none_right_eq_some] at found
    exact ⟨e, ⟨reads, found.1⟩, found.2⟩
  | group i p ih =>
    obtain ⟨e, reads, found⟩ := ih h
    exact ⟨_, ⟨e, reads, rfl⟩, found⟩

/-- A reading of a pattern ends at one of its ends. -/
theorem Reads.ends (h : p.Reads m r) : p.Ends m.cursor r.cursor := by
  induction p generalizing m r with
  | empty => exact congrArg Match.cursor h
  | one accepts =>
    obtain ⟨c, k, next, accepted, rfl⟩ := h
    exact ⟨c, next, accepted⟩
  | wordEdge => exact ⟨h.1, congrArg Match.cursor h.2⟩
  | lineEnd => exact ⟨h.1, congrArg Match.cursor h.2⟩
  | both p q first second =>
    obtain ⟨i, front, back⟩ := h
    exact ⟨i.cursor, first front, second back⟩
  | either p q first second => exact h.imp first second
  | run accepts => exact congrArg Match.cursor h
  | fewest accepts =>
    obtain ⟨k, passes, rfl⟩ := h
    exact passes
  | many p ih => exact Relation.ReflTransGen.lift Match.cursor (fun _ _ step => ih step) _ _ h
  | only fits p ih => exact ⟨ih h.1, h.2⟩
  | group i p ih =>
    obtain ⟨d, reads, rfl⟩ := h
    exact (ih reads : p.Ends m.cursor d.cursor)

/-- A search goes on from an end of the pattern. -/
theorem ends_of_find? (h : p.find? next m = some r) :
    ∃ e : Match, p.Ends m.cursor e.cursor ∧ next e = some r := by
  obtain ⟨e, reads, found⟩ := reads_of_find? h
  exact ⟨e, reads.ends, found⟩

/-- A match at the start of a line ends where the pattern can end. -/
theorem ends_of_match? {line : List Char} (h : p.match? line = some m) :
    p.Ends (Cursor.start line) m.cursor := by
  obtain ⟨e, ends, found⟩ := ends_of_find? h
  rw [← Option.some.inj found]
  exact ends

/-! ### The text behind a place -/

variable {k e : Cursor} {accepts : Char → Bool} {c : Char}

theorem after_of_next? (h : k.next? = some (c, e)) : k.after = c :: e.after := by
  rw [Cursor.next?] at h
  split at h
  · cases h
  · rename_i front
    obtain ⟨rfl, rfl⟩ := Prod.mk.inj (Option.some.inj h)
    exact front

theorem after_skip (k : Cursor) : (k.skip accepts).after = k.after.dropWhile accepts := by
  have behind : ∀ (text : List Char) (read : Nat) (last : Option Char),
      (Cursor.skipFrom accepts read last text).after = text.dropWhile accepts := by
    intro text
    induction text with
    | nil => exact fun _ _ => rfl
    | cons c cs ih =>
      intro read last
      rw [Cursor.skipFrom, List.dropWhile_cons]
      split
      · exact ih _ _
      · rfl
  exact behind _ _ _

theorem Ends.after_run (h : (run accepts).Ends k e) : e.after = k.after.dropWhile accepts := by
  rw [show e = k.skip accepts from h, after_skip]

theorem Ends.exists_run (h : (run accepts).Ends k e) :
    ∃ t, (∀ c ∈ t, accepts c) ∧ k.after = t ++ e.after := by
  refine ⟨k.after.takeWhile accepts, List.all_eq_true.1 List.all_takeWhile, ?_⟩
  rw [h.after_run]
  exact List.takeWhile_append_dropWhile.symm

theorem Ends.after_char (h : (char c).Ends k e) : k.after = c :: e.after := by
  obtain ⟨d, next, same⟩ := h
  rw [after_of_next? next, eq_of_beq same]

/-- A run that is not empty begins with a character of the class. -/
theorem Ends.after_oneOrMore (h : (oneOrMore accepts).Ends k e) :
    k.after.head?.any accepts ∧ e.after = k.after.dropWhile accepts := by
  obtain ⟨i, ⟨d, next, first⟩, rest⟩ := h
  rw [after_of_next? next, rest.after_run, List.dropWhile_cons, if_pos first]
  exact ⟨by simpa using first, rfl⟩

theorem Ends.after_chars {text : List Char} (h : (all (text.map char)).Ends k e) :
    k.after = text ++ e.after := by
  induction text generalizing k with
  | nil => rw [show e = k from h, List.nil_append]
  | cons c cs ih =>
    cases cs with
    | nil => exact h.after_char
    | cons d ds =>
      obtain ⟨i, first, rest⟩ := h
      rw [first.after_char, ih rest]
      rfl

/-- A text can be read only where it stands. -/
theorem Ends.after_literal {text : String} (h : (literal text).Ends k e) :
    k.after = text.toList ++ e.after := h.after_chars

/-- One of the texts stands there. -/
theorem Ends.after_word {texts : List String} (h : (word texts).Ends k e) :
    ∃ text ∈ texts, k.after = text.toList ++ e.after := by
  induction texts with
  | nil =>
    obtain ⟨_, _, never⟩ := h
    cases never
  | cons text texts ih =>
    cases texts with
    | nil => exact ⟨text, List.mem_singleton_self _, h.after_literal⟩
    | cons next others =>
      rcases h with first | later
      · exact ⟨text, List.mem_cons_self, first.after_literal⟩
      · obtain ⟨other, mem, eq⟩ := ih later
        exact ⟨other, List.mem_cons_of_mem _ mem, eq⟩

/-! ### Searching -/

theorem passes_skip (k : Cursor) : k.Passes (fun _ => true) (k.skip accepts) := by
  have behind : ∀ (text : List Char) (read : Nat) (last : Option Char),
      Cursor.Passes (fun _ => true) ⟨read, last, text⟩ (Cursor.skipFrom accepts read last text) := by
    intro text
    induction text with
    | nil => exact fun _ _ => .here _
    | cons c cs ih =>
      intro read last
      rw [Cursor.skipFrom]
      split
      · exact .further rfl rfl (ih _ _)
      · exact .here _
  exact behind _ _ _

/-- The end of a pattern does not stand before its start. -/
theorem Ends.passes (h : p.Ends k e) : k.Passes (fun _ => true) e := by
  induction p generalizing k e with
  | empty => exact h ▸ .here e
  | one accepts =>
    obtain ⟨c, next, _⟩ := h
    exact .further next rfl (.here e)
  | wordEdge => exact h.2 ▸ .here e
  | lineEnd => exact h.2 ▸ .here e
  | both p q first second =>
    obtain ⟨i, front, back⟩ := h
    exact (first front).trans (second back)
  | either p q first second =>
    rcases h with h | h
    · exact first h
    · exact second h
  | run accepts => exact h ▸ passes_skip k
  | fewest accepts =>
    induction h with
    | here k => exact .here k
    | further next _ _ ih => exact .further next rfl ih
  | many p ih =>
    induction h using Relation.ReflTransGen.head_induction_on with
    | refl => exact .here e
    | head step _ rest => exact (ih step).trans rest
  | only fits p ih => exact ih h.1
  | group i p ih => exact ih h

theorem searchFrom?_ne_none (passes : k.Passes (fun _ => true) e) (h : p.matchAt? e ≠ none) :
    p.searchFrom? k.read k.last k.after ≠ none := by
  induction passes with
  | here k =>
    obtain ⟨read, last, text⟩ := k
    cases text with
    | nil => exact h
    | cons c cs =>
      rw [searchFrom?]
      split
      · exact Option.some_ne_none _
      · rename_i none
        exact absurd none h
  | @further k i e c next _ _ ih =>
    obtain ⟨read, last, text⟩ := k
    cases text with
    | nil => cases next
    | cons d ds =>
      obtain ⟨rfl, rfl⟩ := Prod.mk.inj (Option.some.inj next)
      rw [searchFrom?]
      split
      · exact Option.some_ne_none _
      · exact ih h

/-- A search comes to every place of the line, so it finds a match if there is one at some place. -/
theorem search?_ne_none {line : List Char} (passes : (Cursor.start line).Passes (fun _ => true) e)
    (h : p.matchAt? e ≠ none) : p.search? line ≠ none :=
  searchFrom?_ne_none passes h

/-- There is one way to read a text. -/
theorem find?_of_chars {text : List Char} (h : (all (text.map char)).Ends m.cursor e) :
    (all (text.map char)).find? next m = next (m.moveTo e) := by
  have single : ∀ {c : Char} {m : Match} {e : Cursor} {next : Match → Option Match},
      (char c).Ends m.cursor e → (char c).find? next m = next (m.moveTo e) := by
    rintro c m e next ⟨d, here, same⟩
    rw [char, find?, here]
    simp only [same, if_true]
  induction text generalizing m with
  | nil =>
    obtain rfl : e = m.cursor := h
    rfl
  | cons c cs ih =>
    cases cs with
    | nil => exact single h
    | cons d ds =>
      obtain ⟨i, first, rest⟩ := h
      have goOn : (all ((c :: d :: ds).map char)).find? next m =
          (all ((d :: ds).map char)).find? next (m.moveTo i) := single first
      exact goOn.trans (ih (m := m.moveTo i) rest)

end Pattern

end SourceAtlas
