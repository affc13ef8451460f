import SourceAtlas.Proofs.Pattern.Ends
/-!
Readings that a search takes. Where a pattern goes from one match to another, the search comes to that
end first, and it stays with it if what comes next leads to a match there. So the way of a rule over a
text is put together from those of its parts.
-/

namespace SourceAtlas

namespace Cursor

variable {k : Cursor} {accepts : Char → Bool} {t rest : List Char}

/-- The place behind a text that stands here, with the rest behind it. -/
def past (k : Cursor) (t rest : List Char) : Cursor := ⟨k.read + t.length, t.getLast?.or k.last, rest⟩

theorem past_past (k : Cursor) (a b rest between : List Char) :
    (k.past a between).past b rest = k.past (a ++ b) rest := by
  simp [past, Nat.add_assoc, List.getLast?_append, Option.or_assoc]

theorem upTo_past (h : k.after = t ++ rest) : k.upTo (k.past t rest) = t := by
  rw [upTo, past, Nat.add_sub_cancel_left, h, List.take_left]

/-- A run goes on behind characters that it takes, -/
theorem skip_past (h : k.after = t ++ rest) (accepted : ∀ c ∈ t, accepts c) :
    k.skip accepts = (k.past t rest).skip accepts := by
  obtain ⟨read, last, text⟩ := k
  obtain rfl : text = t ++ rest := h
  induction t generalizing read last with
  | nil => rfl
  | cons c t ih =>
    have later := ih (fun d mem => accepted d (List.mem_cons_of_mem _ mem)) (read + 1) (some c)
    have past := past_past ⟨read, last, c :: (t ++ rest)⟩ [c] t rest (t ++ rest)
    rw [List.singleton_append] at past
    rw [List.cons_append, ← past, skip, skipFrom, if_pos (accepted c List.mem_cons_self)]
    exact later

/-- and it takes no more of them than stand there. -/
theorem skip_eq (h : k.after = t ++ rest) (accepted : ∀ c ∈ t, accepts c)
    (stop : ∀ c ∈ rest.head?, accepts c = false) : k.skip accepts = k.past t rest := by
  rw [skip_past h accepted]
  cases rest with
  | nil => rfl
  | cons c rest =>
    rw [past, skip, skipFrom, if_neg (by simp [stop c rfl])]

end Cursor

/-- What was kept of a match is told by its groups alone. -/
theorem Match.group?_congr {m e : Match} (same : e.groups = m.groups) (index : Nat) :
    e.group? index = m.group? index := by
  rw [group?, same]
  rfl

namespace Pattern

variable {p q : Pattern} {m i e : Match} {accepts : Char → Bool} {t rest : List Char}

/-- The pattern goes from a match to another one: the search comes there first, and stays there if it
can go on. -/
def Goes (p : Pattern) (m e : Match) : Prop := ∀ next, next e ≠ none → p.find? next m = next e

theorem Goes.matchAt? {k : Cursor} (h : p.Goes (Match.start k) e) : p.matchAt? k = some e :=
  h some (Option.some_ne_none e)

theorem Goes.both (first : p.Goes m i) (second : q.Goes i e) : (both p q).Goes m e := by
  intro next goesOn
  have behind := second next goesOn
  exact (first (q.find? next) (behind ▸ goesOn)).trans behind

theorem Goes.group (h : p.Goes m e) (index : Nat) :
    (group index p).Goes m { e with groups := (index, m.cursor, e.cursor) :: e.groups } :=
  fun _ goesOn => h _ goesOn

/-- The first of two patterns is taken, -/
theorem Goes.either (h : p.Goes m e) (q : Pattern) : (either p q).Goes m e := by
  intro next goesOn
  rw [find?, h next goesOn]
  split
  · rename_i found
    exact found.symm
  · rename_i none
    exact absurd none goesOn

/-- and the second one where the first has no end. -/
theorem Goes.otherwise (h : q.Goes m e) (none : ∀ i, ¬p.Ends m.cursor i) :
    (Pattern.either p q).Goes m e := by
  intro next goesOn
  have nothing : p.find? next m = Option.none :=
    Option.eq_none_iff_forall_ne_some.2 fun _ found => by
      obtain ⟨i, ends, _⟩ := ends_of_find? found
      exact none i.cursor ends
  rw [find?, nothing]
  exact h next goesOn

/-- That is also so where it is told only by what comes behind them that the first one does not fit. -/
theorem Goes.otherwise_both {r : Pattern} (h : (Pattern.both q r).Goes m e)
    (none : ∀ i, ¬(Pattern.both p r).Ends m.cursor i) :
    (Pattern.both (Pattern.either p q) r).Goes m e :=
  fun next goesOn => h.otherwise none next goesOn

theorem Goes.only {fits : List Char → Bool} (h : p.Goes m e) (fit : fits (m.cursor.upTo e.cursor)) :
    (only fits p).Goes m e := by
  intro next goesOn
  have found := h (fun e => if fits (m.cursor.upTo e.cursor) then next e else Option.none)
  rw [if_pos fit] at found
  exact found goesOn

theorem goes_optional (none : ∀ i, ¬p.Ends m.cursor i) : (optional p).Goes m m :=
  Goes.otherwise (fun _ _ => rfl) none

theorem goes_wordEdge (h : m.cursor.atWordEdge) : wordEdge.Goes m m :=
  fun _ _ => if_pos h

theorem goes_one {c : Char} (h : m.rest = c :: rest) (accepted : accepts c) :
    (one accepts).Goes m (m.moveTo (m.cursor.past [c] rest)) := by
  intro next _
  have here : m.cursor.next? = some (c, m.cursor.past [c] rest) := by
    rw [Cursor.next?, show m.cursor.after = c :: rest from h]
    rfl
  rw [find?, here]
  exact if_pos accepted

theorem goes_run (h : m.rest = t ++ rest) (accepted : ∀ c ∈ t, accepts c)
    (stop : ∀ c ∈ rest.head?, accepts c = false) :
    (run accepts).Goes m (m.moveTo (m.cursor.past t rest)) := by
  intro next _
  rw [find?, Cursor.skip_eq h accepted stop]

/-- A run may take nothing. -/
theorem goes_noRun (stop : ∀ c ∈ m.rest.head?, accepts c = false) : (run accepts).Goes m m := by
  have nothing : (run accepts).Goes m (m.moveTo (m.cursor.past [] m.rest)) :=
    goes_run rfl (List.forall_mem_nil _) stop
  exact nothing

/-- A character of one class and all those of another that follow it. -/
theorem goes_one_run {first : Char → Bool} {c : Char} (h : m.rest = c :: (t ++ rest)) (begins : first c)
    (accepted : ∀ d ∈ t, accepts d) (stop : ∀ d ∈ rest.head?, accepts d = false) :
    (both (one first) (run accepts)).Goes m (m.moveTo (m.cursor.past (c :: t) rest)) := by
  have whole := (goes_one h begins).both (goes_run rfl accepted stop)
  simp only [Match.moveTo, Cursor.past_past] at whole
  exact whole

/-- The nearest end before a character is taken. -/
theorem goes_fewest_char {c : Char} (h : m.rest = t ++ c :: rest) (accepted : ∀ d ∈ t, accepts d)
    (other : c ∉ t) :
    (both (fewest accepts) (char c)).Goes m (m.moveTo (m.cursor.past (t ++ [c]) rest)) := by
  intro next goesOn
  -- from each place before the character, the search has to go on
  have goes : ∀ (t : List Char) (k : Cursor), k.after = t ++ c :: rest → (∀ d ∈ t, accepts d) → c ∉ t →
      next (m.moveTo (k.past (t ++ [c]) rest)) ≠ none →
      advance accepts (fun k => (char c).find? next (m.moveTo k)) k.read k.last k.after =
        next (m.moveTo (k.past (t ++ [c]) rest)) := by
    intro t
    induction t with
    | nil =>
      rintro ⟨read, last, text⟩ rfl _ _ goesOn
      have mark : (char c).Goes (m.moveTo ⟨read, last, c :: rest⟩) _ := goes_one rfl (beq_self_eq_true c)
      have here := mark next goesOn
      rw [List.nil_append, advance, here]
      split
      · rename_i found
        exact found.symm
      · rename_i none
        exact absurd none goesOn
    | cons d t ih =>
      rintro ⟨read, last, text⟩ rfl accepted other goesOn
      have here : (char c).find? next (m.moveTo ⟨read, last, d :: (t ++ c :: rest)⟩) = none :=
        if_neg (by simpa using fun same : d = c => other (same ▸ List.mem_cons_self))
      have past : (⟨read, last, d :: t ++ c :: rest⟩ : Cursor).past (d :: t ++ [c]) rest = _ :=
        (Cursor.past_past ⟨read, last, d :: t ++ c :: rest⟩ [d] (t ++ [c]) rest (t ++ c :: rest)).symm
      rw [past] at goesOn ⊢
      rw [List.cons_append, advance, here]
      simp only [accepted d List.mem_cons_self, if_true]
      exact ih _ rfl (fun e mem => accepted e (List.mem_cons_of_mem _ mem))
        (fun mem => other (List.mem_cons_of_mem _ mem)) goesOn
  exact goes t m.cursor h accepted other goesOn

theorem goes_literal {text : String} (h : m.rest = text.toList ++ rest) :
    (literal text).Goes m (m.moveTo (m.cursor.past text.toList rest)) := by
  have chars : ∀ (t : List Char) (m : Match), m.rest = t ++ rest →
      (all (t.map char)).Goes m (m.moveTo (m.cursor.past t rest)) := by
    intro t
    induction t with
    | nil =>
      intro m h next _
      have same : m.moveTo (m.cursor.past [] rest) = m := by
        rw [← show m.rest = rest from h]
        rfl
      rw [same]
      rfl
    | cons c t ih =>
      intro m h
      cases t with
      | nil => exact goes_one h (beq_self_eq_true c)
      | cons d t =>
        have first : (char c).Goes m (m.moveTo (m.cursor.past [c] (d :: t ++ rest))) :=
          goes_one h (beq_self_eq_true c)
        have whole := first.both (ih _ rfl)
        rw [Match.moveTo, Match.moveTo, Cursor.past_past] at whole
        exact whole
  exact chars _ _ h

end Pattern

end SourceAtlas
