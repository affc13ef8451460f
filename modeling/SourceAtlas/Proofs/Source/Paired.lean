import SourceAtlas.Proofs.Source.Balance
/-!
Brackets that are closed by their own kind. Such a text is balanced for the scans that take all kinds
together. The scan that skips type parameters counts angle brackets alone, and every `>` among them:
it goes to the end of such a text that has no arrow, and in one that has an arrow it comes to an end
too early, as there are more `>` than `<`.
-/

namespace SourceAtlas.Source

variable {prev c : Char} {waiting t : List Char}

/-- The bracket that closes one that is opened. -/
def closerOf (c : Char) : Char :=
  if c = '(' then ')' else if c = '[' then ']' else if c = '{' then '}' else '>'

/-- Each bracket of a text is closed by its own kind, and so are those that were opened before it and
wait for theirs, the innermost first. The `>` of an arrow closes nothing. -/
def pairs : (prev : Char) → (waiting : List Char) → List Char → Bool
  | _, waiting, [] => waiting.isEmpty
  | prev, waiting, c :: cs =>
    if opens c then pairs c (closerOf c :: waiting) cs
    else if closes prev c then waiting.head? == some c && pairs c waiting.tail cs
    else pairs c waiting cs

/-- Each bracket of the text is closed by its own kind. -/
def Paired (t : List Char) : Prop := pairs noChar [] t

instance : Decidable (Paired t) := inferInstanceAs (Decidable (_ = _))

/-- What one character does. -/
theorem pairs_cons (h : pairs prev waiting (c :: t)) :
    (opens c ∧ pairs c (closerOf c :: waiting) t) ∨
      (closes prev c ∧ ∃ rest, waiting = c :: rest ∧ pairs c rest t) ∨
      (opens c = false ∧ closes prev c = false ∧ pairs c waiting t) := by
  rw [pairs] at h
  split at h
  · rename_i opening
    exact .inl ⟨opening, h⟩
  · rename_i other
    rw [Bool.not_eq_true] at other
    split at h
    · rename_i closing
      rw [Bool.and_eq_true, beq_iff_eq] at h
      cases waiting with
      | nil => cases h.1
      | cons d rest =>
        obtain rfl := Option.some.inj h.1
        exact .inr (.inl ⟨closing, rest, rfl, h.2⟩)
    · rename_i plain
      exact .inr (.inr ⟨other, Bool.not_eq_true _ ▸ plain, h⟩)

/-- Then all kinds together are balanced. -/
theorem balances_of_pairs (h : pairs prev waiting t) : balances prev waiting.length t := by
  induction t generalizing prev waiting with
  | nil =>
    rw [pairs, List.isEmpty_iff] at h
    rw [h]
    rfl
  | cons c t ih =>
    rw [balances_cons, nesting_eq]
    rcases pairs_cons h with ⟨opening, later⟩ | ⟨closing, rest, rfl, later⟩ | ⟨other, plain, later⟩
    · rw [if_pos opening]
      refine ⟨fun closing => ?_, ih later⟩
      rw [not_closes_of_opens opening] at closing
      cases closing
    · have other : ¬opens c := fun opening => by
        rw [not_closes_of_opens opening] at closing
        cases closing
      rw [if_neg other, if_pos closing]
      exact ⟨fun _ => Nat.succ_pos _, ih later⟩
    · rw [other, plain, if_neg Bool.false_ne_true, if_neg Bool.false_ne_true]
      exact ⟨fun closing => absurd closing Bool.false_ne_true, ih later⟩

theorem Paired.balanced (h : Paired t) : Balanced t := balances_of_pairs h

/-! ### Angle brackets alone -/

/-- The arrow of a function type. -/
def arrow : List Char := ['=', '>']

theorem closerOf_of_opens (h : opens c) : closerOf c = '>' ↔ c = '<' := by
  simp only [opens, Bool.or_eq_true, beq_iff_eq] at h
  rcases h with ((rfl | rfl) | rfl) | rfl <;> decide

theorem occursIn_arrow_cons : Text.occursIn arrow (prev :: c :: t) ↔
    (prev = '=' ∧ c = '>') ∨ Text.occursIn arrow (c :: t) := by
  rw [Text.occursIn, Bool.or_eq_true, arrow, List.isPrefixOf_cons_cons, List.isPrefixOf_cons_cons]
  simp only [List.isPrefixOf_nil_left, Bool.and_true, Bool.and_eq_true, beq_iff_eq, eq_comm (a := '='),
    eq_comm (a := '>')]

theorem ne_of_opens (h : opens c) : c ≠ '>' := by
  rintro rfl
  cases h

theorem ne_of_closes (h : closes prev c) : c ≠ '<' := by
  rintro rfl
  cases h

/-- A `>` that closes nothing ends an arrow. -/
theorem eq_of_not_closes (h : closes prev '>' = false) : prev = '=' := by
  simpa [closes] using h

theorem behindAngles_other {depth : Nat} (left : c ≠ '<') (right : c ≠ '>') :
    behindAngles depth (c :: t) = behindAngles depth t := by
  simp [behindAngles, left, right]

/-- Without an arrow each `>` closes a `<`, so the scan goes to the one behind the text. -/
theorem behindAngles_of_pairs (h : pairs prev waiting t) (plain : ¬Text.occursIn arrow (prev :: t))
    (rest : List Char) : behindAngles (waiting.count '>' + 1) (t ++ '>' :: rest) = rest := by
  induction t generalizing prev waiting with
  | nil =>
    rw [pairs, List.isEmpty_iff] at h
    rw [h]
    rfl
  | cons c t ih =>
    rw [occursIn_arrow_cons, not_or] at plain
    rw [List.cons_append]
    rcases pairs_cons h with ⟨opening, later⟩ | ⟨closing, others, rfl, later⟩ | ⟨other, open_, later⟩
    · have further := ih later plain.2
      by_cases angle : c = '<'
      · subst angle
        rw [show closerOf '<' = '>' from rfl, List.count_cons_self] at further
        exact further
      · rw [behindAngles_other angle (ne_of_opens opening)]
        rwa [List.count_cons_of_ne (mt (closerOf_of_opens opening).1 angle)] at further
    · have further := ih later plain.2
      by_cases angle : c = '>'
      · subst angle
        rw [List.count_cons_self]
        exact further
      · rw [behindAngles_other (ne_of_closes closing) angle, List.count_cons_of_ne angle]
        exact further
    · have noOpening : c ≠ '<' := by
        rintro rfl
        cases other
      have noClosing : c ≠ '>' := by
        rintro rfl
        exact plain.1 ⟨eq_of_not_closes open_, rfl⟩
      rw [behindAngles_other noOpening noClosing]
      exact ih later plain.2

/-- There are as many `>` as `<`, and more if there is an arrow. -/
theorem count_of_pairs (h : pairs prev waiting t) : t.count '<' + waiting.count '>' ≤ t.count '>' ∧
    (Text.occursIn arrow (prev :: t) → t.count '<' + waiting.count '>' < t.count '>') := by
  induction t generalizing prev waiting with
  | nil =>
    rw [pairs, List.isEmpty_iff] at h
    rw [h]
    refine ⟨Nat.le_refl _, fun found => ?_⟩
    rw [Text.occursIn, arrow, List.isPrefixOf_cons_cons] at found
    simp [Text.occursIn] at found
  | cons c t ih =>
    rw [occursIn_arrow_cons]
    rcases pairs_cons h with ⟨opening, later⟩ | ⟨closing, others, rfl, later⟩ | ⟨other, open_, later⟩
    · have noClosing := ne_of_opens opening
      obtain ⟨atLeast, more⟩ := ih later
      rw [List.count_cons_of_ne noClosing]
      -- a `<` is counted, and so is the `>` that it waits for
      have same : (c :: t).count '<' + waiting.count '>' =
          t.count '<' + (closerOf c :: waiting).count '>' := by
        by_cases angle : c = '<'
        · subst angle
          rw [List.count_cons_self, show closerOf '<' = '>' from rfl, List.count_cons_self]
          omega
        · rw [List.count_cons_of_ne angle, List.count_cons_of_ne (mt (closerOf_of_opens opening).1 angle)]
      rw [same]
      exact ⟨atLeast, fun found => more (found.resolve_left fun both => noClosing both.2)⟩
    · obtain ⟨atLeast, more⟩ := ih later
      have noArrow : ¬(prev = '=' ∧ c = '>') := by
        rintro ⟨rfl, rfl⟩
        cases closing
      rw [List.count_cons_of_ne (ne_of_closes closing)]
      have both : ∃ n, (c :: others).count '>' = others.count '>' + n ∧
          (c :: t).count '>' = t.count '>' + n := ⟨_, List.count_cons, List.count_cons⟩
      obtain ⟨n, eq, eq'⟩ := both
      rw [eq, eq']
      exact ⟨by omega, fun found => by
        have strict := more (found.resolve_left noArrow)
        omega⟩
    · obtain ⟨atLeast, more⟩ := ih later
      have noOpening : c ≠ '<' := by
        rintro rfl
        cases other
      rw [List.count_cons_of_ne noOpening]
      by_cases angle : c = '>'
      · subst angle
        rw [List.count_cons_self]
        exact ⟨by omega, fun _ => by omega⟩
      · rw [List.count_cons_of_ne angle]
        exact ⟨atLeast, fun found => more (found.resolve_left fun both => angle both.2)⟩

/-- The scan comes to an end inside of a text with more `>` than `<`. -/
theorem exists_behindAngles {depth : Nat} (open_ : 0 < depth) (h : t.count '<' + depth ≤ t.count '>') :
    ∃ a b, t = a ++ '>' :: b ∧ ∀ rest, behindAngles depth (t ++ rest) = b ++ rest := by
  induction t generalizing depth with
  | nil =>
    simp only [List.count_nil] at h
    omega
  | cons c t ih =>
    have goesOn : ∀ next, 0 < next → t.count '<' + next ≤ t.count '>' →
        (∀ rest, behindAngles depth (c :: t ++ rest) = behindAngles next (t ++ rest)) →
        ∃ a b, c :: t = a ++ '>' :: b ∧ ∀ rest, behindAngles depth (c :: t ++ rest) = b ++ rest := by
      intro next still further same
      obtain ⟨a, b, rfl, eq⟩ := ih still further
      exact ⟨c :: a, b, rfl, fun rest => (same rest).trans (eq rest)⟩
    by_cases left : c = '<'
    · subst left
      rw [List.count_cons_self, List.count_cons_of_ne (by decide)] at h
      exact goesOn (depth + 1) (by omega) (by omega) fun _ => rfl
    · by_cases right : c = '>'
      · subst right
        rw [List.count_cons_self, List.count_cons_of_ne (by decide)] at h
        by_cases last : depth ≤ 1
        · refine ⟨[], t, rfl, fun rest => ?_⟩
          rw [List.cons_append, behindAngles, if_neg (by decide), if_pos (by decide), if_pos last]
        · refine goesOn (depth - 1) (by omega) (by omega) fun rest => ?_
          rw [List.cons_append, behindAngles, if_neg (by decide), if_pos (by decide), if_neg last]
      · rw [List.count_cons_of_ne left, List.count_cons_of_ne right] at h
        exact goesOn depth open_ h fun _ => behindAngles_other left right

/-! ### Type parameters -/

theorem occursIn_arrow_noChar (t : List Char) :
    Text.occursIn arrow (noChar :: t) = Text.occursIn arrow t := by
  cases t with
  | nil => rfl
  | cons c t => rw [Bool.eq_iff_iff, occursIn_arrow_cons, or_iff_right fun both => absurd both.1 (by decide)]

/-- Type parameters are skipped, and nothing more, -/
theorem skipTypeParameters_of_paired (h : Paired t) (plain : ¬Text.occursIn arrow t) (rest : List Char) :
    skipTypeParameters ('<' :: (t ++ '>' :: rest)) = rest := by
  have noArrow : ¬Text.occursIn arrow (noChar :: t) := by rwa [occursIn_arrow_noChar]
  exact behindAngles_of_pairs h noArrow rest

/-- but with an arrow among them they are left too early, behind some `>` inside of them. -/
theorem exists_skipTypeParameters (h : Paired t) (found : Text.occursIn arrow t) :
    ∃ a b, t = a ++ '>' :: b ∧ ∀ rest, skipTypeParameters ('<' :: (t ++ rest)) = b ++ rest := by
  have more := (count_of_pairs h).2 (by rwa [occursIn_arrow_noChar])
  exact exists_behindAngles Nat.one_pos more

end SourceAtlas.Source
