import Mathlib.Data.List.DropRight
import SourceAtlas.Text.Basic
/-!
What is taken from the ends of a text. A trimmed text neither begins nor ends with a blank, and blanks
around a text are lost. A given start or ending is taken off where the text has it.
-/

namespace SourceAtlas.Text

variable {t blanks : List Char}

/-- What is said of the characters of a text is tested on those alone. There are finitely many characters,
so without this instance all of them would be gone through. -/
instance (priority := 1100) decidableForallMem {p : Char → Prop} [DecidablePred p] (t : List Char) :
    Decidable (∀ c ∈ t, p c) := List.decidableBAll p t

theorem trimStart_eq_self_iff : trimStart t = t ↔ ∀ c ∈ t.head?, isBlank c = false := by
  cases t with
  | nil => simp [trimStart]
  | cons c cs => simp [trimStart]

theorem trimEnd_eq_self_iff : trimEnd t = t ↔ ∀ c ∈ t.getLast?, isBlank c = false := by
  have last : trimEnd t = t ↔ ∀ filled : t ≠ [], ¬isBlank (t.getLast filled) :=
    List.rdropWhile_eq_self_iff
  rw [last]
  constructor
  · rintro ink c mem
    obtain ⟨filled, rfl⟩ := List.mem_getLast?_eq_getLast mem
    simpa using ink filled
  · intro ink filled
    simpa using ink _ (List.getLast?_eq_getLast_of_ne_nil filled)

/-- A text is trimmed if both its ends are no blanks. -/
theorem trim_eq_self_iff :
    trim t = t ↔ (∀ c ∈ t.head?, isBlank c = false) ∧ ∀ c ∈ t.getLast?, isBlank c = false := by
  rw [← trimStart_eq_self_iff, ← trimEnd_eq_self_iff]
  constructor
  · intro h
    -- trimming only takes away, so a text that keeps its length is kept at both ends
    have front : (trimStart t).Sublist t := List.dropWhile_sublist _
    have back : (trim t).length ≤ (trimStart t).length := (List.rdropWhile_prefix _ _).length_le
    rw [h] at back
    have same : trimStart t = t := front.eq_of_length_le back
    rw [trim, same] at h
    exact ⟨same, h⟩
  · rintro ⟨front, back⟩
    rw [trim, front, back]

/-- A text that begins and ends with trimmed ones is trimmed. -/
theorem trim_enclosed {a b : List Char} (ha : trim a = a) (hb : trim b = b) (front : a ≠ [])
    (back : b ≠ []) (middle : List Char) : trim (a ++ middle ++ b) = a ++ middle ++ b := by
  obtain ⟨c, a, rfl⟩ := List.exists_cons_of_ne_nil front
  rw [trim_eq_self_iff] at ha hb ⊢
  refine ⟨ha.1, ?_⟩
  rw [List.getLast?_append_of_ne_nil _ back]
  exact hb.2

theorem trim_eq_self_of_forall (h : ∀ c ∈ t, isBlank c = false) : trim t = t :=
  trim_eq_self_iff.2 ⟨fun c mem => h c (List.mem_of_mem_head? mem),
    fun c mem => h c (List.mem_of_getLast? mem)⟩

theorem isBlank_of_mem_space : ∀ c ∈ [' '], isBlank c := List.forall_mem_singleton.2 rfl

theorem trim_blanks_append (h : ∀ c ∈ blanks, isBlank c) : trim (blanks ++ t) = trim t := by
  rw [trim, trimStart, List.dropWhile_append_of_pos h]
  rfl

theorem trimEnd_append_blanks (h : ∀ c ∈ blanks, isBlank c) : trimEnd (t ++ blanks) = trimEnd t := by
  rw [trimEnd, List.reverse_append, List.dropWhile_append_of_pos (by simpa using h)]
  rfl

theorem trimEnd_concat_blanks {c : Char} (ink : isBlank c = false) (h : ∀ d ∈ blanks, isBlank d) :
    trimEnd (t ++ [c] ++ blanks) = t ++ [c] := by
  rw [trimEnd_append_blanks h, trimEnd_eq_self_iff, List.getLast?_concat]
  rintro d ⟨⟩
  exact ink

theorem trim_append_blanks (h : ∀ c ∈ blanks, isBlank c) : trim (t ++ blanks) = trim t := by
  rw [trim, trim, trimStart, List.dropWhile_append]
  split
  · rename_i nothing
    rw [List.isEmpty_iff] at nothing
    rw [trimStart, nothing, List.dropWhile_eq_nil_iff.2 h]
  · exact trimEnd_append_blanks h

/-- A text is what it is trimmed to, with blanks around it. -/
theorem exists_blanks_trim (t : List Char) : ∃ front back, (∀ c ∈ front, isBlank c) ∧
    (∀ c ∈ back, isBlank c) ∧ t = front ++ trim t ++ back := by
  have start : t.takeWhile isBlank ++ trimStart t = t := List.takeWhile_append_dropWhile
  have ending : trim t ++ (trimStart t).rtakeWhile isBlank = trimStart t :=
    List.rdropWhile_append_rtakeWhile
  refine ⟨t.takeWhile isBlank, (trimStart t).rtakeWhile isBlank,
    List.all_eq_true.1 List.all_takeWhile, fun c => List.mem_rtakeWhile_imp, ?_⟩
  rw [List.append_assoc, ending, start]

/-- A text of which nothing is left consists of blanks. -/
theorem isBlank_of_trim (h : (trim t).isEmpty) {c : Char} (mem : c ∈ t) : isBlank c := by
  obtain ⟨front, back, before, behind, eq⟩ := exists_blanks_trim t
  rw [eq, List.isEmpty_iff.1 h, List.append_nil, List.mem_append] at mem
  exact mem.elim (before c) (behind c)

/-! ### Runs of characters -/

section

variable {accepts : Char → Bool} {c : Char}

/-- What is accepted up to a character that is not. -/
theorem takeWhile_append_stop {rest : List Char} (accepted : ∀ c ∈ t, accepts c)
    (stop : ∀ c ∈ rest.head?, accepts c = false) : (t ++ rest).takeWhile accepts = t := by
  rw [List.takeWhile_append_of_pos accepted]
  cases rest with
  | nil => exact List.append_nil t
  | cons c rest => rw [List.takeWhile_cons_of_neg (by simp [stop c rfl]), List.append_nil]

theorem takeWhile_append_cons (stop : accepts c = false) (t rest : List Char) :
    (t ++ c :: rest).takeWhile accepts = t.takeWhile accepts := by
  induction t with
  | nil => exact List.takeWhile_cons_of_neg (by simp [stop])
  | cons d t ih =>
    rw [List.cons_append, List.takeWhile_cons, List.takeWhile_cons, ih]

theorem dropWhile_append_cons (stop : accepts c = false) (t rest : List Char) :
    (t ++ c :: rest).dropWhile accepts = t.dropWhile accepts ++ c :: rest := by
  rw [List.dropWhile_append]
  split
  · rename_i all
    rw [List.isEmpty_iff.1 all, List.dropWhile_cons_of_neg (by simp [stop]), List.nil_append]
  · rfl

end

/-! ### Given starts and endings -/

variable {start ending rest : List Char}

theorem eq_append_of_stripPrefix? : ∀ {start text rest : List Char},
    stripPrefix? start text = some rest → text = start ++ rest
  | [], text, rest, h => by simpa [stripPrefix?] using h
  | s :: ss, c :: cs, rest, h => by
    rw [stripPrefix?] at h
    split at h
    · rename_i same
      rw [same, eq_append_of_stripPrefix? h, List.cons_append]
    · cases h

theorem stripPrefix?_append (start rest : List Char) : stripPrefix? start (start ++ rest) = some rest := by
  induction start with
  | nil => rfl
  | cons c start ih => rw [List.cons_append, stripPrefix?, if_pos rfl, ih]

theorem stripPrefix?_eq_some_iff : stripPrefix? start t = some rest ↔ t = start ++ rest :=
  ⟨eq_append_of_stripPrefix?, fun h => h ▸ stripPrefix?_append start rest⟩

theorem stripSuffix?_eq_some_iff : stripSuffix? ending t = some rest ↔ t = rest ++ ending := by
  rw [stripSuffix?, Option.map_eq_some_iff]
  constructor
  · rintro ⟨back, stripped, rfl⟩
    rw [List.reverse_eq_iff.1 (stripPrefix?_eq_some_iff.1 stripped)]
    simp
  · rintro rfl
    refine ⟨rest.reverse, ?_, List.reverse_reverse rest⟩
    rw [List.reverse_append, stripPrefix?_append]

theorem stripPrefix?_eq_none_iff : stripPrefix? start t = none ↔ ¬start <+: t := by
  rw [Option.eq_none_iff_forall_ne_some]
  simp only [ne_eq, stripPrefix?_eq_some_iff]
  exact ⟨fun none ⟨rest, eq⟩ => none rest eq.symm, fun none rest eq => none ⟨rest, eq.symm⟩⟩

end SourceAtlas.Text
