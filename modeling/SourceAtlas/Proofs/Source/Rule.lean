import SourceAtlas.Proofs.Pattern.Ends
import SourceAtlas.Source.Declaration
/-!
What the rules for classes and methods tell of a line. Such a line is read word by word: behind each
word of a class declaration comes another one, and behind the name of a method never does. So no line
is both, and neither of them begins with a brace or a slash.
-/

namespace SourceAtlas

namespace Text

/-- The code points of the blanks. -/
def blankCodes : List Nat :=
  [9, 10, 11, 12, 13, 0x20, 0x85, 0xA0, 0x1680, 0x2000, 0x2001, 0x2002, 0x2003, 0x2004, 0x2005, 0x2006,
    0x2007, 0x2008, 0x2009, 0x200A, 0x2028, 0x2029, 0x202F, 0x205F, 0x3000]

/-- What holds of each of these code points holds of a blank. -/
theorem of_isBlank (holds : Char → Bool) (all : ∀ n ∈ blankCodes, holds (Char.ofNat n)) {c : Char}
    (h : isBlank c) : holds c := by
  rw [← Char.ofNat_toNat c]
  refine all _ ?_
  simp only [isBlank, Bool.or_eq_true, Bool.and_eq_true, decide_eq_true_eq, beq_iff_eq] at h
  simp only [blankCodes, List.mem_cons, List.not_mem_nil, or_false]
  omega

end Text

namespace Source

open Pattern

/-! ### Words -/

/-- The word at the start of a text. -/
def headWord (t : List Char) : List Char := t.takeWhile continuesIdentifier

/-- What follows the word at the start of a text and the blanks behind it. -/
def behindWord (t : List Char) : List Char :=
  (t.dropWhile continuesIdentifier).dropWhile Text.isBlank

/-- A name, or a word, begins here. -/
def BeginsName (t : List Char) : Prop := t.head?.any startsIdentifier

variable {k i e : Cursor} {t : List Char} {words : List String}

theorem continuesIdentifier_of_starts {c : Char} (h : startsIdentifier c) : continuesIdentifier c := by
  simp only [startsIdentifier, Bool.or_eq_true, beq_iff_eq] at h
  rcases h with (letter | rfl) | rfl
  · have ascii : c.toNat < 0x80 := by
      have cased : (c.isUpper || c.isLower) = true := letter
      rcases Bool.or_eq_true_iff.1 cased with upper | lower
      · have bounds : c.val ≥ 'A'.val ∧ c.val ≤ 'Z'.val := of_decide_eq_true upper
        exact Nat.lt_of_le_of_lt (show c.toNat ≤ 90 from bounds.2) (by decide)
      · have bounds : (decide (c.val ≥ 'a'.val) && decide (c.val ≤ 'z'.val)) = true := lower
        have high := of_decide_eq_true (Bool.and_eq_true_iff.1 bounds).2
        exact Nat.lt_of_le_of_lt (show c.toNat ≤ 122 from high) (by decide)
    simp [continuesIdentifier, Text.isWord, ascii, Char.isAlphanum, letter]
  · decide
  · decide

theorem not_continuesIdentifier_of_isBlank {c : Char} (h : Text.isBlank c) :
    continuesIdentifier c = false := by
  have all : ∀ n ∈ Text.blankCodes, !continuesIdentifier (Char.ofNat n) := by decide +kernel
  simpa using Text.of_isBlank (fun c => !continuesIdentifier c) all h

/-- Behind one of some words and blanks, the reading goes on with the next word. -/
theorem after_word_gap (plain : ∀ w ∈ words, w.toList.all continuesIdentifier)
    (h : (both (word words) gap).Ends k e) :
    headWord k.after ∈ words.map String.toList ∧ e.after = behindWord k.after := by
  obtain ⟨i, word, gap⟩ := h
  obtain ⟨w, mem, front⟩ := word.after_word
  obtain ⟨blank, rest⟩ := gap.after_oneOrMore
  have letters : ∀ c ∈ w.toList, continuesIdentifier c := List.all_eq_true.1 (plain w mem)
  cases text : i.after with
  | nil => simp [text] at blank
  | cons c cs =>
    have stops : continuesIdentifier c = false :=
      not_continuesIdentifier_of_isBlank (by simpa [text] using blank)
    rw [text] at front rest
    have word : headWord k.after = w.toList := by
      rw [headWord, front, List.takeWhile_append_of_pos letters, List.takeWhile_cons_of_neg (by simp [stops]),
        List.append_nil]
    have behind : behindWord k.after = e.after := by
      rw [behindWord, front, List.dropWhile_append_of_pos letters,
        List.dropWhile_cons_of_neg (by simp [stops]), rest]
    exact ⟨word ▸ List.mem_map_of_mem mem, behind.symm⟩

theorem after_keyword {w : String} (plain : w.toList.all continuesIdentifier)
    (h : (keyword w).Ends k e) : headWord k.after = w.toList ∧ e.after = behindWord k.after := by
  have one : (both (word [w]) gap).Ends k e := h
  obtain ⟨first, eq⟩ := after_word_gap (fun v mem => List.mem_singleton.1 mem ▸ plain) one
  exact ⟨List.mem_singleton.1 first, eq⟩

/-- Behind an identifier and blanks, too. -/
theorem after_identifier_blanks (h : identifier.Ends k i) (rest : blanks.Ends i e) :
    BeginsName k.after ∧ e.after = behindWord k.after := by
  obtain ⟨j, ⟨c, next, starts⟩, run⟩ := h
  rw [BeginsName, behindWord, after_of_next? next, rest.after_run, run.after_run, List.dropWhile_cons,
    if_pos (continuesIdentifier_of_starts starts)]
  exact ⟨by simpa using starts, rfl⟩

/-- A text that begins with a word of letters begins with a letter. -/
theorem beginsName_of_headWord (named : ∀ w ∈ words, BeginsName w.toList)
    (h : headWord t ∈ words.map String.toList) : BeginsName t := by
  obtain ⟨w, mem, same⟩ := List.mem_map.1 h
  have starts := named w mem
  cases t with
  | nil =>
    rw [same] at starts
    exact starts
  | cons c cs =>
    rw [same, headWord, List.takeWhile_cons] at starts
    split at starts
    · exact starts
    · cases starts

/-- It begins with none of some marks. -/
theorem BeginsName.not_mark {marks : List Char} (apart : marks.all (!startsIdentifier ·))
    (h : BeginsName t) : ¬t.head?.any marks.contains := by
  intro mark
  cases t with
  | nil => cases h
  | cons c cs =>
    have mem : c ∈ marks := by simpa using mark
    have other := List.all_eq_true.1 apart c mem
    rw [show startsIdentifier c = true from h] at other
    cases other

/-! ### The two kinds of lines -/

/-- A class declaration from one of its words on. -/
inductive ClassText : List Char → Prop
  | name {t : List Char} (first : headWord t ∈ ["class"].map String.toList)
      (next : BeginsName (behindWord t)) : ClassText t
  | word {t : List Char}
      (first : headWord t ∈ ["export", "default", "declare", "abstract"].map String.toList)
      (next : ClassText (behindWord t)) : ClassText t

/-- A method from one of its words or marks on. -/
inductive MethodText : List Char → Prop
  | name {t : List Char} (first : BeginsName t)
      (next : (behindWord t).head?.any ['?', '<', '('].contains) : MethodText t
  | mark {t : List Char} (first : t.head?.any ['*', '#'].contains) : MethodText t
  | modifier {t : List Char} (first : headWord t ∈ methodModifiers.map String.toList)
      (next : MethodText (behindWord t)) : MethodText t
  | accessor {t : List Char} (first : headWord t ∈ ["get", "set"].map String.toList)
      (next : MethodText (behindWord t)) : MethodText t

theorem ClassText.beginsName (h : ClassText t) : BeginsName t := by
  cases h with
  | name first => exact beginsName_of_headWord (by unfold BeginsName; decide) first
  | word first => exact beginsName_of_headWord (by unfold BeginsName; decide) first

/-- Behind a word of a class declaration stands a name. -/
theorem ClassText.behindWord (h : ClassText t) : BeginsName (behindWord t) := by
  cases h with
  | name _ next => exact next
  | word _ next => exact next.beginsName

/-- No text is both. -/
theorem MethodText.not_classText (h : MethodText t) : ¬ClassText t := by
  induction h with
  | name _ next => exact fun ofClass => ofClass.behindWord.not_mark (by decide) next
  | mark first => exact fun ofClass => ofClass.beginsName.not_mark (by decide) first
  | modifier first _ ih =>
    intro ofClass
    cases ofClass with
    | name other =>
      rw [List.mem_singleton.1 other] at first
      exact absurd first (by decide)
    | word _ later => exact ih later
  | accessor first _ ih =>
    intro ofClass
    cases ofClass with
    | name other =>
      rw [List.mem_singleton.1 other] at first
      exact absurd first (by decide)
    | word _ later => exact ih later

/-- A method begins with a name or with one of two marks. -/
theorem MethodText.begins (h : MethodText t) : BeginsName t ∨ t.head?.any ['*', '#'].contains := by
  cases h with
  | name first => exact .inl first
  | mark first => exact .inr first
  | modifier first => exact .inl (beginsName_of_headWord (by unfold BeginsName; decide) first)
  | accessor first => exact .inl (beginsName_of_headWord (by unfold BeginsName; decide) first)

/-! ### The two rules -/

theorem classText_of_maybe {w : String} (mem : w ∈ ["export", "default", "declare", "abstract"])
    (h : (maybe w).Ends k i) (rest : ClassText i.after) : ClassText k.after := by
  rcases h with word | rfl
  · have letters : ∀ v ∈ ["export", "default", "declare", "abstract"],
        v.toList.all continuesIdentifier := by decide
    obtain ⟨first, eq⟩ := after_keyword (letters w mem) word
    rw [eq] at rest
    exact .word (first ▸ List.mem_map_of_mem mem) rest
  · exact rest

/-- Behind the blanks of a line with a class stands a class declaration. -/
theorem classText_of_classRule (h : classRule.Ends k e) :
    ClassText (k.after.dropWhile Text.isBlank) := by
  obtain ⟨a, blanks, b, exported, c, default, d, declared, f, abstracted, g, word, _,
    ⟨first, next, starts⟩, _⟩ := h
  rw [← blanks.after_run]
  obtain ⟨keyword, eq⟩ := after_keyword (by decide) word
  have name : BeginsName (behindWord f.after) := by
    rw [← eq, BeginsName, after_of_next? next]
    simpa using starts
  exact classText_of_maybe (by decide) exported <| classText_of_maybe (by decide) default <|
    classText_of_maybe (by decide) declared <| classText_of_maybe (by decide) abstracted <|
    .name (List.mem_singleton.2 keyword) name

theorem head_of_char {c : Char} {marks : List Char} (h : (char c).Ends k i) (mem : c ∈ marks) :
    k.after.head?.any marks.contains := by
  rw [h.after_char]
  simpa using mem

/-- Behind the blanks of a line with a method stands a method. -/
theorem methodText_of_methodRule (h : methodRule.Ends k e) :
    MethodText (k.after.dropWhile Text.isBlank) := by
  obtain ⟨a, blanks, b, modifiers, c, accessor, d, star, f, ⟨g, hash, identifier⟩, j, gap, l, question,
    m, angles, paren⟩ := h
  rw [← blanks.after_run]
  clear blanks
  have opens : j.after.head?.any ['?', '<', '('].contains := by
    rcases question with ⟨_, mark, _⟩ | rfl
    · exact head_of_char mark (by decide)
    · rcases angles with ⟨_, mark, _⟩ | rfl
      · exact head_of_char mark (by decide)
      · exact head_of_char paren (by decide)
  have name : MethodText d.after := by
    rcases hash with mark | rfl
    · exact .mark (head_of_char mark (by decide))
    · obtain ⟨first, eq⟩ := after_identifier_blanks identifier gap
      exact .name first (eq ▸ opens)
  have marked : MethodText c.after := by
    rcases star with ⟨_, mark, _⟩ | rfl
    · exact .mark (head_of_char mark (by decide))
    · exact name
  have accessed : MethodText b.after := by
    rcases accessor with word | rfl
    · obtain ⟨first, eq⟩ := after_word_gap (by decide) word
      exact .accessor first (eq ▸ marked)
    · exact marked
  -- the modifiers stand in front of it, one after the other
  induction modifiers using Relation.ReflTransGen.head_induction_on with
  | refl => exact accessed
  | head step _ ih =>
    obtain ⟨first, eq⟩ := after_word_gap (by decide) step
    exact .modifier first (eq ▸ ih)

variable {line : List Char} {m : Match}

theorem classText_of_match? (h : classRule.match? line = some m) : ClassText (Text.trimStart line) :=
  classText_of_classRule (ends_of_match? h)

theorem methodText_of_match? (h : methodRule.match? line = some m) :
    MethodText (Text.trimStart line) :=
  methodText_of_methodRule (ends_of_match? h)

/-- A line with a method declares no class. -/
theorem classRule_eq_none (h : methodRule.match? line = some m) : classRule.match? line = none :=
  Option.eq_none_iff_forall_ne_some.2 fun _ found =>
    (methodText_of_match? h).not_classText (classText_of_match? found)

/-- A line with a class is no comment. -/
theorem SourceLine.code_of_class {l : SourceLine} (h : classRule.match? l.text = some m) :
    l.isComment = false := by
  have names := (classText_of_match? h).beginsName
  rw [SourceLine.isComment]
  split
  · rename_i front
    rw [front] at names
    cases names
  · rename_i front
    rw [front] at names
    cases names
  · rename_i front
    rw [front] at names
    cases names
  · rfl

end Source

end SourceAtlas
