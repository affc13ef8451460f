import SourceAtlas.Proofs.Analysis.Key
import SourceAtlas.Proofs.Text.Bytes
/-!
Different subjects are told apart. The text that is hashed for a subject is its root and then its
patterns, with nothing between the two, so a root could end in what looks like patterns. But the
written patterns begin with `{"i`, and these characters stand nowhere else in them: a brace stands
only inside of a string there, a quote right behind it ends that string, and what follows a string is
a comma or a bracket. So the text shows where the root ends, and the patterns are read back from the
rest. The digits of the hash are then kept by the key and by the name of its file.
-/

namespace SourceAtlas

open Json (quoted escape)

/-! ### Where a brace can stand -/

/-- What begins with a brace begins behind characters that are none. -/
theorem suffix_of_not_mem (front : List Char) {text x : List Char} (none : '{' ∉ front)
    (h : '{' :: x <:+ front ++ text) : '{' :: x <:+ text := by
  induction front with
  | nil => exact h
  | cons c front ih =>
    rw [List.mem_cons, not_or] at none
    rcases List.suffix_cons_iff.1 h with whole | later
    · cases whole
      exact absurd rfl none.1
    · exact ih none.2 later

/-- A quote right behind a brace ends the string that the brace stands in. -/
theorem suffix_of_escaped {s text x : List Char}
    (h : '{' :: '"' :: x <:+ s.flatMap escape ++ '"' :: text) :
    x = text ∨ '{' :: '"' :: x <:+ text := by
  induction s with
  | nil => exact .inr (suffix_of_not_mem ['"'] (by decide) h)
  | cons c s ih =>
    rw [List.flatMap_cons, List.append_assoc] at h
    rcases Json.escape_cases c with ⟨single, _⟩ | ⟨marks, escaped, known⟩
    · rw [single] at h
      rcases List.suffix_cons_iff.1 h with whole | later
      · obtain ⟨_, quote⟩ := List.cons.inj whole
        -- the quote is not one of the string's own characters
        cases s with
        | nil => exact .inl (List.cons.inj quote).2
        | cons d s =>
          rw [List.flatMap_cons] at quote
          rcases Json.escape_cases d with ⟨single, plain, _⟩ | ⟨marks, escaped, _⟩
          · rw [single] at quote
            exact absurd (List.cons.inj quote).1.symm plain
          · rw [escaped] at quote
            cases quote
      · exact ih later
    · have none : '{' ∉ marks := fun mem => absurd (known _ mem) (by decide)
      rw [escaped] at h
      exact ih (suffix_of_not_mem ('\\' :: marks) (by simpa using none) h)

/-- `{"i` does not begin inside of written strings. -/
theorem suffix_of_strings (strings : List String) {text x : List Char}
    (h : '{' :: '"' :: 'i' :: x <:+ Text.join ',' (strings.map quoted) ++ ']' :: text) :
    '{' :: '"' :: 'i' :: x <:+ text := by
  have behind {s : String} {c : Char} {text : List Char} (other : c ≠ 'i') (brace : '{' ≠ c)
      (h : '{' :: '"' :: 'i' :: x <:+ quoted s ++ c :: text) : '{' :: '"' :: 'i' :: x <:+ text := by
    simp only [quoted, List.cons_append, List.append_assoc, List.nil_append] at h
    have inside := suffix_of_not_mem ['"'] (by decide) h
    rcases suffix_of_escaped inside with closed | later
    · exact absurd (List.cons.inj closed).1.symm other
    · exact suffix_of_not_mem [c] (by simpa using brace) later
  induction strings with
  | nil => exact suffix_of_not_mem [']'] (by decide) h
  | cons s strings ih =>
    cases strings with
    | nil => exact behind (by decide) (by decide) h
    | cons next strings =>
      rw [List.map_cons, List.map_cons, Text.join_cons_cons, List.append_assoc, List.cons_append] at h
      exact ih (behind (by decide) (by decide) h)

/-! ### The texts of subjects -/

theorem patternText_toList (included excluded : List String) :
    (patternText included excluded).toList = '{' :: ("\"includePatterns\":[".toList ++
      (Text.join ',' (included.map quoted) ++ ']' :: (",\"excludePatterns\":[".toList ++
        (Text.join ',' (excluded.map quoted) ++ ']' :: ['}'])))) := by
  have strings (l : List String) :
      Json.compactItems (l.map .string) = Text.join ',' (l.map quoted) := by
    rw [Json.compactItems_eq, List.map_map]
    rfl
  have includes : quoted "includePatterns" = "\"includePatterns\"".toList := by decide
  have excludes : quoted "excludePatterns" = "\"excludePatterns\"".toList := by decide
  rw [patternText, Json.compact, String.toList_ofList, Json.compactText, Json.compactMembers,
    Json.compactMembers, Json.compactText, Json.compactText, strings, strings, includes, excludes]
  · simp
  · simp

/-- Written patterns do not end in other written patterns. -/
theorem eq_of_suffix_patternText {i₁ e₁ i₂ e₂ : List String}
    (h : (patternText i₁ e₁).toList <:+ (patternText i₂ e₂).toList) :
    (patternText i₁ e₁).toList = (patternText i₂ e₂).toList := by
  obtain ⟨x, opening⟩ : ∃ x, (patternText i₁ e₁).toList = '{' :: '"' :: 'i' :: x :=
    ⟨_, patternText_toList i₁ e₁⟩
  rw [opening] at h ⊢
  rw [patternText_toList] at h ⊢
  rcases List.suffix_cons_iff.1 h with whole | later
  · exact whole
  · have included := suffix_of_strings i₂ (suffix_of_not_mem _ (by decide) later)
    have excluded := suffix_of_strings e₂ (suffix_of_not_mem _ (by decide) included)
    have nothing : '{' :: '"' :: 'i' :: x <:+ [] := suffix_of_not_mem ['}'] (by decide) excluded
    exact absurd (List.suffix_nil.1 nothing) (by simp)

/-- Patterns are read back from their text. -/
theorem patterns_of_patternText {i₁ e₁ i₂ e₂ : List String}
    (h : (patternText i₁ e₁).toList = (patternText i₂ e₂).toList) : i₁ = i₂ ∧ e₁ = e₂ := by
  let document (i e : List String) : Json :=
    .object [("includePatterns", .array (i.map .string)), ("excludePatterns", .array (e.map .string))]
  have read (i e : List String) : Json.readRaw? (patternText i e).toList = some (document i e) := by
    have strings (l : List String) : Json.PlainWithin 1 (.array (l.map .string)) :=
      Json.plainWithin_strings 0 l
    obtain ⟨plain, deep⟩ : Json.PlainWithin 2 (document i e) :=
      Json.plainWithin_record (by decide : ["includePatterns", "excludePatterns"].Nodup)
        (.set (strings i) (.set (strings e) .nil))
    rw [patternText, Json.compact, String.toList_ofList]
    exact Json.readRaw?_compactText plain (Nat.le_trans deep (by decide))
  have same := read i₁ e₁
  rw [h, read i₂ e₂] at same
  simp only [document, Option.some.injEq, Json.object.injEq, List.cons.injEq, Prod.mk.injEq,
    Json.array.injEq, true_and, and_true] at same
  have strings {l m : List String} (h : l.map Json.string = m.map Json.string) : l = m :=
    (List.map_inj_right fun _ _ => Json.string.inj).1 h
  exact ⟨(strings same.1).symm, (strings same.2).symm⟩

namespace Subject

/-- The bytes that are hashed for a subject. -/
def bytes (s : Subject) : List UInt8 := (analysisText s.root s.included s.excluded).toUTF8.toList

theorem eq_of_bytes {s r : Subject} (h : s.bytes = r.bytes) : s = r := by
  have chars := congrArg String.toList (Text.eq_of_bytes h)
  simp only [analysisText, String.toList_append] at chars
  -- the longer of the two patterns would end in the other
  have patterns : (patternText s.included s.excluded).toList =
      (patternText r.included r.excluded).toList := by
    rcases List.append_eq_append_iff.1 chars with ⟨rest, _, split⟩ | ⟨rest, _, split⟩
    · exact (eq_of_suffix_patternText ⟨rest, split.symm⟩).symm
    · exact eq_of_suffix_patternText ⟨rest, split.symm⟩
  rw [patterns] at chars
  have root : s.root = r.root := String.toList_inj.1 (List.append_cancel_right chars)
  obtain ⟨included, excluded⟩ := patterns_of_patternText patterns
  cases s
  cases r
  simp_all

/-- Subjects are told apart. What is hashed for two subjects is the same only if their roots and both
of their pattern lists are; and where the first sixteen digits of the hashes differ, so do the keys and
the names of the files, although such a name is only the first part of the key, and only its letters
and digits. -/
theorem told_apart (s r : Subject) :
    (s.bytes = r.bytes ↔ s = r) ∧
      ((Blake3.hash s.bytes).take 16 ≠ (Blake3.hash r.bytes).take 16 →
        s.key ≠ r.key ∧ Cache.fileName s.key ≠ Cache.fileName r.key) := by
  refine ⟨⟨eq_of_bytes, fun same => by rw [same]⟩, fun differ => ?_⟩
  have files : Cache.fileName s.key ≠ Cache.fileName r.key := fun same =>
    differ (digest_of_fileName same)
  exact ⟨fun same => files (by rw [same]), files⟩

/-- A subject, and another whose root ends in what is written of the patterns of the first. -/
def lookalikes : Subject × Subject :=
  (⟨"/p", ["\x7b"], []⟩, ⟨"/p" ++ patternText ["\x7b"] [], [], []⟩)

theorem told_apart_lookalikes : lookalikes.1.bytes ≠ lookalikes.2.bytes ∧
    lookalikes.1.key ≠ lookalikes.2.key ∧
      Cache.fileName lookalikes.1.key ≠ Cache.fileName lookalikes.2.key := by
  obtain ⟨texts, digits⟩ := told_apart lookalikes.1 lookalikes.2
  exact ⟨fun same => absurd (texts.1 same) (by decide +kernel), digits (by decide +kernel)⟩

end Subject

end SourceAtlas
