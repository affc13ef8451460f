import SourceAtlas.Proofs.Glob.Language
/-!
Patterns whose text ends in two asterisks. Read from left to right, asterisks pair up from the first of a
run on, so the text may end with a pair or, when the run is odd, with a single asterisk behind one. Both
ways a token for any text on one line is the last that can hold a slash: a path that ends in a slash ends
within it, and a longer path is matched by giving the token the rest.
-/

namespace SourceAtlas.Glob

/-- The text of the pattern ends in two asterisks. -/
def IsOpen (pattern : String) : Prop := "**".toList <:+ pattern.toList

instance (pattern : String) : Decidable (IsOpen pattern) := inferInstanceAs (Decidable (_ <:+ _))

/-- The glob matches the paths of the language of its tokens. -/
theorem accepts_iff_mem (g : Glob) (path : String) :
    g.accepts path ↔ path.toList ∈ (g.tokens.map GlobToken.language).prod :=
  (answers_matchTails path.toList g.tokens).head

/-! ### The last tokens -/

/-- A token for any text on one line stands at the end, or one for a single name behind it. -/
def EndsOpen (ts : List GlobToken) : Prop := [.anything] <:+ ts ∨ [.anything, .within] <:+ ts

theorem EndsOpen.cons {ts : List GlobToken} (h : EndsOpen ts) (token : GlobToken) :
    EndsOpen (token :: ts) :=
  h.imp (·.trans (List.suffix_cons token ts)) (·.trans (List.suffix_cons token ts))

/-- Two asterisks at the end are read as such a token, or the last of them is read apart. -/
theorem endsOpen_of_reads {p : List Char} {ts : List GlobToken} (reads : Reads p ts)
    (h : "**".toList <:+ p) : EndsOpen ts := by
  induction reads with
  | done => simp at h
  | directories _ ih => exact (ih (by simpa [List.suffix_cons_iff] using h)).cons _
  | @anything p ts _ rest ih =>
    have ways : p = [] ∨ p = ['*'] ∨ "**".toList <:+ p := by
      simpa [List.suffix_cons_iff, eq_comm] using h
    rcases ways with rfl | rfl | later
    · rw [reads_iff.1 rest]
      exact .inl (List.suffix_refl _)
    · rw [reads_iff.1 rest]
      exact .inr (List.suffix_refl _)
    · exact (ih later).cons _
  | @within p ts next _ ih =>
    have ways : p = ['*'] ∨ "**".toList <:+ p := by
      simpa [List.suffix_cons_iff, eq_comm] using h
    rcases ways with rfl | later
    · exact absurd rfl next
    · exact (ih later).cons _
  | single _ ih => exact (ih (by simpa [List.suffix_cons_iff] using h)).cons _
  | exactly plain _ ih =>
    exact (ih (by simpa [List.suffix_cons_iff, Ne.symm plain.1] using h)).cons _

/-! ### Longer paths -/

/-- What stands behind the open token holds no slash. -/
theorem EndsOpen.exists_split {ts : List GlobToken} (h : EndsOpen ts) :
    ∃ K L : Language Char, (ts.map GlobToken.language).prod = K * (free '\n' * L) ∧
      [] ∈ L ∧ ∀ t ∈ L, '/' ∉ t := by
  rcases h with ⟨front, rfl⟩ | ⟨front, rfl⟩
  · refine ⟨(front.map GlobToken.language).prod, 1, ?_, ?_, ?_⟩
    · simp [GlobToken.language]
    · simp
    · simp
  · refine ⟨(front.map GlobToken.language).prod, free '/', ?_, ?_, ?_⟩
    · simp [GlobToken.language]
    · simp
    · simp

/-- A text that ends in a slash can be continued on the same line. -/
theorem EndsOpen.append_mem {ts : List GlobToken} (h : EndsOpen ts) {front rest : List Char}
    (mem : front ++ ['/'] ∈ (ts.map GlobToken.language).prod) (line : '\n' ∉ rest) :
    front ++ '/' :: rest ∈ (ts.map GlobToken.language).prod := by
  obtain ⟨K, L, product, empty, slashless⟩ := h.exists_split
  rw [product, Language.mem_mul] at mem ⊢
  obtain ⟨a, before, b, inner, whole⟩ := mem
  obtain ⟨inside, plain, last, name, rfl⟩ := Language.mem_mul.1 inner
  -- the slash at the end leaves nothing behind the open token
  obtain rfl : last = [] := by
    rcases List.eq_nil_or_concat last with none | ⟨start, c, rfl⟩
    · exact none
    · have ends := congrArg List.getLast? whole
      simp [← List.append_assoc] at ends
      subst ends
      exact absurd (by simp) (slashless _ name)
  refine ⟨a, before, inside ++ rest, Language.mem_mul.2 ⟨_, ?_, _, empty, List.append_nil _⟩, ?_⟩
  · rw [mem_free, List.mem_append, not_or]
    exact ⟨plain, line⟩
  · rw [List.append_nil] at whole
    rw [← List.append_assoc, whole]
    simp

/-- What an open pattern matches at a directory, it matches below. -/
theorem accepts_below {pattern : String} (h : IsOpen pattern) {directory rest : String}
    (line : '\n' ∉ rest.toList) (pruned : (Glob.ofString pattern).accepts (directory ++ "/")) :
    (Glob.ofString pattern).accepts (directory ++ "/" ++ rest) := by
  have ends : EndsOpen (Glob.ofString pattern).tokens := endsOpen_of_reads (reads_tokenize _) h
  rw [accepts_iff_mem] at pruned ⊢
  have at_directory : directory.toList ++ ['/'] ∈
      ((Glob.ofString pattern).tokens.map GlobToken.language).prod := by simpa using pruned
  simpa using ends.append_mem at_directory line

end SourceAtlas.Glob
