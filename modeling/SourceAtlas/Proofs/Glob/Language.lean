import Mathlib.Computability.Language
import SourceAtlas.Glob
/-!
The language of a glob. A token stands for a set of texts, and a glob for the texts that can be cut
into one piece per token. The matcher goes from the last token to the first and keeps an answer for
each tail of the path: what one token makes of the answers is the product of its language with the one
before, one lemma for each kind of pass, and the whole glob follows by induction over the tokens.
-/

namespace SourceAtlas

/-- The texts of one character of a class. -/
def oneOf (accepts : Char → Bool) : Language Char := {t | ∃ c, accepts c ∧ t = [c]}

/-- The texts in which a character does not occur. -/
def free (stop : Char) : Language Char := {t | stop ∉ t}

/-- The texts on one line that end in a slash. -/
def upToSlash : Language Char := {t | '\n' ∉ t ∧ t.getLast? = some '/'}

variable {K L : Language Char} {t : List Char}

@[simp]
theorem mem_oneOf {accepts : Char → Bool} : t ∈ oneOf accepts ↔ ∃ c, accepts c ∧ t = [c] := Iff.rfl

@[simp]
theorem mem_free {stop : Char} : t ∈ free stop ↔ stop ∉ t := Iff.rfl

@[simp]
theorem mem_upToSlash : t ∈ upToSlash ↔ '\n' ∉ t ∧ t.getLast? = some '/' := Iff.rfl

/-- The texts that a token stands for. -/
def GlobToken.language : GlobToken → Language Char
  | directories => 1 + upToSlash
  | anything => free '\n'
  | within => free '/'
  | single => oneOf (· != '\n')
  | exactly c => {[c]}

namespace Glob

/-! ### The first character of a product -/

theorem nil_mem_mul : [] ∈ K * L ↔ [] ∈ K ∧ [] ∈ L := by
  simp [Language.mem_mul]

/-- The first character belongs to the second part, if the first one is empty, or else to the first. -/
theorem cons_mem_mul {c : Char} {cs : List Char} :
    c :: cs ∈ K * L ↔ [] ∈ K ∧ c :: cs ∈ L ∨ ∃ a b, c :: a ∈ K ∧ b ∈ L ∧ a ++ b = cs := by
  rw [Language.mem_mul]
  constructor
  · rintro ⟨a, mem, b, tail, eq⟩
    cases a with
    | nil => exact .inl ⟨mem, eq ▸ tail⟩
    | cons d a =>
      obtain ⟨rfl, rest⟩ := List.cons.inj eq
      exact .inr ⟨a, b, mem, tail, rest⟩
  · rintro (⟨empty, mem⟩ | ⟨a, b, mem, tail, rfl⟩)
    · exact ⟨[], empty, c :: cs, mem, rfl⟩
    · exact ⟨c :: a, mem, b, tail, rfl⟩

theorem cons_mem_oneOf_mul {accepts : Char → Bool} {c : Char} {cs : List Char} :
    c :: cs ∈ oneOf accepts * L ↔ accepts c ∧ cs ∈ L := by
  rw [cons_mem_mul]
  simp

theorem cons_mem_free_mul {stop c : Char} {cs : List Char} :
    c :: cs ∈ free stop * L ↔ c :: cs ∈ L ∨ c ≠ stop ∧ cs ∈ free stop * L := by
  rw [cons_mem_mul, Language.mem_mul]
  constructor
  · rintro (⟨_, mem⟩ | ⟨a, b, plain, tail, eq⟩)
    · exact .inl mem
    · rw [mem_free, List.mem_cons, not_or] at plain
      exact .inr ⟨Ne.symm plain.1, a, plain.2, b, tail, eq⟩
  · rintro (mem | ⟨other, a, plain, b, tail, eq⟩)
    · exact .inl ⟨List.not_mem_nil, mem⟩
    · refine .inr ⟨a, b, ?_, tail, eq⟩
      rw [mem_free, List.mem_cons, not_or]
      exact ⟨Ne.symm other, plain⟩

/-- A text up to a slash ends with its first character, or goes on. -/
theorem cons_mem_upToSlash_mul {c : Char} {cs : List Char} :
    c :: cs ∈ upToSlash * L ↔ c ≠ '\n' ∧ (c = '/' ∧ cs ∈ L ∨ cs ∈ upToSlash * L) := by
  rw [cons_mem_mul, Language.mem_mul]
  constructor
  · rintro (⟨⟨_, none⟩, _⟩ | ⟨a, b, ⟨line, last⟩, tail, eq⟩)
    · cases none
    · rw [List.mem_cons, not_or] at line
      refine ⟨Ne.symm line.1, ?_⟩
      cases a with
      | nil => exact .inl ⟨Option.some.inj last, eq ▸ tail⟩
      | cons d a => exact .inr ⟨d :: a, ⟨line.2, by simpa using last⟩, b, tail, eq⟩
  · rintro ⟨line, ⟨rfl, tail⟩ | ⟨a, ⟨rest, last⟩, b, tail, eq⟩⟩
    · exact .inr ⟨[], cs, by simp, tail, rfl⟩
    · refine .inr ⟨a, b, ⟨?_, ?_⟩, tail, eq⟩
      · rw [List.mem_cons, not_or]
        exact ⟨Ne.symm line, rest⟩
      · rw [List.getLast?_cons, last]
        rfl

/-! ### Reading a pattern text -/

/-- How a pattern text is read from left to right: two asterisks belong together, with a slash behind
them if there is one, and all but asterisks and question marks stand for themselves. -/
inductive Reads : List Char → List GlobToken → Prop
  | done : Reads [] []
  | directories {p : List Char} {ts : List GlobToken} (rest : Reads p ts) :
    Reads ('*' :: '*' :: '/' :: p) (.directories :: ts)
  | anything {p : List Char} {ts : List GlobToken} (next : p.head? ≠ some '/') (rest : Reads p ts) :
    Reads ('*' :: '*' :: p) (.anything :: ts)
  | within {p : List Char} {ts : List GlobToken} (next : p.head? ≠ some '*') (rest : Reads p ts) :
    Reads ('*' :: p) (.within :: ts)
  | single {p : List Char} {ts : List GlobToken} (rest : Reads p ts) :
    Reads ('?' :: p) (.single :: ts)
  | exactly {c : Char} {p : List Char} {ts : List GlobToken} (plain : c ≠ '*' ∧ c ≠ '?')
    (rest : Reads p ts) : Reads (c :: p) (.exactly c :: ts)

variable {p : List Char} {ts : List GlobToken}

theorem tokenize_anything (next : p.head? ≠ some '/') :
    tokenize ('*' :: '*' :: p) = .anything :: tokenize p := by
  rw [tokenize]
  rintro rest rfl
  exact next rfl

theorem tokenize_within (next : p.head? ≠ some '*') :
    tokenize ('*' :: p) = .within :: tokenize p := by
  rw [tokenize]
  all_goals
    rintro rest rfl
    exact next rfl

theorem tokenize_exactly {c : Char} (plain : c ≠ '*' ∧ c ≠ '?') :
    tokenize (c :: p) = .exactly c :: tokenize p := by
  rw [tokenize]
  all_goals simp [plain]

theorem reads_tokenize (p : List Char) : Reads p (tokenize p) := by
  have head : ∀ {c : Char} {rest : List Char}, (∀ tail, rest = c :: tail → False) →
      rest.head? ≠ some c := fun other is =>
    let ⟨tail, eq⟩ := List.head?_eq_some_iff.1 is
    other tail eq
  induction p using tokenize.induct with
  | case1 rest ih => exact .directories ih
  | case2 rest other ih => exact tokenize_anything (head other) ▸ .anything (head other) ih
  | case3 rest _ other ih => exact tokenize_within (head other) ▸ .within (head other) ih
  | case4 rest ih => exact .single ih
  | case5 c rest _ _ star mark ih => exact tokenize_exactly ⟨star, mark⟩ ▸ .exactly ⟨star, mark⟩ ih
  | case6 => exact .done

/-- A pattern text is read in one way. -/
theorem reads_iff : Reads p ts ↔ ts = tokenize p := by
  constructor
  · intro h
    induction h with
    | done => rfl
    | directories _ ih => rw [tokenize, ih]
    | anything next _ ih => rw [tokenize_anything next, ih]
    | within next _ ih => rw [tokenize_within next, ih]
    | single _ ih => rw [tokenize, ih]
    | exactly plain _ ih => rw [tokenize_exactly plain, ih]
  · rintro rfl
    exact reads_tokenize p

/-! ### Answers for tails -/

/-- The answers say for each tail of a text whether it is in the language. -/
def Answers (L : Language Char) : (text : List Char) → (tails : List Bool) → Prop
  | [], tails => ∃ b, tails = [b] ∧ (b = true ↔ [] ∈ L)
  | c :: cs, tails => ∃ b rest, tails = b :: rest ∧ (b = true ↔ c :: cs ∈ L) ∧ Answers L cs rest

variable {text : List Char} {tails : List Bool}

theorem Answers.head (h : Answers L text tails) : tails.head?.getD false = true ↔ text ∈ L := by
  cases text with
  | nil =>
    obtain ⟨b, rfl, first⟩ := h
    exact first
  | cons c cs =>
    obtain ⟨b, rest, rfl, first, _⟩ := h
    exact first

theorem answers_emptyTails (text : List Char) : Answers 1 text (emptyTails text) := by
  induction text with
  | nil => exact ⟨true, rfl, by simp⟩
  | cons c cs ih => exact ⟨false, _, rfl, by simp, ih⟩

/-- One character of a class stands in front. -/
theorem Answers.stepTails {accepts : Char → Bool} (h : Answers L text tails) :
    Answers (oneOf accepts * L) text (stepTails accepts text tails) := by
  induction text generalizing tails with
  | nil => exact ⟨false, rfl, by simp [nil_mem_mul]⟩
  | cons c cs ih =>
    obtain ⟨b, rest, rfl, _, later⟩ := h
    refine ⟨_, _, rfl, ?_, ih later⟩
    rw [Bool.and_eq_true, later.head, cons_mem_oneOf_mul]

/-- Any number of characters other than one stand in front. -/
theorem Answers.runTails {stop : Char} (h : Answers L text tails) :
    Answers (free stop * L) text (runTails (· != stop) text tails) := by
  induction text generalizing tails with
  | nil =>
    obtain ⟨b, rfl, first⟩ := h
    exact ⟨b, rfl, by simp [nil_mem_mul, first]⟩
  | cons c cs ih =>
    obtain ⟨b, rest, rfl, first, later⟩ := h
    refine ⟨_, _, rfl, ?_, ih later⟩
    rw [Bool.or_eq_true, Bool.and_eq_true, first, (ih later).head, bne_iff_ne, cons_mem_free_mul]

/-- A text on one line that ends in a slash stands in front. -/
theorem Answers.slashTails (h : Answers L text tails) :
    Answers (upToSlash * L) text (slashTails text tails) := by
  induction text generalizing tails with
  | nil => exact ⟨false, rfl, by simp [nil_mem_mul]⟩
  | cons c cs ih =>
    obtain ⟨b, rest, rfl, _, later⟩ := h
    refine ⟨_, _, rfl, ?_, ih later⟩
    rw [Bool.and_eq_true, Bool.or_eq_true, Bool.and_eq_true, later.head, (ih later).head, bne_iff_ne,
      beq_iff_eq, cons_mem_upToSlash_mul]

/-- Two answers for each tail, of which one is enough. -/
theorem Answers.zipWith {others : List Bool} (h : Answers K text tails)
    (other : Answers L text others) : Answers (K + L) text (tails.zipWith (· || ·) others) := by
  induction text generalizing tails others with
  | nil =>
    obtain ⟨b, rfl, first⟩ := h
    obtain ⟨d, rfl, second⟩ := other
    exact ⟨b || d, rfl, by rw [Bool.or_eq_true, first, second, Language.mem_add]⟩
  | cons c cs ih =>
    obtain ⟨b, rest, rfl, first, later⟩ := h
    obtain ⟨d, others, rfl, second, rest⟩ := other
    refine ⟨b || d, _, rfl, ?_, ih later rest⟩
    rw [Bool.or_eq_true, first, second, Language.mem_add]

/-- A token in front of others. -/
theorem Answers.tokenTails {token : GlobToken} (h : Answers L text tails) :
    Answers (token.language * L) text (tokenTails text tails token) := by
  cases token with
  | directories =>
    rw [GlobToken.language, add_mul, one_mul]
    exact h.zipWith h.slashTails
  | anything => exact h.runTails
  | within => exact h.runTails
  | single => exact h.stepTails
  | exactly c =>
    have same : ({[c]} : Language Char) = oneOf (· == c) := by
      ext t
      constructor
      · rintro rfl
        exact ⟨c, beq_self_eq_true c, rfl⟩
      · rintro ⟨d, eq, rfl⟩
        rw [eq_of_beq eq]
        rfl
    rw [GlobToken.language, same]
    exact h.stepTails

/-- All tokens. -/
theorem answers_matchTails (text : List Char) (tokens : List GlobToken) :
    Answers (tokens.map GlobToken.language).prod text (matchTails text tokens) := by
  induction tokens with
  | nil => exact answers_emptyTails text
  | cons token tokens ih =>
    rw [List.map_cons, List.prod_cons]
    exact ih.tokenTails

/-- A path is matched if and only if it is a concatenation of texts that the tokens of the pattern
stand for, in their order. -/
theorem accepts_iff (pattern path : String) :
    (Glob.ofString pattern).accepts path ↔
      ∃ tokens, Reads pattern.toList tokens ∧
        path.toList ∈ (tokens.map GlobToken.language).prod := by
  have one := (answers_matchTails path.toList (tokenize pattern.toList)).head
  constructor
  · exact fun h => ⟨_, reads_tokenize _, one.1 h⟩
  · rintro ⟨tokens, reads, mem⟩
    rw [reads_iff.1 reads] at mem
    exact one.2 mem

end Glob

end SourceAtlas
