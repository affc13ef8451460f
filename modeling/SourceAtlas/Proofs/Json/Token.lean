import SourceAtlas.Json.Reader
import SourceAtlas.Proofs.Text.Trim
import SourceAtlas.Text.Basic
/-!
The tokens of a JSON text and the gaps between them. A text is laid out from its tokens: a gap stands
in front of each and behind the last. What may stand in a gap is left open here, so that strict texts,
with white space alone, and relaxed ones, with comments, are laid out by one relation.
-/

namespace SourceAtlas.Json

/-! ### Lexemes -/

/-- What may stand behind a backslash, apart from the `u` of a code point. -/
def escapeLetters : List Char := ['"', '\\', '/', 'b', 'f', 'n', 'r', 't']

/-- What stands between the quotes of a string. -/
inductive StringBody : List Char → Prop
  | nil : StringBody []
  | plain {c : Char} {cs : List Char} (ink : 0x20 ≤ c.toNat) (quote : c ≠ '"') (mark : c ≠ '\\')
      (rest : StringBody cs) : StringBody (c :: cs)
  | escape {c : Char} {cs : List Char} (letter : c ∈ escapeLetters) (rest : StringBody cs) :
      StringBody ('\\' :: c :: cs)
  | codePoint {a b c d : Char} {cs : List Char} (hex : ∀ x ∈ [a, b, c, d], (hexDigit? x).isSome)
      (rest : StringBody cs) : StringBody ('\\' :: 'u' :: a :: b :: c :: d :: cs)

/-- Decimal digits, one at least. -/
def IsDigits (ds : List Char) : Prop := ds ≠ [] ∧ ∀ d ∈ ds, d.isDigit

/-- Digits that do not begin with a zero, unless the zero stands alone. -/
def IsWhole (ds : List Char) : Prop := IsDigits ds ∧ (ds = ['0'] ∨ ds.head? ≠ some '0')

/-- A decimal point and digits, or nothing. -/
def IsFraction (t : List Char) : Prop := t = [] ∨ ∃ ds, IsDigits ds ∧ t = '.' :: ds

/-- An exponent or nothing. -/
def IsExponent (t : List Char) : Prop :=
  t = [] ∨ ∃ letter sign ds, letter ∈ ['e', 'E'] ∧ sign ∈ [[], ['+'], ['-']] ∧ IsDigits ds ∧
    t = letter :: (sign ++ ds)

/-- The text of a number. -/
def IsNumberText (t : List Char) : Prop :=
  ∃ sign whole fraction exponent, sign ∈ [[], ['-']] ∧ IsWhole whole ∧ IsFraction fraction ∧
    IsExponent exponent ∧ t = sign ++ (whole ++ (fraction ++ exponent))

/-- The words that stand for a value. -/
def constants : List (List Char × Json) :=
  [("null".toList, null), ("true".toList, bool true), ("false".toList, bool false)]

/-- A token of a JSON text. -/
inductive Token where
  /-- A bracket, a comma or a colon. -/
  | mark (c : Char)
  /-- A constant or a number. -/
  | word (text : List Char)
  /-- A string, by what stands between its quotes. -/
  | quoted (body : List Char)
  deriving DecidableEq, Repr

namespace Token

/-- The characters of a token. -/
def text : Token → List Char
  | mark c => [c]
  | word t => t
  | quoted body => '"' :: (body ++ ['"'])

theorem quoted_text_append (body rest : List Char) :
    (quoted body).text ++ rest = '"' :: (body ++ '"' :: rest) := by
  rw [text, List.cons_append, List.append_assoc, List.singleton_append]

/-- The token is one of the language. -/
def IsLexeme : Token → Prop
  | mark c => c ∈ [',', ':', '[', ']', '{', '}']
  | word t => t ∈ constants.map Prod.fst ∨ IsNumberText t
  | quoted body => StringBody body

/-- The token closes an array or an object. -/
def closes : Token → Bool
  | mark c => c == '}' || c == ']'
  | _ => false

end Token

/-- The characters of which words are made. -/
def inWord (c : Char) : Bool := c.isAlphanum || c == '-' || c == '+' || c == '.'

theorem ne_of_inWord {c d : Char} (h : inWord c) (other : inWord d = false) : c ≠ d := by
  rintro rfl
  rw [h] at other
  cases other

theorem isBlank_eq_false_of_inWord {c : Char} (h : inWord c) : Text.isBlank c = false := by
  simp only [inWord, Bool.or_eq_true, beq_iff_eq] at h
  rcases h with ((letter | rfl) | rfl) | rfl
  · have ranges : c.isAlphanum =
        (decide ('A'.val ≤ c.val ∧ c.val ≤ 'Z'.val) || ('a'.val ≤ c.val && c.val ≤ 'z'.val) ||
          ('0'.val ≤ c.val && c.val ≤ '9'.val)) := rfl
    have code : c.val.toNat = c.toNat := rfl
    simp only [ranges, Bool.or_eq_true, Bool.and_eq_true, decide_eq_true_eq,
      UInt32.le_iff_toNat_le, code] at letter
    simp only [Text.isBlank, Bool.or_eq_false_iff, Bool.and_eq_false_iff, decide_eq_false_iff_not,
      beq_eq_false_iff_ne]
    simp at letter
    omega
  all_goals rfl

theorem IsDigits.inWord {ds : List Char} (h : IsDigits ds) : ∀ d ∈ ds, inWord d := fun d mem => by
  simp [Json.inWord, Char.isAlphanum, h.2 d mem]

theorem inWord_sign : ∀ sign ∈ [[], ['+'], ['-']], ∀ c ∈ sign, inWord c := by decide

theorem IsFraction.inWord {t : List Char} (h : IsFraction t) : ∀ c ∈ t, inWord c := by
  rcases h with rfl | ⟨ds, digits, rfl⟩
  · simp
  · exact List.forall_mem_cons.2 ⟨rfl, digits.inWord⟩

theorem IsExponent.inWord {t : List Char} (h : IsExponent t) : ∀ c ∈ t, inWord c := by
  rcases h with rfl | ⟨letter, sign, ds, letters, signs, digits, rfl⟩
  · simp
  · have first : ∀ c ∈ ['e', 'E'], Json.inWord c := by decide
    exact List.forall_mem_cons.2 ⟨first letter letters,
      List.forall_mem_append.2 ⟨inWord_sign sign signs, digits.inWord⟩⟩

theorem IsNumberText.inWord {t : List Char} (h : IsNumberText t) : ∀ c ∈ t, inWord c := by
  obtain ⟨sign, whole, fraction, exponent, signs, digits, frac, exp, rfl⟩ := h
  have minus : ∀ sign ∈ [[], ['-']], ∀ c ∈ sign, Json.inWord c := by decide
  simp only [List.forall_mem_append]
  exact ⟨minus sign signs, digits.1.inWord, frac.inWord, exp.inWord⟩

theorem IsNumberText.ne_nil {t : List Char} (h : IsNumberText t) : t ≠ [] := by
  obtain ⟨sign, whole, fraction, exponent, _, digits, _, _, rfl⟩ := h
  simp [digits.1.1]

/-- A word has a character, and characters of words alone. -/
theorem word_ne_nil {t : List Char} (h : (Token.word t).IsLexeme) : t ≠ [] := by
  rcases h with constant | number
  · rintro rfl
    exact absurd constant (by decide)
  · exact number.ne_nil

theorem inWord_of_mem_word {t : List Char} (h : (Token.word t).IsLexeme) : ∀ c ∈ t, inWord c := by
  have each : ∀ t ∈ constants.map Prod.fst, ∀ c ∈ t, inWord c := by decide
  rcases h with constant | number
  · exact each t constant
  · exact number.inWord

theorem isBlank_of_isSpace {c : Char} (h : isSpace c) : Text.isBlank c := by
  simp only [isSpace, Bool.or_eq_true, beq_iff_eq] at h
  rcases h with ((rfl | rfl) | rfl) | rfl <;> rfl

theorem isSpace_eq_false {c : Char} (h : Text.isBlank c = false) : isSpace c = false := by
  cases space : isSpace c with
  | false => rfl
  | true => exact absurd (isBlank_of_isSpace space) (by simp [h])

/-- A token begins with a character that is no white space. -/
theorem Token.IsLexeme.head {t : Token} (h : t.IsLexeme) :
    ∃ c cs, t.text = c :: cs ∧ Text.isBlank c = false := by
  cases t with
  | mark c =>
    have each : ∀ c ∈ [',', ':', '[', ']', '{', '}'], Text.isBlank c = false := by decide
    exact ⟨c, [], rfl, each c h⟩
  | word t =>
    obtain ⟨c, cs, rfl⟩ := List.exists_cons_of_ne_nil (word_ne_nil h)
    exact ⟨c, cs, rfl, isBlank_eq_false_of_inWord (inWord_of_mem_word h c List.mem_cons_self)⟩
  | quoted body => exact ⟨'"', _, rfl, rfl⟩

/-- Only a token that closes begins with a closing bracket. -/
theorem Token.IsLexeme.closes_head {t : Token} {c : Char} {cs : List Char} (h : t.IsLexeme)
    (eq : t.text = c :: cs) : (c == '}' || c == ']') = t.closes := by
  cases t with
  | mark d =>
    obtain ⟨rfl, _⟩ := List.cons.inj eq
    rfl
  | word t =>
    obtain rfl : t = c :: cs := eq
    have inside := inWord_of_mem_word h c List.mem_cons_self
    simp [closes, ne_of_inWord inside (show inWord '}' = false from rfl),
      ne_of_inWord inside (show inWord ']' = false from rfl)]
  | quoted body =>
    obtain ⟨rfl, _⟩ := List.cons.inj eq
    rfl

/-! ### Layout -/

/-- White space alone. -/
def IsBlank (g : List Char) : Prop := ∀ c ∈ g, isSpace c

theorem isBlank_nil : IsBlank [] := by simp [IsBlank]

theorem IsBlank.append {g g' : List Char} (h : IsBlank g) (h' : IsBlank g') : IsBlank (g ++ g') :=
  List.forall_mem_append.2 ⟨h, h'⟩

/-- A text that consists of tokens, with a gap in front of each and one at the end. -/
inductive LaidOut (between atEnd : List Char → Prop) : List Token → List Char → Prop
  | done {g : List Char} (gap : atEnd g) : LaidOut between atEnd [] g
  | token {g rest : List Char} {t : Token} {ts : List Token} (gap : between g) (lexeme : t.IsLexeme)
      (later : LaidOut between atEnd ts rest) : LaidOut between atEnd (t :: ts) (g ++ (t.text ++ rest))

/-- A text that consists of tokens with white space between them. -/
abbrev Spaced : List Token → List Char → Prop := LaidOut IsBlank IsBlank

theorem Spaced.blank_append {g text : List Char} {ts : List Token} (blank : IsBlank g)
    (h : Spaced ts text) : Spaced ts (g ++ text) := by
  cases h with
  | done gap => exact .done (blank.append gap)
  | token gap lexeme later =>
    rw [← List.append_assoc]
    exact .token (blank.append gap) lexeme later

theorem skipSpace_blank {g : List Char} (h : IsBlank g) (cs : List Char) :
    skipSpace (g ++ cs) = skipSpace cs :=
  List.dropWhile_append_of_pos h

/-- Behind its white space the text goes on with its first token. -/
theorem Spaced.exists_skipSpace {t : Token} {ts : List Token} {text : List Char}
    (h : Spaced (t :: ts) text) :
    ∃ rest, skipSpace text = t.text ++ rest ∧ t.IsLexeme ∧ Spaced ts rest := by
  cases h with
  | @token _ rest _ _ gap lexeme later =>
    obtain ⟨c, cs, eq, ink⟩ := lexeme.head
    refine ⟨rest, ?_, lexeme, later⟩
    rw [skipSpace_blank gap, eq, List.cons_append, skipSpace, List.dropWhile_cons_of_neg]
    simp [isSpace_eq_false ink]

theorem Spaced.skipSpace_eq_nil {text : List Char} (h : Spaced [] text) : skipSpace text = [] := by
  cases h with
  | done gap =>
    have whole := skipSpace_blank gap []
    rwa [List.append_nil] at whole

/-- Every token takes a character. -/
theorem Spaced.length_le {ts : List Token} {text : List Char} (h : Spaced ts text) :
    ts.length ≤ text.length := by
  induction h with
  | done _ => exact Nat.zero_le _
  | token _ lexeme _ ih =>
    obtain ⟨c, cs, eq, _⟩ := lexeme.head
    simp only [List.length_append, List.length_cons, eq]
    omega

end SourceAtlas.Json
