import SourceAtlas.Json.Relaxed
import SourceAtlas.Proofs.Json.Token
/-!
What the two scanners do to a text that is laid out from tokens. Strings are passed over by both in the
same way, and so is every other token but a comma: the first scanner turns gaps with comments into
white space, the second one drops a comma whose next token closes an array or an object. Both leave a
text alone that has nothing for them to do.
-/

namespace SourceAtlas.Json

/-! ### Gaps -/

/-- What may stand between two tokens of a relaxed text: white space, line comments with the line end
behind them, and block comments. -/
inductive IsGap : List Char → Prop
  | nil : IsGap []
  | space {c : Char} {g : List Char} (space : isSpace c) (rest : IsGap g) : IsGap (c :: g)
  | line {body g : List Char} (inside : '\n' ∉ body) (rest : IsGap g) :
      IsGap ('/' :: '/' :: (body ++ '\n' :: g))
  | block {body g : List Char} (inside : ¬['*', '/'] <:+: body) (rest : IsGap g) :
      IsGap ('/' :: '*' :: (body ++ '*' :: '/' :: g))

/-- What may stand at the end of a relaxed text: a gap, and then perhaps a line comment that the end of
the text ends. -/
def IsLastGap (g : List Char) : Prop :=
  IsGap g ∨ ∃ front body, IsGap front ∧ '\n' ∉ body ∧ g = front ++ '/' :: '/' :: body

/-! ### Comments -/

section
variable {rest : List Char}

/-- A string is passed over by any scanner that copies its characters and lets no escaped one end it. -/
theorem scan_stringBody (quote code : List Char → List Char)
    (escape : ∀ c cs, quote ('\\' :: c :: cs) = '\\' :: c :: quote cs)
    (close : ∀ cs, quote ('"' :: cs) = '"' :: code cs)
    (other : ∀ c cs, c ≠ '"' → c ≠ '\\' → quote (c :: cs) = c :: quote cs)
    {body : List Char} (h : StringBody body) (rest : List Char) :
    quote (body ++ '"' :: rest) = body ++ '"' :: code rest := by
  induction h with
  | nil => exact close rest
  | plain _ noQuote noMark _ ih => rw [List.cons_append, other _ _ noQuote noMark, ih]; rfl
  | escape _ _ ih => rw [List.cons_append, List.cons_append, escape, ih]; rfl
  | codePoint hex _ ih =>
    have digit : ∀ x, (hexDigit? x).isSome → x ≠ '"' ∧ x ≠ '\\' := by
      rintro x isDigit
      constructor <;> rintro rfl <;> cases isDigit
    obtain ⟨ha, hb, hc, hd, _⟩ : (hexDigit? _).isSome ∧ (hexDigit? _).isSome ∧
      (hexDigit? _).isSome ∧ (hexDigit? _).isSome ∧ True := by simpa using hex
    simp only [List.cons_append]
    rw [escape, other _ _ (digit _ ha).1 (digit _ ha).2, other _ _ (digit _ hb).1 (digit _ hb).2,
      other _ _ (digit _ hc).1 (digit _ hc).2, other _ _ (digit _ hd).1 (digit _ hd).2, ih]

/-- What becomes of a character that neither begins nor ends anything. -/
theorem stripComments_other (c : Char) (cs : List Char) :
    (c ≠ '"' → c ≠ '/' → stripComments .code (c :: cs) = c :: stripComments .code cs) ∧
    (c ≠ '"' → c ≠ '\\' → stripComments .quote (c :: cs) = c :: stripComments .quote cs) ∧
    (c ≠ '\n' → stripComments .lineComment (c :: cs) = stripComments .lineComment cs) ∧
    (¬['*', '/'] <+: c :: cs →
      stripComments .blockComment (c :: cs) = stripComments .blockComment cs) := by
  refine ⟨fun quote slash => ?_, fun quote mark => ?_, fun line => ?_, fun close => ?_⟩
  · rw [stripComments] <;> simp [quote, slash]
  · rw [stripComments] <;> simp [quote, mark]
  · rw [stripComments]
    exact line
  · rw [stripComments]
    rintro tail rfl rfl
    exact close ⟨tail, rfl⟩

theorem stripComments_stringBody {body : List Char} (h : StringBody body) (rest : List Char) :
    stripComments .quote (body ++ '"' :: rest) = body ++ '"' :: stripComments .code rest :=
  scan_stringBody (stripComments .quote) (stripComments .code) (fun _ _ => rfl) (fun _ => rfl)
    (fun c cs => (stripComments_other c cs).2.1) h rest

theorem stripComments_append {t : List Char} (quote : '"' ∉ t) (slash : '/' ∉ t) (rest : List Char) :
    stripComments .code (t ++ rest) = t ++ stripComments .code rest := by
  induction t with
  | nil => rfl
  | cons c cs ih =>
    simp only [List.mem_cons, not_or] at quote slash
    rw [List.cons_append, (stripComments_other c _).1 (Ne.symm quote.1) (Ne.symm slash.1),
      ih quote.2 slash.2]
    rfl

theorem stripComments_blank {g : List Char} (h : IsBlank g) (rest : List Char) :
    stripComments .code (g ++ rest) = g ++ stripComments .code rest :=
  stripComments_append (fun mem => absurd (h _ mem) (by decide))
    (fun mem => absurd (h _ mem) (by decide)) rest

/-- No token is taken for a comment. -/
theorem stripComments_token {t : Token} (h : t.IsLexeme) (rest : List Char) :
    stripComments .code (t.text ++ rest) = t.text ++ stripComments .code rest := by
  cases t with
  | mark c =>
    have each : ∀ c ∈ [',', ':', '[', ']', '{', '}'], c ≠ '"' ∧ c ≠ '/' := by decide
    exact (stripComments_other c rest).1 (each c h).1 (each c h).2
  | word t =>
    exact stripComments_append (fun mem => absurd (inWord_of_mem_word h _ mem) (by decide))
      (fun mem => absurd (inWord_of_mem_word h _ mem) (by decide)) rest
  | quoted body =>
    rw [Token.quoted_text_append, Token.quoted_text_append]
    exact congrArg ('"' :: ·) (stripComments_stringBody h rest)

theorem stripComments_line {body : List Char} (h : '\n' ∉ body) (rest : List Char) :
    stripComments .lineComment (body ++ '\n' :: rest) = '\n' :: stripComments .code rest := by
  induction body with
  | nil => rfl
  | cons c cs ih =>
    simp only [List.mem_cons, not_or] at h
    rw [List.cons_append, (stripComments_other c _).2.2.1 (Ne.symm h.1), ih h.2]

theorem stripComments_openLine {body : List Char} (h : '\n' ∉ body) :
    stripComments .lineComment body = [] := by
  induction body with
  | nil => rfl
  | cons c cs ih =>
    simp only [List.mem_cons, not_or] at h
    rw [(stripComments_other c cs).2.2.1 (Ne.symm h.1), ih h.2]

theorem stripComments_block {body : List Char} (h : ¬['*', '/'] <:+: body) (rest : List Char) :
    stripComments .blockComment (body ++ '*' :: '/' :: rest) = stripComments .code rest := by
  induction body with
  | nil => rfl
  | cons c cs ih =>
    have later := ih fun inside => h (inside.trans (List.suffix_cons c cs).isInfix)
    -- a star does not end the comment here: a slash behind it would stand inside
    have noClose : ¬['*', '/'] <+: c :: (cs ++ '*' :: '/' :: rest) := by
      rintro ⟨tail, same⟩
      obtain ⟨rfl, next⟩ := List.cons.inj same
      cases cs with
      | nil => cases next
      | cons d ds =>
        obtain ⟨rfl, _⟩ := List.cons.inj next
        exact h ⟨[], ds, rfl⟩
    rw [List.cons_append, (stripComments_other c _).2.2.2 noClose, later]

/-- A gap becomes white space. -/
theorem exists_stripComments_gap {g : List Char} (h : IsGap g) :
    ∃ b, IsBlank b ∧ ∀ rest, stripComments .code (g ++ rest) = b ++ stripComments .code rest := by
  induction h with
  | nil => exact ⟨[], isBlank_nil, fun _ => rfl⟩
  | @space c g space _ ih =>
    obtain ⟨b, blank, eq⟩ := ih
    have one : IsBlank [c] := List.forall_mem_singleton.2 space
    refine ⟨c :: b, one.append blank, fun rest => ?_⟩
    have first := stripComments_blank one (g ++ rest)
    rw [eq] at first
    exact first
  | @line body g inside _ ih =>
    obtain ⟨b, blank, eq⟩ := ih
    have one : IsBlank ['\n'] := List.forall_mem_singleton.2 rfl
    refine ⟨'\n' :: b, one.append blank, fun rest => ?_⟩
    have behind := stripComments_line inside (g ++ rest)
    rw [eq] at behind
    simp only [List.cons_append, List.append_assoc]
    exact behind
  | @block body g inside _ ih =>
    obtain ⟨b, blank, eq⟩ := ih
    refine ⟨b, blank, fun rest => ?_⟩
    have behind := stripComments_block inside (g ++ rest)
    rw [eq] at behind
    simp only [List.cons_append, List.append_assoc]
    exact behind

theorem isBlank_stripComments {g : List Char} (h : IsLastGap g) : IsBlank (stripComments .code g) := by
  rcases h with gap | ⟨front, body, gap, inside, rfl⟩
  · obtain ⟨b, blank, eq⟩ := exists_stripComments_gap gap
    have whole := eq []
    rw [List.append_nil] at whole
    rw [whole]
    exact blank.append isBlank_nil
  · obtain ⟨b, blank, eq⟩ := exists_stripComments_gap gap
    have behind := stripComments_openLine inside
    rw [eq]
    exact behind ▸ blank.append isBlank_nil

end

/-- Without its comments a relaxed text has white space between its tokens. -/
theorem LaidOut.stripComments {ts : List Token} {text : List Char}
    (h : LaidOut IsGap IsLastGap ts text) : Spaced ts (stripComments .code text) := by
  induction h with
  | done gap => exact .done (isBlank_stripComments gap)
  | token gap lexeme _ ih =>
    obtain ⟨b, blank, eq⟩ := exists_stripComments_gap gap
    rw [eq, stripComments_token lexeme]
    exact .token blank lexeme ih

/-- A text without comments stays. -/
theorem Spaced.stripComments_eq {ts : List Token} {text : List Char} (h : Spaced ts text) :
    Json.stripComments .code text = text := by
  induction h with
  | @done g gap =>
    have whole : Json.stripComments .code (g ++ []) = g ++ [] := stripComments_blank gap []
    rwa [List.append_nil] at whole
  | token gap lexeme _ ih => rw [stripComments_blank gap, stripComments_token lexeme, ih]

/-! ### Commas -/

/-- The next token closes an array or an object. -/
def closesFirst : List Token → Bool
  | [] => false
  | t :: _ => t.closes

/-- The tokens without the commas in front of a closing bracket. -/
def dropTrailing : List Token → List Token
  | [] => []
  | t :: ts => if t = .mark ',' ∧ closesFirst ts then dropTrailing ts else t :: dropTrailing ts

theorem length_dropTrailing : ∀ ts : List Token, (dropTrailing ts).length ≤ ts.length
  | [] => Nat.le_refl _
  | t :: ts => by
    have later := length_dropTrailing ts
    rw [dropTrailing]
    split
    · exact Nat.le_succ_of_le later
    · exact Nat.succ_le_succ later

/-- Tokens of which none is dropped. -/
theorem dropTrailing_cons_eq {t : Token} {ts : List Token} (h : dropTrailing (t :: ts) = t :: ts) :
    ¬(t = .mark ',' ∧ closesFirst ts) ∧ dropTrailing ts = ts := by
  rw [dropTrailing] at h
  split at h
  · have shorter := length_dropTrailing ts
    rw [h, List.length_cons] at shorter
    omega
  · exact ⟨‹_›, (List.cons.inj h).2⟩

/-- What becomes of a character that is no mark. -/
theorem stripCommas_other (c : Char) (cs : List Char) (quote : c ≠ '"') :
    (c ≠ '\\' → stripCommas true (c :: cs) = c :: stripCommas true cs) ∧
    (c ≠ ',' → stripCommas false (c :: cs) = c :: stripCommas false cs) := by
  constructor
  · intro mark
    rw [stripCommas] <;> simp [quote, mark]
  · intro comma
    rw [stripCommas] <;> simp [quote, comma]

theorem stripCommas_comma (cs : List Char) : stripCommas false (',' :: cs) =
    if closesNext cs then stripCommas false cs else ',' :: stripCommas false cs := rfl

theorem stripCommas_stringBody {body : List Char} (h : StringBody body) (rest : List Char) :
    stripCommas true (body ++ '"' :: rest) = body ++ '"' :: stripCommas false rest :=
  scan_stringBody (stripCommas true) (stripCommas false) (fun _ _ => rfl) (fun _ => rfl)
    (fun c cs quote => (stripCommas_other c cs quote).1) h rest

theorem stripCommas_append {t : List Char} (quote : '"' ∉ t) (comma : ',' ∉ t) (rest : List Char) :
    stripCommas false (t ++ rest) = t ++ stripCommas false rest := by
  induction t with
  | nil => rfl
  | cons c cs ih =>
    simp only [List.mem_cons, not_or] at quote comma
    rw [List.cons_append, (stripCommas_other c _ (Ne.symm quote.1)).2 (Ne.symm comma.1),
      ih quote.2 comma.2]
    rfl

theorem stripCommas_blank {g : List Char} (h : IsBlank g) (rest : List Char) :
    stripCommas false (g ++ rest) = g ++ stripCommas false rest :=
  stripCommas_append (fun mem => absurd (h _ mem) (by decide))
    (fun mem => absurd (h _ mem) (by decide)) rest

/-- Every token but a comma is passed over. -/
theorem stripCommas_token {t : Token} (h : t.IsLexeme) (other : t ≠ .mark ',') (rest : List Char) :
    stripCommas false (t.text ++ rest) = t.text ++ stripCommas false rest := by
  cases t with
  | mark c =>
    have each : ∀ c ∈ [',', ':', '[', ']', '{', '}'], c ≠ '"' := by decide
    have quote := each c h
    have comma : c ≠ ',' := fun same => other (same ▸ rfl)
    exact (stripCommas_other c rest quote).2 comma
  | word t =>
    exact stripCommas_append (fun mem => absurd (inWord_of_mem_word h _ mem) (by decide))
      (fun mem => absurd (inWord_of_mem_word h _ mem) (by decide)) rest
  | quoted body =>
    rw [Token.quoted_text_append, Token.quoted_text_append]
    exact congrArg ('"' :: ·) (stripCommas_stringBody h rest)

theorem trimStart_blank {g : List Char} (h : IsBlank g) (cs : List Char) :
    Text.trimStart (g ++ cs) = Text.trimStart cs :=
  List.dropWhile_append_of_pos fun c mem => isBlank_of_isSpace (h c mem)

/-- The character behind a comma that is no blank is the first one of the next token. -/
theorem Spaced.closesNext_eq {ts : List Token} {text : List Char} (h : Spaced ts text) :
    closesNext text = closesFirst ts := by
  cases h with
  | done gap =>
    have nothing := trimStart_blank gap []
    rw [List.append_nil] at nothing
    rw [closesNext, nothing]
    rfl
  | @token _ rest t _ gap lexeme _ =>
    obtain ⟨c, cs, eq, ink⟩ := lexeme.head
    have first : Text.trimStart (c :: (cs ++ rest)) = c :: (cs ++ rest) := by
      simp [Text.trimStart, ink]
    rw [closesNext, trimStart_blank gap, eq, List.cons_append, first, List.head?_cons]
    exact lexeme.closes_head eq

/-- Without its trailing commas a text has the same tokens but those. -/
theorem Spaced.stripCommas {ts : List Token} {text : List Char} (h : Spaced ts text) :
    Spaced (dropTrailing ts) (stripCommas false text) := by
  induction h with
  | @done g gap =>
    have whole := stripCommas_blank gap []
    rw [List.append_nil] at whole
    rw [whole]
    exact .done (gap.append isBlank_nil)
  | @token g rest t ts gap lexeme later ih =>
    rw [stripCommas_blank gap, dropTrailing]
    by_cases comma : t = .mark ','
    · subst comma
      have step := stripCommas_comma rest
      rw [Spaced.closesNext_eq later] at step
      change Spaced _ (g ++ Json.stripCommas false (',' :: rest))
      rw [step]
      cases closesFirst ts with
      | true => exact Spaced.blank_append gap ih
      | false => exact .token gap lexeme ih
    · rw [stripCommas_token lexeme comma, if_neg fun both => comma both.1]
      exact .token gap lexeme ih

/-- A text without trailing commas stays. -/
theorem Spaced.stripCommas_eq {ts : List Token} {text : List Char} (h : Spaced ts text)
    (kept : dropTrailing ts = ts) : Json.stripCommas false text = text := by
  induction h with
  | @done g gap =>
    have whole : Json.stripCommas false (g ++ []) = g ++ [] := stripCommas_blank gap []
    rwa [List.append_nil] at whole
  | @token g rest t ts gap lexeme later ih =>
    obtain ⟨stays, others⟩ := dropTrailing_cons_eq kept
    have behind := ih others
    rw [stripCommas_blank gap]
    by_cases comma : t = .mark ','
    · have step := stripCommas_comma rest
      have next : closesFirst ts = false := by simpa [comma] using stays
      rw [Spaced.closesNext_eq later, next, if_neg Bool.false_ne_true, behind] at step
      rw [comma]
      exact congrArg (g ++ ·) step
    · rw [stripCommas_token lexeme comma, behind]

end SourceAtlas.Json
