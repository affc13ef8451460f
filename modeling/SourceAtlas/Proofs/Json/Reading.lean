import Mathlib.Data.List.Forall2
import SourceAtlas.Proofs.Json.Lexeme
import SourceAtlas.Proofs.Json.RoundTrip
import SourceAtlas.Proofs.Json.Written
/-!
The strict reader reads the strict texts and no others. In one direction the induction is over the
written document, with the tokens behind it left open; in the other it is over the depth, and what the
reader leaves may be laid out in any way. So the relaxed reader reads every relaxed text that is not
nested too deep, and reads a strict text as the strict reader does.
-/

namespace SourceAtlas.Json

/-! ### Tokens in front -/

/-- Nothing comes next but perhaps a mark. -/
def MarkFirst (ts : List Token) : Prop := ∀ t ∈ ts.head?, ∃ c, t = .mark c

theorem markFirst_nil : MarkFirst [] := by simp [MarkFirst]

theorem markFirst_cons (c : Char) (ts : List Token) : MarkFirst (.mark c :: ts) := by
  simp [MarkFirst]

/-- No word goes on into a mark. -/
theorem Spaced.stops {ts : List Token} {text : List Char} (h : Spaced ts text) (marks : MarkFirst ts) :
    Stops inWord text := by
  have blank : ∀ {c : Char} {cs rest : List Char}, IsBlank (c :: cs) → Stops inWord (c :: rest) := by
    intro c cs rest blank
    refine stops_cons ?_
    cases word : inWord c with
    | false => rfl
    | true =>
      have space := isBlank_of_isSpace (blank c List.mem_cons_self)
      exact absurd space (by simp [isBlank_eq_false_of_inWord word])
  cases h with
  | done gap =>
    cases text with
    | nil => exact stops_nil inWord
    | cons c cs => exact blank gap
  | @token g rest t ts gap lexeme later =>
    cases g with
    | cons c cs => exact blank gap
    | nil =>
      obtain ⟨c, rfl⟩ := marks t rfl
      have each : ∀ c ∈ [',', ':', '[', ']', '{', '}'], inWord c = false := by decide
      exact stops_cons (each c lexeme)

/-- A text whose first token closes nothing goes on with no closing bracket. -/
theorem Spaced.exists_opening {ts : List Token} {text : List Char} (h : Spaced ts text)
    (filled : ts ≠ []) (opens : closesFirst ts = false) :
    ∃ c cs, skipSpace text = c :: cs ∧ (c == '}') = false ∧ (c == ']') = false := by
  obtain ⟨t, ts, rfl⟩ := List.exists_cons_of_ne_nil filled
  obtain ⟨rest, skip, lexeme, _⟩ := Spaced.exists_skipSpace h
  obtain ⟨c, cs, head, _⟩ := lexeme.head
  have first : (c == '}' || c == ']') = false := (lexeme.closes_head head).trans opens
  exact ⟨c, cs ++ rest, by rw [skip, head, List.cons_append], Bool.or_eq_false_iff.1 first⟩

/-- The tokens stand in front of what is left of a text. -/
def Fronts (part : List Token) (text rest : List Char) : Prop :=
  ∀ ts, Spaced ts rest → Spaced (part ++ ts) text

theorem Fronts.trans {part part' : List Token} {text mid rest : List Char} (h : Fronts part text mid)
    (h' : Fronts part' mid rest) : Fronts (part ++ part') text rest := by
  intro ts spaced
  rw [List.append_assoc]
  exact h _ (h' _ spaced)

theorem fronts_token {t : Token} {text rest : List Char} (lexeme : t.IsLexeme)
    (h : skipSpace text = t.text ++ rest) : Fronts [t] text rest := by
  intro ts spaced
  have whole := List.takeWhile_append_dropWhile (p := isSpace) (l := text)
  rw [← whole]
  change Spaced (t :: ts) (text.takeWhile isSpace ++ skipSpace text)
  rw [h]
  exact .token (fun _ => List.mem_takeWhile_imp) lexeme spaced

/-! ### Sequences -/

/-- The reader takes the tokens for the value, in front of a mark or of the end. -/
def Takes (read : Reader β) (part : List Token) (b : β) : Prop :=
  ∀ ts text, MarkFirst ts → Spaced (part ++ ts) text →
    ∃ rest, read text = some (b, rest) ∧ Spaced ts rest

theorem length_le_separated (parts : List (List Token)) :
    parts.length ≤ (separated false parts).length + 1 := by
  fun_induction separated false parts with
  | case1 => simp
  | case2 => simp
  | case3 part next parts ih =>
    simp only [List.length_append, List.length_cons] at ih ⊢
    omega

section
variable {α β : Type} {read : Reader β} {part : α → List Token} {close : Char} {as : List α} {bs : List β}

/-- Parts with commas between them are taken one by one up to the closing character. -/
theorem Takes.itemsUntil (closes : close = ']' ∨ close = '}')
    (h : List.Forall₂ (fun a b => Takes read (part a) b) as bs) (filled : as ≠ []) (ts : List Token) :
    ∀ {fuel : Nat} {text : List Char}, as.length ≤ fuel →
      Spaced (separated false (as.map part) ++ .mark close :: ts) text →
      ∃ rest, itemsUntil close read fuel text = some (bs, rest) ∧ Spaced ts rest := by
  induction h with
  | nil => exact absurd rfl filled
  | @cons a b as bs first later ih =>
    intro fuel text enough spaced
    obtain ⟨fuel, rfl⟩ : ∃ n, fuel = n + 1 := ⟨fuel - 1, by simp at enough; omega⟩
    cases later with
    | nil =>
      have alone : Spaced (part a ++ .mark close :: ts) text := by simpa [separated] using spaced
      obtain ⟨behind, taken, spaced⟩ := first _ _ (markFirst_cons _ _) alone
      obtain ⟨rest, skip, _, spaced⟩ := Spaced.exists_skipSpace spaced
      exact ⟨rest, by simp [Json.itemsUntil, taken, skip, Token.text], spaced⟩
    | @cons a' b' as bs second later =>
      have other : (',' == close) = false := by rcases closes with rfl | rfl <;> rfl
      have both : Spaced (part a ++ .mark ',' ::
          (separated false ((a' :: as).map part) ++ .mark close :: ts)) text := by
        simpa [separated] using spaced
      obtain ⟨behind, taken, spaced⟩ := first _ _ (markFirst_cons _ _) both
      obtain ⟨next, skip, _, spaced⟩ := Spaced.exists_skipSpace spaced
      obtain ⟨rest, others, spaced⟩ := ih (by simp) (by simpa using enough) spaced
      exact ⟨rest, by simp [Json.itemsUntil, taken, skip, Token.text, other, others], spaced⟩

theorem Takes.sequence (closes : close = ']' ∨ close = '}')
    (h : List.Forall₂ (fun a b => Takes read (part a) b) as bs)
    (opens : ∀ a ∈ as, ∀ rest, closesFirst (part a ++ rest) = false) {ts : List Token}
    {text : List Char} (spaced : Spaced (separated false (as.map part) ++ .mark close :: ts) text) :
    ∃ rest, sequence close read text = some (bs, rest) ∧ Spaced ts rest := by
  cases as with
  | nil =>
    cases h
    obtain ⟨rest, skip, _, spaced⟩ := Spaced.exists_skipSpace spaced
    exact ⟨rest, by simp [Json.sequence, skip, Token.text], spaced⟩
  | cons a as =>
    have opening := closesFirst_separated part false as
      (opens a List.mem_cons_self) (.mark close :: ts)
    -- the reader's fuel is the length of the text, and each part has a mark behind it
    have count := Spaced.length_le spaced
    have parts := length_le_separated ((a :: as).map part)
    rw [List.length_append, List.length_cons] at count
    rw [List.length_map] at parts
    have enough : (a :: as).length ≤ text.length + 1 := by omega
    obtain ⟨rest, read, later⟩ := Takes.itemsUntil closes h (by simp) ts enough spaced
    obtain ⟨c, cs, skip, brace, bracket⟩ := Spaced.exists_opening spaced (by simp) opening
    have other : (c == close) = false := by
      rcases closes with rfl | rfl
      · exact bracket
      · exact brace
    exact ⟨rest, by simp [Json.sequence, skip, other, read], later⟩

end

/-! ### Written documents are read -/

theorem value_skipSpace (depth : Nat) (text : List Char) :
    value depth (skipSpace text) = value depth text := by
  have twice : skipSpace (skipSpace text) = skipSpace text := List.dropWhile_idempotent _ _
  cases depth <;> simp only [value, twice]

theorem IsNumberText.leads {t : List Char} (h : IsNumberText t) : ∃ c cs, t = c :: cs ∧ Leads c := by
  obtain ⟨sign, whole, fraction, exponent, signs, digits, _, _, rfl⟩ := h
  obtain ⟨d, ds, rfl⟩ := List.exists_cons_of_ne_nil digits.1.1
  have digit := digits.1.2 d List.mem_cons_self
  rcases List.mem_pair.1 signs with rfl | rfl
  · exact ⟨d, _, rfl, .inr digit⟩
  · exact ⟨'-', _, rfl, .inl rfl⟩

/-- No number is a constant. -/
theorem wordValue?_number {t : List Char} (h : IsNumberText t) :
    wordValue? t = (number? t).map fun n => number n.1 := by
  obtain ⟨c, cs, rfl, leads⟩ := h.leads
  have other : ∀ d ∈ ['n', 't', 'f'], (c == d) = false := by
    have each : ∀ d ∈ ['n', 't', 'f'], d ≠ '-' ∧ d.isDigit = false := by decide
    exact fun d letter => beq_false_of_ne (leads.ne (each d letter))
  have nothing : constants.lookup (c :: cs) = none := by
    simp [constants, List.lookup_cons, other]
  rw [wordValue?, nothing, Option.none_or]

/-- A constant is read as its value. -/
theorem value_constant {t : List Char} {v : Json} (h : (t, v) ∈ constants) (depth : Nat)
    (rest : List Char) : value depth (t ++ rest) = some (v, rest) := by
  have each : (t = "null".toList ∧ v = null) ∨ (t = "true".toList ∧ v = bool true) ∨
      (t = "false".toList ∧ v = bool false) := by simpa [constants] using h
  rcases each with ⟨rfl, rfl⟩ | ⟨rfl, rfl⟩ | ⟨rfl, rfl⟩
  · have read := keyword?_append "null" null rest
    simpa [value, skipSpace_cons _ (show isSpace 'n' = false from rfl)] using read
  · have read := keyword?_append "true" (bool true) rest
    simpa [value, skipSpace_cons _ (show isSpace 't' = false from rfl)] using read
  · have read := keyword?_append "false" (bool false) rest
    simpa [value, skipSpace_cons _ (show isSpace 'f' = false from rfl)] using read

theorem wordValue?_constant {t : List Char} {v : Json} (h : (t, v) ∈ constants) :
    wordValue? t = some v := by
  have each : ∀ p ∈ constants, constants.lookup p.1 = some p.2 := by
    simp [constants, List.lookup_cons]
  rw [wordValue?, each _ h, Option.some_or]

theorem stringFrom_body {body : List Char} {s : String} (h : StringBody body)
    (value : bodyValue? body = some s) (rest : List Char) :
    stringFrom [] (body ++ '"' :: rest) = some (s, rest) := by
  obtain ⟨p, read, rfl⟩ := Option.map_eq_some_iff.1 value
  rw [h.stringFrom_append, read, Option.map_some]

namespace Written

theorem strict_list_iff {items : List Written} {comma : Bool} :
    (list items comma).strict = list items comma ↔ comma = false ∧ ∀ w ∈ items, w.strict = w := by
  have each : items.map strict = items ↔ ∀ w ∈ items, w.strict = w := by
    simpa using List.map_inj_left (f := strict) (g := id) (l := items)
  rw [strict, strictItems_eq, list.injEq, each, and_comm, eq_comm]

theorem strict_table_iff {members : List (List Char × Written)} {comma : Bool} :
    (table members comma).strict = table members comma ↔
      comma = false ∧ ∀ m ∈ members, m.2.strict = m.2 := by
  have each : (members.map fun m => (m.1, m.2.strict)) = members ↔ ∀ m ∈ members, m.2.strict = m.2 := by
    have single := List.map_inj_left (f := fun m : List Char × Written => (m.1, m.2.strict)) (g := id)
      (l := members)
    simpa [Prod.ext_iff] using single
  rw [strict, strictMembers_eq, table.injEq, each, and_comm, eq_comm]

/-- The document is strict and has this value, which is not nested deeper. -/
def Spells (depth : Nat) (w : Written) (v : Json) : Prop :=
  w.strict = w ∧ w.value? = some v ∧ nesting v ≤ depth

theorem forall₂_spells_items {depth : Nat} : ∀ {items : List Written} {vs : List Json},
    List.Forall₂ (Spells depth) items vs ↔
      (∀ w ∈ items, w.strict = w) ∧ itemValues? items = some vs ∧ nestingItems vs ≤ depth
  | [], vs => by
    rw [List.forall₂_nil_left_iff, itemValues?, Option.some.injEq, eq_comm]
    exact ⟨by rintro rfl; simp [nestingItems], fun h => h.2.1⟩
  | w :: rest, vs => by
    rw [List.forall₂_cons_left_iff, List.forall_mem_cons, itemValues?, Option.bind_eq_some_iff]
    simp only [Option.map_eq_some_iff, forall₂_spells_items]
    constructor
    · rintro ⟨v, vs, ⟨strict, value, deep⟩, ⟨others, values, deeper⟩, rfl⟩
      exact ⟨⟨strict, others⟩, ⟨v, value, vs, values, rfl⟩, Nat.max_le.2 ⟨deep, deeper⟩⟩
    · rintro ⟨⟨strict, others⟩, ⟨v, value, vs, values, rfl⟩, deep⟩
      rw [nestingItems, Nat.max_le] at deep
      exact ⟨v, vs, ⟨strict, value, deep.1⟩, ⟨others, values, deep.2⟩, rfl⟩

theorem forall₂_spells_members {depth : Nat} : ∀ {members : List (List Char × Written)}
    {vs : List (String × Json)},
    List.Forall₂ (fun m v => bodyValue? m.1 = some v.1 ∧ Spells depth m.2 v.2) members vs ↔
      (∀ m ∈ members, m.2.strict = m.2) ∧ memberValues? members = some vs ∧ nestingMembers vs ≤ depth
  | [], vs => by
    rw [List.forall₂_nil_left_iff, memberValues?, Option.some.injEq, eq_comm]
    exact ⟨by rintro rfl; simp [nestingMembers], fun h => h.2.1⟩
  | (name, w) :: rest, vs => by
    rw [List.forall₂_cons_left_iff, List.forall_mem_cons, memberValues?, Option.bind_eq_some_iff]
    simp only [Option.bind_eq_some_iff, Option.map_eq_some_iff, forall₂_spells_members]
    constructor
    · rintro ⟨⟨n, v⟩, vs, ⟨named, strict, value, deep⟩, ⟨others, values, deeper⟩, rfl⟩
      exact ⟨⟨strict, others⟩, ⟨n, named, v, value, vs, values, rfl⟩, Nat.max_le.2 ⟨deep, deeper⟩⟩
    · rintro ⟨⟨strict, others⟩, ⟨n, named, v, value, vs, values, rfl⟩, deep⟩
      rw [nestingMembers, Nat.max_le] at deep
      exact ⟨(n, v), vs, ⟨named, strict, value, deep.1⟩, ⟨others, values, deep.2⟩, rfl⟩

/-- An array spells the values that its items spell, one level deeper. -/
theorem spells_list_iff {depth : Nat} {items : List Written} {comma : Bool} {v : Json} :
    Spells depth (list items comma) v ↔ comma = false ∧ ∃ d vs, depth = d + 1 ∧ v = array vs ∧
      List.Forall₂ (Spells d) items vs := by
  rw [Spells, strict_list_iff, value?, Option.map_eq_some_iff]
  simp only [forall₂_spells_items]
  constructor
  · rintro ⟨⟨rfl, strict⟩, ⟨vs, values, rfl⟩, deep⟩
    rw [nesting] at deep
    exact ⟨rfl, depth - 1, vs, by omega, rfl, strict, values, by omega⟩
  · rintro ⟨rfl, d, vs, rfl, rfl, strict, values, deep⟩
    exact ⟨⟨rfl, strict⟩, ⟨vs, values, rfl⟩, Nat.succ_le_succ deep⟩

/-- An object spells the names and values that its members spell, one level deeper. -/
theorem spells_table_iff {depth : Nat} {members : List (List Char × Written)} {comma : Bool} {v : Json} :
    Spells depth (table members comma) v ↔ comma = false ∧ ∃ d vs, depth = d + 1 ∧ v = object vs ∧
      List.Forall₂ (fun m v => bodyValue? m.1 = some v.1 ∧ Spells d m.2 v.2) members vs := by
  rw [Spells, strict_table_iff, value?, Option.map_eq_some_iff]
  simp only [forall₂_spells_members]
  constructor
  · rintro ⟨⟨rfl, strict⟩, ⟨vs, values, rfl⟩, deep⟩
    rw [nesting] at deep
    exact ⟨rfl, depth - 1, vs, by omega, rfl, strict, values, by omega⟩
  · rintro ⟨rfl, d, vs, rfl, rfl, strict, values, deep⟩
    exact ⟨⟨rfl, strict⟩, ⟨vs, values, rfl⟩, Nat.succ_le_succ deep⟩

/-- A reader that takes each part for any value it has takes the parts for the values beside them. -/
theorem forall₂_takes {α β : Type} {has : α → β → Prop} {read : Reader β} (part : α → List Token)
    {as : List α} {bs : List β} (h : List.Forall₂ has as bs)
    (takes : ∀ a ∈ as, ∀ b, has a b → Takes read (part a) b) :
    List.Forall₂ (fun a b => Takes read (part a) b) as bs := by
  induction h with
  | nil => exact .nil
  | cons first _ ih =>
    obtain ⟨own, others⟩ := List.forall_mem_cons.1 takes
    exact .cons (own _ first) (ih others)

theorem takes_word {t : List Char} {v : Json} (h : wordValue? t = some v) (depth : Nat) :
    Takes (Json.value depth) [.word t] v := by
  intro ts text marks spaced
  obtain ⟨rest, skip, lexeme, later⟩ := Spaced.exists_skipSpace spaced
  refine ⟨rest, ?_, later⟩
  rw [← value_skipSpace, skip]
  rcases lexeme with constant | number
  · obtain ⟨⟨_, j⟩, mem, rfl⟩ := List.mem_map.1 constant
    obtain rfl := Option.some.inj ((wordValue?_constant mem).symm.trans h)
    exact value_constant mem depth rest
  · rw [wordValue?_number number] at h
    obtain ⟨n, read, rfl⟩ := Option.map_eq_some_iff.1 h
    obtain ⟨c, cs, rfl, leads⟩ := number.leads
    have behind := number.number?_append (Spaced.stops later marks)
    rw [Token.text, List.cons_append, value_leads leads, ← List.cons_append, behind, read]
    rfl

theorem takes_quoted {body : List Char} {s : String} (h : bodyValue? body = some s) (depth : Nat) :
    Takes (Json.value depth) [.quoted body] (string s) := by
  intro ts text marks spaced
  obtain ⟨rest, skip, lexeme, later⟩ := Spaced.exists_skipSpace spaced
  refine ⟨rest, ?_, later⟩
  rw [← value_skipSpace, skip, Token.quoted_text_append, value, skipSpace_cons _ rfl]
  simp [stringFrom_body lexeme h]

theorem takes_member {read : Reader Json} {m : List Char × Written} {n : String × Json}
    (name : bodyValue? m.1 = some n.1) (h : Takes read m.2.tokens n.2) :
    Takes (member read) (memberToken m) n := by
  intro ts text marks spaced
  obtain ⟨behind, skip, lexeme, later⟩ := Spaced.exists_skipSpace spaced
  obtain ⟨front, colon, _, later⟩ := Spaced.exists_skipSpace later
  obtain ⟨rest, value, later⟩ := h _ _ marks later
  refine ⟨rest, ?_, later⟩
  rw [Token.quoted_text_append] at skip
  have named : name? text = some (n.1, front) := by
    simp [name?, skip, stringFrom_body lexeme name, colon, Token.text]
  simp [member, named, value]

/-- A strict document is read as its value, whatever is laid out behind it. -/
theorem takes (w : Written) : ∀ {v : Json} {depth : Nat}, Spells depth w v →
    Takes (Json.value depth) w.tokens v := by
  induction w using Written.induction with
  | word t => exact fun h => takes_word h.2.1 _
  | quoted body =>
    intro v depth h
    obtain ⟨s, string, rfl⟩ := Option.map_eq_some_iff.1 h.2.1
    exact takes_quoted string depth
  | list items comma ih =>
    intro v depth h ts text marks spaced
    obtain ⟨rfl, depth, vs, rfl, rfl, each⟩ := spells_list_iff.1 h
    have parts := forall₂_takes tokens each fun w hw _ spelt => ih w hw spelt
    rw [tokens, itemTokens_eq, List.cons_append, List.append_assoc] at spaced
    obtain ⟨front, skip, _, later⟩ := Spaced.exists_skipSpace spaced
    obtain ⟨rest, read, later⟩ := Takes.sequence (.inl rfl) parts
      (fun w _ => w.closesFirst_tokens) later
    refine ⟨rest, ?_, later⟩
    rw [← value_skipSpace, skip, Token.text, List.singleton_append, value, skipSpace_cons _ rfl]
    simp [read]
  | table members comma ih =>
    intro v depth h ts text marks spaced
    obtain ⟨rfl, depth, vs, rfl, rfl, each⟩ := spells_table_iff.1 h
    have parts := forall₂_takes memberToken each fun m hm _ spelt =>
      takes_member spelt.1 (ih m hm spelt.2)
    rw [tokens, memberTokens_eq, List.cons_append, List.append_assoc] at spaced
    obtain ⟨front, skip, _, later⟩ := Spaced.exists_skipSpace spaced
    obtain ⟨rest, read, later⟩ := Takes.sequence (.inr rfl) parts (fun _ _ _ => rfl) later
    refine ⟨rest, ?_, later⟩
    rw [← value_skipSpace, skip, Token.text, List.singleton_append, value, skipSpace_cons _ rfl]
    simp [read]

end Written

/-! ### What is read was written -/

section
variable {α β : Type} {read : Reader β} {part : α → List Token} {has : α → β → Prop} {close : Char}

theorem isLexeme_close (closes : close = ']' ∨ close = '}') : (Token.mark close).IsLexeme := by
  rcases closes with rfl | rfl <;> simp [Token.IsLexeme]

/-- What is read as items consists of parts with commas between them. -/
theorem exists_parts (closes : close = ']' ∨ close = '}')
    (item : ∀ {text b rest}, read text = some (b, rest) → ∃ a, has a b ∧ Fronts (part a) text rest) :
    ∀ {fuel : Nat} {text rest : List Char} {bs : List β},
      itemsUntil close read fuel text = some (bs, rest) →
      ∃ as, as ≠ [] ∧ List.Forall₂ has as bs ∧
        Fronts (separated false (as.map part) ++ [.mark close]) text rest := by
  intro fuel
  induction fuel with
  | zero =>
    intro text rest bs h
    cases h
  | succ fuel ih =>
    intro text rest bs h
    rw [itemsUntil] at h
    split at h
    · cases h
    rename_i b behind first
    obtain ⟨a, value, front⟩ := item first
    split at h
    · cases h
    rename_i c cs skip
    split at h
    · rename_i same
      obtain rfl := eq_of_beq same
      obtain ⟨rfl, rfl⟩ := Prod.mk.inj (Option.some.inj h)
      refine ⟨[a], by simp, .cons value .nil, ?_⟩
      simpa [separated] using front.trans (fronts_token (isLexeme_close closes) skip)
    · split at h
      · rename_i comma
        obtain rfl := eq_of_beq comma
        split at h
        · rename_i bs rest later
          obtain ⟨rfl, rfl⟩ := Prod.mk.inj (Option.some.inj h)
          obtain ⟨as, filled, values, others⟩ := ih later
          obtain ⟨a', as, rfl⟩ := List.exists_cons_of_ne_nil filled
          refine ⟨a :: a' :: as, by simp, .cons value values, ?_⟩
          have lexeme : (Token.mark ',').IsLexeme := by simp [Token.IsLexeme]
          simpa [separated] using front.trans ((fronts_token lexeme skip).trans others)
        · cases h
      · cases h

theorem exists_sequence (closes : close = ']' ∨ close = '}')
    (item : ∀ {text b rest}, read text = some (b, rest) → ∃ a, has a b ∧ Fronts (part a) text rest)
    {text rest : List Char} {bs : List β} (h : sequence close read text = some (bs, rest)) :
    ∃ as, List.Forall₂ has as bs ∧
      Fronts (separated false (as.map part) ++ [.mark close]) text rest := by
  rw [sequence] at h
  split at h
  · cases h
  rename_i c cs skip
  split at h
  · rename_i same
    obtain rfl := eq_of_beq same
    obtain ⟨rfl, rfl⟩ := Prod.mk.inj (Option.some.inj h)
    exact ⟨[], .nil, fronts_token (isLexeme_close closes) skip⟩
  · obtain ⟨as, _, values, front⟩ := exists_parts closes item h
    exact ⟨as, values, front⟩

end

/-- What is read as a string has that text as its value. -/
theorem exists_body {text cs rest : List Char} {s : String} (skip : skipSpace text = '"' :: cs)
    (h : stringFrom [] cs = some (s, rest)) :
    ∃ body, bodyValue? body = some s ∧ Fronts [.quoted body] text rest := by
  obtain ⟨body, isBody, rfl⟩ := exists_stringBody h
  rw [isBody.stringFrom_append] at h
  obtain ⟨p, read, same⟩ := Option.map_eq_some_iff.1 h
  obtain ⟨rfl, _⟩ := Prod.mk.inj same
  refine ⟨body, by rw [bodyValue?, read, Option.map_some], fronts_token isBody ?_⟩
  rw [skip, Token.quoted_text_append]

/-- What is read as a name is a string with a colon behind it. -/
theorem exists_name {text rest : List Char} {name : String} (h : name? text = some (name, rest)) :
    ∃ body, bodyValue? body = some name ∧ Fronts [.quoted body, .mark ':'] text rest := by
  rw [name?] at h
  split at h
  · rename_i cs skip
    split at h
    · rename_i s behind read
      split at h
      · rename_i rest colon
        obtain ⟨rfl, rfl⟩ := Prod.mk.inj (Option.some.inj h)
        obtain ⟨body, value, front⟩ := exists_body skip read
        have mark : Fronts [.mark ':'] behind rest := fronts_token (by simp [Token.IsLexeme]) colon
        exact ⟨body, value, front.trans mark⟩
      · cases h
    · cases h
  · cases h

/-- What is read as a member has that name, and its value was read. -/
theorem exists_member {read : Reader Json} {has : Written → Json → Prop}
    (item : ∀ {text v rest}, read text = some (v, rest) → ∃ w, has w v ∧ Fronts w.tokens text rest)
    {text rest : List Char} {n : String × Json} (h : member read text = some (n, rest)) :
    ∃ m : List Char × Written, (bodyValue? m.1 = some n.1 ∧ has m.2 n.2) ∧
      Fronts (Written.memberToken m) text rest := by
  rw [member] at h
  split at h
  · rename_i name behind named
    split at h
    · rename_i v rest valued
      obtain ⟨rfl, rfl⟩ := Prod.mk.inj (Option.some.inj h)
      obtain ⟨w, spelt, behindName⟩ := item valued
      obtain ⟨body, value, front⟩ := exists_name named
      exact ⟨(body, w), ⟨value, spelt⟩, front.trans behindName⟩
    · cases h
  · cases h

theorem exists_constant {word : String} {j v : Json} {text cs rest : List Char}
    (constant : (word.toList, j) ∈ constants) (skip : skipSpace text = cs)
    (h : keyword? word j cs = some (v, rest)) (depth : Nat) :
    ∃ w, Written.Spells depth w v ∧ Fronts w.tokens text rest := by
  rw [keyword?] at h
  split at h
  · rename_i starts
    obtain ⟨rfl, rfl⟩ := Prod.mk.inj (Option.some.inj h)
    have leaf : nesting j = 0 := by
      have each : ∀ p ∈ constants, nesting p.2 = 0 := by simp [constants, nesting]
      exact each _ constant
    refine ⟨.word word.toList, ⟨rfl, wordValue?_constant constant, by omega⟩,
      fronts_token (.inl (List.mem_map_of_mem constant)) ?_⟩
    rw [skip, Token.text, ← String.length_toList]
    exact (List.prefix_iff_eq_append.1 (List.isPrefixOf_iff_prefix.1 starts)).symm
  · cases h

/-- What is read as a value is a strict document with that value. -/
theorem exists_written (depth : Nat) : ∀ {text rest : List Char} {v : Json},
    value depth text = some (v, rest) → ∃ w, Written.Spells depth w v ∧ Fronts w.tokens text rest := by
  induction depth using Nat.strongRecOn with
  | ind depth ih =>
    intro text rest v h
    rw [value.eq_def] at h
    split at h
    · cases h
    · rename_i cs skip
      obtain ⟨⟨s, behind⟩, read, same⟩ := Option.map_eq_some_iff.1 h
      obtain ⟨rfl, rfl⟩ := Prod.mk.inj same
      obtain ⟨body, value, front⟩ := exists_body skip read
      exact ⟨.quoted body, ⟨rfl, by rw [Written.value?, value, Option.map_some], Nat.zero_le _⟩, front⟩
    · rename_i cs skip
      cases depth with
      | zero => cases h
      | succ depth =>
        obtain ⟨⟨vs, behind⟩, read, same⟩ := Option.map_eq_some_iff.1 h
        obtain ⟨rfl, rfl⟩ := Prod.mk.inj same
        obtain ⟨ws, values, front⟩ := exists_sequence (.inl rfl) (ih depth (Nat.lt_succ_self depth)) read
        refine ⟨.list ws false, Written.spells_list_iff.2 ⟨rfl, depth, vs, rfl, rfl, values⟩, ?_⟩
        have opens : Fronts [.mark '['] text cs := fronts_token (by simp [Token.IsLexeme]) skip
        rw [Written.tokens, Written.itemTokens_eq]
        exact opens.trans front
    · rename_i cs skip
      cases depth with
      | zero => cases h
      | succ depth =>
        obtain ⟨⟨vs, behind⟩, read, same⟩ := Option.map_eq_some_iff.1 h
        obtain ⟨rfl, rfl⟩ := Prod.mk.inj same
        obtain ⟨ms, values, front⟩ := exists_sequence (.inr rfl)
          (exists_member (ih depth (Nat.lt_succ_self depth))) read
        refine ⟨.table ms false, Written.spells_table_iff.2 ⟨rfl, depth, vs, rfl, rfl, values⟩, ?_⟩
        have opens : Fronts [.mark '\x7b'] text cs := fronts_token (by simp [Token.IsLexeme]) skip
        rw [Written.tokens, Written.memberTokens_eq]
        exact opens.trans front
    · rename_i skip
      exact exists_constant (by simp [constants]) skip h depth
    · rename_i skip
      exact exists_constant (by simp [constants]) skip h depth
    · rename_i skip
      exact exists_constant (by simp [constants]) skip h depth
    · obtain ⟨⟨n, behind⟩, read, same⟩ := Option.map_eq_some_iff.1 h
      obtain ⟨rfl, rfl⟩ := Prod.mk.inj same
      obtain ⟨t, isNumber, skip, alone⟩ := isNumberText_of_number? read
      refine ⟨.word t, ⟨rfl, ?_, Nat.zero_le _⟩, fronts_token (.inr isNumber) skip⟩
      rw [Written.value?, wordValue?_number isNumber, alone, Option.map_some]

/-! ### Whole texts -/

/-- The strict reader reads the strict texts that are not nested too deep, as their values. -/
theorem readRaw?_eq_some_iff {text : List Char} {v : Json} :
    readRaw? text = some v ↔ StrictText v text ∧ nesting v ≤ maxDepth := by
  constructor
  · intro h
    rw [readRaw?] at h
    split at h
    · rename_i j rest read
      split at h
      · rename_i nothing
        obtain rfl := Option.some.inj h
        obtain ⟨w, ⟨strict, value, deep⟩, front⟩ := exists_written maxDepth read
        have atEnd : Spaced [] rest := .done (List.dropWhile_eq_nil_iff.1 (List.isEmpty_iff.1 nothing))
        have spaced := front [] atEnd
        rw [List.append_nil] at spaced
        exact ⟨⟨w, strict, value, spaced⟩, deep⟩
      · cases h
    · cases h
  · rintro ⟨⟨w, strict, value, spaced⟩, deep⟩
    rw [← List.append_nil w.tokens] at spaced
    obtain ⟨rest, read, left⟩ := w.takes ⟨strict, value, deep⟩ _ _ markFirst_nil spaced
    rw [readRaw?, read]
    simp [Spaced.skipSpace_eq_nil left]

/-- Neither scanner changes a text that the strict reader reads. -/
theorem strictText_eq_of_readRaw? {text : List Char} {v : Json} (h : readRaw? text = some v) :
    strictText text = text := by
  obtain ⟨⟨w, strict, _, spaced⟩, _⟩ := readRaw?_eq_some_iff.1 h
  obtain ⟨comments, commas⟩ := IsStrictText.stripped ⟨w, strict, spaced⟩
  rw [strictText, comments, commas]

/-- The relaxed reader goes further than the strict one and never disagrees with it. -/
theorem readRelaxed?_eq_of_read? {text : String} {v : Json} (h : read? text = some v) :
    readRelaxed? text = some v := by
  obtain ⟨raw, read, rfl⟩ := Option.map_eq_some_iff.1 h
  rw [readRelaxed?, strictText_eq_of_readRaw? read, read, Option.map_some]

/-- Removing comments and trailing commas keeps the document: whatever white space and comments stand
between the tokens of a relaxed text, what is left of it is a strict text for the same value, and the
strict reader reads that value unless it is nested too deep. Neither scanner changes a strict text. -/
theorem document_preserved :
    (∀ v text, RelaxedText v text → StrictText v (strictText text) ∧
      (nesting v ≤ maxDepth → readRaw? (strictText text) = some v)) ∧
    ∀ text, IsStrictText text → stripComments .code text = text ∧ stripCommas false text = text := by
  refine ⟨fun v text written => ?_, fun _ => IsStrictText.stripped⟩
  have strict := written.strictText
  exact ⟨strict, fun deep => readRaw?_eq_some_iff.2 ⟨strict, deep⟩⟩

/-- A text with a quote in a comment, a string that looks like comments and a trailing comma, and a
trailing comma that a comment parts from its bracket. -/
def commented : List Char := "/* \" */[\"//,]\\\"/*\" ,// ]\"\n] // end".toList

theorem relaxedText_commented : RelaxedText (array [string "//,]\"/*"]) commented := by
  have body : (Token.quoted ['/', '/', ',', ']', '\\', '"', '/', '*']).IsLexeme := by
    refine .plain ?_ ?_ ?_ (.plain ?_ ?_ ?_ (.plain ?_ ?_ ?_ (.plain ?_ ?_ ?_
      (.escape ?_ (.plain ?_ ?_ ?_ (.plain ?_ ?_ ?_ .nil))))))
    all_goals decide
  have front : IsGap ['/', '*', ' ', '"', ' ', '*', '/'] :=
    .block (show ¬['*', '/'] <:+: [' ', '"', ' '] by decide) .nil
  have space : IsGap [' '] := .space rfl .nil
  have parted : IsGap ['/', '/', ' ', ']', '"', '\n'] :=
    .line (show '\n' ∉ [' ', ']', '"'] by decide) .nil
  have last : IsLastGap [' ', '/', '/', ' ', 'e', 'n', 'd'] :=
    .inr ⟨[' '], [' ', 'e', 'n', 'd'], space, by decide, rfl⟩
  have mark : ∀ c ∈ ['[', ',', ']'], (Token.mark c).IsLexeme := by simp [Token.IsLexeme]
  have laidOut := LaidOut.token front (mark '[' (by simp)) (.token .nil body
    (.token space (mark ',' (by simp)) (.token parted (mark ']' (by simp)) (.done last))))
  have text : commented = ['/', '*', ' ', '"', ' ', '*', '/'] ++ (['['] ++ ([] ++
      ((Token.quoted ['/', '/', ',', ']', '\\', '"', '/', '*']).text ++ ([' '] ++ ([','] ++
        (['/', '/', ' ', ']', '"', '\n'] ++ ([']'] ++ [' ', '/', '/', ' ', 'e', 'n', 'd']))))))) := by
    decide
  refine ⟨.list [.quoted ['/', '/', ',', ']', '\\', '"', '/', '*']] true, rfl, ?_⟩
  rw [text]
  exact laidOut

theorem document_preserved_commented :
    RelaxedText (array [string "//,]\"/*"]) commented ∧
      strictText commented = "[\"//,]\\\"/*\" \n] ".toList ∧
      readRaw? (strictText commented) = some (array [string "//,]\"/*"]) ∧
      IsStrictText (strictText commented) ∧
      stripComments .code (strictText commented) = strictText commented := by
  obtain ⟨⟨w, strict, _, spaced⟩, read⟩ := document_preserved.1 _ _ relaxedText_commented
  have isText : IsStrictText (strictText commented) := ⟨w, strict, spaced⟩
  exact ⟨relaxedText_commented, by decide, read (by decide), isText,
    (document_preserved.2 _ isText).1⟩

end SourceAtlas.Json
