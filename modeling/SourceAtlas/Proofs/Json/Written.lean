import SourceAtlas.Proofs.Json.Stripped
/-!
Documents as they are written. A written document keeps the texts of its words and strings and says
whether a comma follows the last element of an array or object; its tokens and its value are functions
of it, so that a rendering of a value is a layout of the tokens of some written document with that
value. A strict text has white space between the tokens and no comma behind a last element.
-/

namespace SourceAtlas.Json

/-- A document as it is written. -/
inductive Written where
  /-- A constant or a number. -/
  | word (text : List Char)
  /-- A string, by what stands between its quotes. -/
  | quoted (body : List Char)
  /-- An array. -/
  | list (items : List Written) (comma : Bool)
  /-- An object, its names by what stands between their quotes. -/
  | table (members : List (List Char × Written)) (comma : Bool)

/-- The parts with commas between them, and perhaps one behind the last. -/
def separated (comma : Bool) : List (List Token) → List Token
  | [] => []
  | [part] => part ++ if comma then [.mark ','] else []
  | part :: next :: parts => part ++ .mark ',' :: separated comma (next :: parts)

/-- The value of a word. -/
def wordValue? (t : List Char) : Option Json :=
  (constants.lookup t).or ((number? t).map fun n => number n.1)

/-- The text that a string stands for. -/
def bodyValue? (body : List Char) : Option String := (stringFrom [] (body ++ ['"'])).map Prod.fst

namespace Written

mutual

/-- The tokens of a document. -/
def tokens : Written → List Token
  | word t => [.word t]
  | quoted body => [.quoted body]
  | list items comma => .mark '[' :: (separated comma (itemTokens items) ++ [.mark ']'])
  | table members comma => .mark '\x7b' :: (separated comma (memberTokens members) ++ [.mark '\x7d'])

/-- The tokens of each item. -/
def itemTokens : List Written → List (List Token)
  | [] => []
  | w :: rest => tokens w :: itemTokens rest

/-- The tokens of each member. -/
def memberTokens : List (List Char × Written) → List (List Token)
  | [] => []
  | (name, w) :: rest => (.quoted name :: .mark ':' :: tokens w) :: memberTokens rest

end

mutual

/-- The document without its trailing commas. -/
def strict : Written → Written
  | list items _ => list (strictItems items) false
  | table members _ => table (strictMembers members) false
  | other => other

/-- Each item without its trailing commas. -/
def strictItems : List Written → List Written
  | [] => []
  | w :: rest => strict w :: strictItems rest

/-- Each member without its trailing commas. -/
def strictMembers : List (List Char × Written) → List (List Char × Written)
  | [] => []
  | (name, w) :: rest => (name, strict w) :: strictMembers rest

end

mutual

/-- The value of a document, if its numbers and strings have values. -/
def value? : Written → Option Json
  | word t => wordValue? t
  | quoted body => (bodyValue? body).map string
  | list items _ => (itemValues? items).map array
  | table members _ => (memberValues? members).map object

/-- The values of the items. -/
def itemValues? : List Written → Option (List Json)
  | [] => some []
  | w :: rest => (value? w).bind fun j => (itemValues? rest).map (j :: ·)

/-- The names and values of the members. -/
def memberValues? : List (List Char × Written) → Option (List (String × Json))
  | [] => some []
  | (name, w) :: rest =>
    (bodyValue? name).bind fun n => (value? w).bind fun j => (memberValues? rest).map ((n, j) :: ·)

end

/-- The tokens of one member. -/
def memberToken (m : List Char × Written) : List Token := .quoted m.1 :: .mark ':' :: m.2.tokens

theorem itemTokens_eq : ∀ items : List Written, itemTokens items = items.map tokens
  | [] => rfl
  | w :: rest => by rw [itemTokens, itemTokens_eq rest]; rfl

theorem memberTokens_eq : ∀ members : List (List Char × Written),
    memberTokens members = members.map memberToken
  | [] => rfl
  | (name, w) :: rest => by rw [memberTokens, memberTokens_eq rest]; rfl

theorem strictItems_eq : ∀ items : List Written, strictItems items = items.map strict
  | [] => rfl
  | w :: rest => by rw [strictItems, strictItems_eq rest]; rfl

theorem strictMembers_eq : ∀ members : List (List Char × Written),
    strictMembers members = members.map fun m => (m.1, m.2.strict)
  | [] => rfl
  | (name, w) :: rest => by rw [strictMembers, strictMembers_eq rest]; rfl

/-- What holds of words and strings, and of arrays and objects whenever it holds of their parts, holds
of every document. -/
@[elab_as_elim]
theorem induction {P : Written → Prop} (word : ∀ t, P (word t)) (quoted : ∀ body, P (quoted body))
    (list : ∀ items comma, (∀ w ∈ items, P w) → P (list items comma))
    (table : ∀ members comma, (∀ m ∈ members, P m.2) → P (table members comma)) (w : Written) : P w :=
  @Written.rec P (fun items => ∀ w ∈ items, P w) (fun members => ∀ m ∈ members, P m.2)
    (fun m => P m.2) word quoted list table
    (fun _ h => by cases h)
    (fun _ _ first later _ h => by
      rcases List.mem_cons.1 h with rfl | h
      · exact first
      · exact later _ h)
    (fun _ h => by cases h)
    (fun _ _ first later _ h => by
      rcases List.mem_cons.1 h with rfl | h
      · exact first
      · exact later _ h)
    (fun _ _ h => h) w

/-! ### Without trailing commas -/

theorem strict_strict (w : Written) : w.strict.strict = w.strict := by
  induction w using Written.induction with
  | word t => rfl
  | quoted body => rfl
  | list items comma ih =>
    simp only [strict, strictItems_eq, List.map_map]
    exact congrArg (Written.list · false) (List.map_congr_left ih)
  | table members comma ih =>
    simp only [strict, strictMembers_eq, List.map_map]
    refine congrArg (Written.table · false) (List.map_congr_left fun m mem => ?_)
    exact congrArg (Prod.mk m.1) (ih m mem)

theorem itemValues?_congr : ∀ items : List Written, (∀ w ∈ items, w.strict.value? = w.value?) →
    itemValues? (items.map strict) = itemValues? items
  | [], _ => rfl
  | w :: rest, h => by
    obtain ⟨first, later⟩ := List.forall_mem_cons.1 h
    rw [List.map_cons, itemValues?, itemValues?, first, itemValues?_congr rest later]

theorem memberValues?_congr : ∀ members : List (List Char × Written),
    (∀ m ∈ members, m.2.strict.value? = m.2.value?) →
    memberValues? (members.map fun m => (m.1, m.2.strict)) = memberValues? members
  | [], _ => rfl
  | m :: rest, h => by
    obtain ⟨first, later⟩ := List.forall_mem_cons.1 h
    rw [List.map_cons, memberValues?, memberValues?, first, memberValues?_congr rest later]

/-- A trailing comma does not count for the value. -/
theorem value?_strict (w : Written) : w.strict.value? = w.value? := by
  induction w using Written.induction with
  | word t => rfl
  | quoted body => rfl
  | list items comma ih =>
    rw [strict, value?, value?, strictItems_eq, itemValues?_congr items ih]
  | table members comma ih =>
    rw [strict, value?, value?, strictMembers_eq, memberValues?_congr members ih]

/-- The tokens begin with one that closes nothing. -/
theorem closesFirst_tokens (w : Written) (rest : List Token) :
    closesFirst (w.tokens ++ rest) = false := by
  cases w <;> rfl

end Written

section
variable {α : Type}

theorem closesFirst_separated (part : α → List Token) (comma : Bool) {a : α} (as : List α)
    (opens : ∀ rest, closesFirst (part a ++ rest) = false) (rest : List Token) :
    closesFirst (separated comma ((a :: as).map part) ++ rest) = false := by
  cases as with
  | nil => simpa [separated] using opens _
  | cons b as => simpa [separated] using opens _

/-- Of the commas between parts and behind the last one, only that one is dropped. -/
theorem dropTrailing_separated (part part' : α → List Token) {close : Token}
    (closes : close.closes) (comma : Bool) (rest : List Token) : ∀ as : List α,
    (∀ a ∈ as, ∀ rest, closesFirst (part a ++ rest) = false) →
    (∀ a ∈ as, ∀ rest, dropTrailing (part a ++ rest) = part' a ++ dropTrailing rest) →
    dropTrailing (separated comma (as.map part) ++ close :: rest) =
      separated false (as.map part') ++ close :: dropTrailing rest
  | [], _, _ => by
    have other : close ≠ .mark ',' := by
      rintro rfl
      cases closes
    simp [separated, dropTrailing, other]
  | [a], _, drops => by
    have other : close ≠ .mark ',' := by
      rintro rfl
      cases closes
    have last := drops a List.mem_cons_self
    cases comma <;> simp [separated, last, dropTrailing, other, closesFirst, closes]
  | a :: b :: as, opens, drops => by
    have later := dropTrailing_separated part part' closes comma rest (b :: as)
      (fun x hx => opens x (List.mem_cons_of_mem _ hx)) fun x hx => drops x (List.mem_cons_of_mem _ hx)
    have first := drops a List.mem_cons_self
    have next := closesFirst_separated part comma as
      (opens b (List.mem_cons_of_mem _ List.mem_cons_self)) (close :: rest)
    simp only [List.map_cons] at later next
    simp only [List.map_cons, separated, List.append_assoc, List.cons_append]
    rw [first, dropTrailing, if_neg (by simp [next]), later]

end

/-- Dropping the trailing commas from the tokens leaves those of the strict document. -/
theorem Written.dropTrailing_tokens (w : Written) : ∀ rest : List Token,
    dropTrailing (w.tokens ++ rest) = w.strict.tokens ++ dropTrailing rest := by
  induction w using Written.induction with
  | word t => exact fun _ => rfl
  | quoted body => exact fun _ => rfl
  | list items comma ih =>
    intro rest
    have drops := dropTrailing_separated tokens (fun w => w.strict.tokens)
      (show (Token.mark ']').closes from rfl) comma rest items (fun w _ => w.closesFirst_tokens) ih
    simp only [tokens, strict, itemTokens_eq, strictItems_eq, List.cons_append, List.append_assoc,
      List.nil_append, List.map_map]
    rw [dropTrailing, if_neg (by simp), drops]
    rfl
  | table members comma ih =>
    intro rest
    have drops := dropTrailing_separated memberToken (fun m => memberToken (m.1, m.2.strict))
      (show (Token.mark '\x7d').closes from rfl) comma rest members
      (fun _ _ _ => rfl) fun m mem rest => by
        simp only [memberToken, List.cons_append]
        rw [dropTrailing, if_neg (by simp), dropTrailing, if_neg (by simp), ih m mem]
    simp only [tokens, strict, memberTokens_eq, strictMembers_eq, List.cons_append, List.append_assoc,
      List.nil_append, List.map_map]
    rw [dropTrailing, if_neg (by simp), drops]
    rfl

/-! ### Texts of values -/

/-- The text is strict JSON: the tokens of a document without trailing commas, with white space
between them. -/
def IsStrictText (text : List Char) : Prop :=
  ∃ w : Written, w.strict = w ∧ Spaced w.tokens text

/-- The text is strict JSON for a value. -/
def StrictText (v : Json) (text : List Char) : Prop :=
  ∃ w : Written, w.strict = w ∧ w.value? = some v ∧ Spaced w.tokens text

/-- The text is a rendering of a value with comments between its tokens and with trailing commas. -/
def RelaxedText (v : Json) (text : List Char) : Prop :=
  ∃ w : Written, w.value? = some v ∧ LaidOut IsGap IsLastGap w.tokens text

/-- Comments and trailing commas are removed, and the value stays. -/
theorem RelaxedText.strictText {v : Json} {text : List Char} (h : RelaxedText v text) :
    StrictText v (strictText text) := by
  obtain ⟨w, value, laidOut⟩ := h
  have stripped := Spaced.stripCommas laidOut.stripComments
  have same := w.dropTrailing_tokens []
  rw [List.append_nil, dropTrailing, List.append_nil] at same
  rw [same] at stripped
  exact ⟨w.strict, w.strict_strict, w.value?_strict.trans value, stripped⟩

/-- Neither scanner changes a strict text. -/
theorem IsStrictText.stripped {text : List Char} (h : IsStrictText text) :
    stripComments .code text = text ∧ stripCommas false text = text := by
  obtain ⟨w, strict, spaced⟩ := h
  have same := w.dropTrailing_tokens []
  rw [List.append_nil, dropTrailing, List.append_nil, strict] at same
  exact ⟨Spaced.stripComments_eq spaced, Spaced.stripCommas_eq spaced same⟩

end SourceAtlas.Json
