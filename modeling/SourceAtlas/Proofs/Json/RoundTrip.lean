import Mathlib.Data.Option.Basic
import SourceAtlas.Json.Printer
import SourceAtlas.Json.Reader
import SourceAtlas.Text.Basic
/-!
Reading undoes writing. A document is *plain* when its numbers are integers of 64 bits and no object
names a member twice; every plain document that is not nested too deep is read back from its compact
text, and a record that is written as an object is read back as a record. The induction is over the
document, with the characters behind it left open: what follows a value must end it.
-/

namespace SourceAtlas.Json

/-! ### Documents by induction -/

/-- What holds of the leaves, and of arrays and objects whenever it holds of their parts, holds of
every document. -/
@[elab_as_elim]
theorem induction {P : Json → Prop} (null : P null) (bool : ∀ b, P (bool b))
    (number : ∀ n, P (number n)) (string : ∀ s, P (string s))
    (array : ∀ items, (∀ j ∈ items, P j) → P (array items))
    (object : ∀ members, (∀ m ∈ members, P m.2) → P (object members)) (j : Json) : P j :=
  @Json.rec P (fun items => ∀ j ∈ items, P j) (fun members => ∀ m ∈ members, P m.2)
    (fun m => P m.2) null bool number string array object
    (fun _ h => by cases h)
    (fun _ _ first later _ h => by
      rcases List.mem_cons.1 h with rfl | h
      · exact first
      · exact later _ h)
    (fun _ h => by cases h)
    (fun _ _ first later _ h => by
      rcases List.mem_cons.1 h with rfl | h
      · exact first
      · exact later _ h)
    (fun _ _ h => h) j

mutual

/-- How deep arrays and objects stand in one another. -/
def nesting : Json → Nat
  | array items => nestingItems items + 1
  | object members => nestingMembers members + 1
  | _ => 0

/-- The deepest nesting of an item. -/
def nestingItems : List Json → Nat
  | [] => 0
  | j :: rest => max (nesting j) (nestingItems rest)

/-- The deepest nesting of a member. -/
def nestingMembers : List (String × Json) → Nat
  | [] => 0
  | (_, j) :: rest => max (nesting j) (nestingMembers rest)

end

mutual

/-- All numbers are integers of 64 bits, signed or not, and no object names a member twice. -/
def isPlain : Json → Bool
  | number (.int i) => isSigned64 i || isUnsigned64 i
  | number (.real _) => false
  | array items => plainItems items
  | object members => decide (members.map (·.1)).Nodup && plainMembers members
  | _ => true

/-- Every item is plain. -/
def plainItems : List Json → Bool
  | [] => true
  | j :: rest => isPlain j && plainItems rest

/-- Every member is plain. -/
def plainMembers : List (String × Json) → Bool
  | [] => true
  | (_, j) :: rest => isPlain j && plainMembers rest

end

theorem nesting_le_items {j : Json} : ∀ {items : List Json}, j ∈ items →
    nesting j ≤ nestingItems items
  | i :: rest, h => by
    rw [nestingItems]
    rcases List.mem_cons.1 h with rfl | h
    · exact Nat.le_max_left ..
    · exact Nat.le_trans (nesting_le_items h) (Nat.le_max_right ..)

theorem nesting_le_members {m : String × Json} : ∀ {members : List (String × Json)},
    m ∈ members → nesting m.2 ≤ nestingMembers members
  | (_, _) :: rest, h => by
    rw [nestingMembers]
    rcases List.mem_cons.1 h with rfl | h
    · exact Nat.le_max_left ..
    · exact Nat.le_trans (nesting_le_members h) (Nat.le_max_right ..)

theorem plainItems_iff : ∀ items : List Json, plainItems items ↔ ∀ j ∈ items, isPlain j
  | [] => by simp [plainItems]
  | j :: rest => by simp [plainItems, plainItems_iff rest]

theorem plainMembers_iff : ∀ members : List (String × Json),
    plainMembers members ↔ ∀ m ∈ members, isPlain m.2
  | [] => by simp [plainMembers]
  | (_, j) :: rest => by simp [plainMembers, plainMembers_iff rest]

/-! ### Strings -/

theorem hexDigit?_hexDigit : ∀ n < 16, hexDigit? (hexDigit n) = some n := by decide

/-- The written form of a character is read as that character. -/
theorem stringFrom_escape (c : Char) (read rest : List Char) :
    stringFrom read (escape c ++ rest) = stringFrom (c :: read) rest := by
  by_cases special : c ∈ ['"', '\\', '\x08', '\x0c', '\n', '\r', '\t']
  · simp only [List.mem_cons, List.not_mem_nil, or_false] at special
    rcases special with rfl | rfl | rfl | rfl | rfl | rfl | rfl <;>
      simp [escape, stringFrom, escaped?]
  · simp only [List.mem_cons, List.not_mem_nil, or_false, not_or] at special
    obtain ⟨h₁, h₂, h₃, h₄, h₅, h₆, h₇⟩ := special
    by_cases control : c.toNat < 0x20
    · -- two digits are enough for a control character, which is never half of a pair
      have high := hexDigit?_hexDigit (c.toNat / 16) (by omega)
      have low := hexDigit?_hexDigit (c.toNat % 16) (by omega)
      have whole : c.toNat / 16 * 16 + c.toNat % 16 = c.toNat := by omega
      have same : Char.ofNat c.toNat = c := Char.ofNat_toNat c
      have single : isSurrogate c.toNat = false := by simp [isSurrogate]; omega
      simp [escape, h₁, h₂, h₃, h₄, h₅, h₆, h₇, control, stringFrom, hex4?, high, low, whole,
        single, same, show hexDigit? '0' = some 0 from rfl]
    · simp [escape, h₁, h₂, h₃, h₄, h₅, h₆, h₇, control, stringFrom]

/-- What can stand behind the backslash of an escape. -/
def escapeMarks : List Char :=
  ['"', '\\', 'b', 'f', 'n', 'r', 't', 'u', '0', '1', '2', '3', '4', '5', '6', '7', '8', '9', 'a', 'c',
    'd', 'e']

theorem hexDigit_mem_escapeMarks : ∀ n < 16, hexDigit n ∈ escapeMarks := by decide

/-- A character is written as itself, or as a backslash and some marks. -/
theorem escape_cases (c : Char) : escape c = [c] ∧ c ≠ '"' ∧ 0x20 ≤ c.toNat ∨
    ∃ marks, escape c = '\\' :: marks ∧ ∀ d ∈ marks, d ∈ escapeMarks := by
  by_cases special : c ∈ ['"', '\\', '\x08', '\x0c', '\n', '\r', '\t']
  · refine .inr ?_
    simp only [List.mem_cons, List.not_mem_nil, or_false] at special
    rcases special with rfl | rfl | rfl | rfl | rfl | rfl | rfl <;>
      exact ⟨_, rfl, by simp [escapeMarks]⟩
  · simp only [List.mem_cons, List.not_mem_nil, or_false, not_or] at special
    obtain ⟨h₁, h₂, h₃, h₄, h₅, h₆, h₇⟩ := special
    by_cases control : c.toNat < 0x20
    · have high := hexDigit_mem_escapeMarks (c.toNat / 16) (by omega)
      have low := hexDigit_mem_escapeMarks (c.toNat % 16) (by omega)
      have fixed : 'u' ∈ escapeMarks ∧ '0' ∈ escapeMarks := by decide
      refine .inr ⟨['u', '0', '0', hexDigit (c.toNat / 16), hexDigit (c.toNat % 16)], ?_, ?_⟩
      · simp [escape, h₁, h₂, h₃, h₄, h₅, h₆, h₇, control]
      · simp [fixed, high, low]
    · refine .inl ⟨?_, h₁, by omega⟩
      simp [escape, h₁, h₂, h₃, h₄, h₅, h₆, h₇, control]

/-- A written string is read back, behind its opening quote. -/
theorem stringFrom_escaped (s read rest : List Char) :
    stringFrom read (s.flatMap escape ++ '"' :: rest) = some (.ofList (read.reverse ++ s), rest) := by
  induction s generalizing read with
  | nil => simp [stringFrom]
  | cons c cs ih =>
    rw [List.flatMap_cons, List.append_assoc, stringFrom_escape, ih]
    simp

theorem stringFrom_quoted (s : String) (rest : List Char) :
    stringFrom [] (s.toList.flatMap escape ++ '"' :: rest) = some (s, rest) := by
  simp [stringFrom_escaped]

/-! ### Numbers -/

/-- What may follow a value: nothing, or a character that cannot belong to it. -/
def Ends (rest : List Char) : Prop := ∀ c cs, rest = c :: cs → c = ',' ∨ c = ']' ∨ c = '}'

theorem ends_nil : Ends [] := by
  intro c cs h
  cases h

theorem ends_cons {c : Char} {cs : List Char} (h : c = ',' ∨ c = ']' ∨ c = '}') : Ends (c :: cs) := by
  rintro d ds ⟨rfl, rfl⟩
  exact h

theorem Ends.takeWhile_digits {rest : List Char} (h : Ends rest) :
    rest.takeWhile Char.isDigit = [] := by
  cases rest with
  | nil => rfl
  | cons c cs => rcases h c cs rfl with rfl | rfl | rfl <;> rfl

theorem Ends.fraction? {rest : List Char} (h : Ends rest) :
    Json.fraction? rest = some (none, rest) := by
  cases rest with
  | nil => rfl
  | cons c cs => rcases h c cs rfl with rfl | rfl | rfl <;> rfl

theorem Ends.exponent? {rest : List Char} (h : Ends rest) :
    Json.exponent? rest = some (none, rest) := by
  cases rest with
  | nil => rfl
  | cons c cs => rcases h c cs rfl with rfl | rfl | rfl <;> rfl

theorem isDigit_of_mem_toDigits {n : Nat} {c : Char} (h : c ∈ Nat.toDigits 10 n) : c.isDigit :=
  Nat.isDigit_of_mem_toDigits (by decide) (by decide) h

/-- A digit run in front of an end is taken whole. -/
theorem takeWhile_toDigits (n : Nat) {rest : List Char} (h : Ends rest) :
    (Nat.toDigits 10 n ++ rest).takeWhile Char.isDigit = Nat.toDigits 10 n := by
  rw [List.takeWhile_append_of_pos fun c hc => isDigit_of_mem_toDigits hc, h.takeWhile_digits,
    List.append_nil]

theorem dropWhile_toDigits (n : Nat) {rest : List Char} (h : Ends rest) :
    (Nat.toDigits 10 n ++ rest).dropWhile Char.isDigit = rest := by
  have whole := List.takeWhile_append_dropWhile (p := Char.isDigit) (l := Nat.toDigits 10 n ++ rest)
  rw [takeWhile_toDigits n h] at whole
  exact List.append_cancel_left whole

/-- A written number has no leading zero. -/
theorem head?_toDigits (n : Nat) (h : (Nat.toDigits 10 n).head? = some '0') : n = 0 := by
  induction n using Nat.strongRecOn with
  | ind n ih =>
    rw [Nat.toDigits_eq_if (by decide)] at h
    split at h
    · rename_i small
      have each : ∀ d < 10, [Nat.digitChar d].head? = some '0' → d = 0 := by decide
      exact each n small h
    · rename_i large
      rw [List.head?_append, Option.or_of_isSome (by simp [Nat.toDigits_ne_nil])] at h
      have := ih (n / 10) (by omega) h
      omega

theorem wholeDigits?_toDigits (n : Nat) {rest : List Char} (h : Ends rest) :
    wholeDigits? (Nat.toDigits 10 n ++ rest) = some (Nat.toDigits 10 n, rest) := by
  rw [wholeDigits?, takeWhile_toDigits n h, dropWhile_toDigits n h]
  split
  · rename_i none
    exact absurd none Nat.toDigits_ne_nil
  · rename_i d ds zero
    have n_eq : n = 0 := head?_toDigits n (by rw [zero]; rfl)
    rw [n_eq, Nat.toDigits_zero] at zero
    cases zero
  · rfl

theorem le_ofDigitChars (ds : List Char) (n : Nat) : n ≤ Nat.ofDigitChars 10 ds n := by
  rw [Nat.ofDigitChars_eq_ofDigitChars_zero]
  calc n = 1 * n := (Nat.one_mul n).symm
    _ ≤ 10 ^ ds.length * n := Nat.mul_le_mul_right n (Nat.pow_pos (by decide))
    _ ≤ _ := Nat.le_add_right ..

/-- Digits whose value fits 64 bits are all read. -/
theorem fitting_eq (ds : List Char) (n : Nat) (h : Nat.ofDigitChars 10 ds n < unsignedLimit) :
    fitting n ds = (Nat.ofDigitChars 10 ds n, []) := by
  induction ds generalizing n with
  | nil => rfl
  | cons d ds ih =>
    have cons : Nat.ofDigitChars 10 (d :: ds) n = Nat.ofDigitChars 10 ds (n * 10 + (d.toNat - 48)) := by
      rw [Nat.ofDigitChars_cons, Nat.mul_comm 10 n]
      rfl
    rw [cons] at h ⊢
    -- further digits only make the number larger, so no step on the way leaves the range
    have longer : n * 10 + (d.toNat - 48) < unsignedLimit :=
      Nat.lt_of_le_of_lt (le_ofDigitChars ds _) h
    rw [fitting, if_pos longer, ih _ h]

theorem fitting_toDigits {n : Nat} (h : n < unsignedLimit) :
    fitting 0 (Nat.toDigits 10 n) = (n, []) := by
  rw [fitting_eq _ _ (by rwa [Nat.ofDigitChars_ten_toDigits]), Nat.ofDigitChars_ten_toDigits]

/-- An integer is written as its digits, behind its sign if it is negative. -/
theorem numberText_int (i : Int) :
    numberText (.int i) = (if i < 0 then ['-'] else []) ++ Nat.toDigits 10 i.natAbs := by
  rw [numberText, Int.toString_eq_repr, Int.repr_eq_if]
  by_cases negative : i < 0
  · rw [if_neg (by omega), if_pos negative, String.toList_append, Nat.toList_repr,
      show (-i).toNat = i.natAbs by omega]
    rfl
  · rw [if_pos (by omega), if_neg negative, Nat.toList_repr, show i.toNat = i.natAbs by omega]
    rfl

/-- Digits in front of an end make an integer, of the sign that stands before them. -/
theorem number?_eq (negative : Bool) {ds rest : List Char} {n : Nat} (digit : ∀ d ∈ ds, d.isDigit)
    (whole : wholeDigits? (ds ++ rest) = some (ds, rest)) (fits : fitting 0 ds = (n, []))
    (h : Ends rest) : number? ((if negative then ['-'] else []) ++ (ds ++ rest)) =
      (integer? negative n).map (·, rest) := by
  cases negative with
  | true =>
    unfold number?
    simp [whole, h.fraction?, h.exponent?, fits, Option.map_eq_bind]
  | false =>
    -- a digit stands first, so no sign is read
    have unsigned : ∀ cs, ds ++ rest ≠ '-' :: cs := by
      intro cs same
      cases ds with
      | nil => simp [wholeDigits?, h.takeWhile_digits] at whole
      | cons d ds =>
        obtain ⟨rfl, -⟩ := List.cons.inj same
        exact absurd (digit '-' List.mem_cons_self) (by decide)
    unfold number?
    simp [whole, h.fraction?, h.exponent?, fits, Option.map_eq_bind]

theorem integer?_natAbs {i : Int} (range : isSigned64 i ∨ isUnsigned64 i) :
    integer? (decide (i < 0)) i.natAbs = some (.int i) := by
  rw [isSigned64_iff, isUnsigned64_iff] at range
  by_cases negative : i < 0
  · have small : i.natAbs ≤ signedLimit := by
      rw [signedLimit]
      omega
    have proper : i ≠ 0 := by omega
    have back : -(i.natAbs : Int) = i := by omega
    rw [integer?, decide_eq_true negative, if_neg (by decide), if_pos (by simp [proper, small]), back]
  · have back : (i.natAbs : Int) = i := by omega
    rw [integer?, decide_eq_false negative, if_pos (by decide), back]

/-- An integer of 64 bits is read back from what is written of it. -/
theorem number?_numberText {i : Int} (range : isSigned64 i ∨ isUnsigned64 i) {rest : List Char}
    (h : Ends rest) : number? (numberText (.int i) ++ rest) = some (.int i, rest) := by
  have fits : i.natAbs < unsignedLimit := by
    rw [isSigned64_iff, isUnsigned64_iff] at range
    rw [unsignedLimit]
    omega
  have sign : numberText (.int i) ++ rest =
      (if decide (i < 0) then ['-'] else []) ++ (Nat.toDigits 10 i.natAbs ++ rest) := by
    rw [numberText_int, List.append_assoc]
    simp only [decide_eq_true_eq]
  rw [sign, number?_eq _ (fun d => isDigit_of_mem_toDigits) (wholeDigits?_toDigits _ h)
    (fitting_toDigits fits) h, integer?_natAbs range, Option.map_some]

/-! ### Sequences -/

/-- The text of a value begins with a character that neither is passed over nor closes anything. -/
def Starts (text : List Char) : Prop :=
  ∃ c cs, text = c :: cs ∧ isSpace c = false ∧ c ≠ ']' ∧ c ≠ '}'

theorem skipSpace_cons {c : Char} (cs : List Char) (h : isSpace c = false) :
    skipSpace (c :: cs) = c :: cs := by
  simp [skipSpace, h]

theorem skipSpace_ends {c : Char} (cs : List Char) (h : c = ',' ∨ c = ']' ∨ c = '}') :
    skipSpace (c :: cs) = c :: cs :=
  skipSpace_cons cs (by rcases h with rfl | rfl | rfl <;> rfl)

theorem Starts.append {text : List Char} (h : Starts text) (rest : List Char) :
    Starts (text ++ rest) := by
  obtain ⟨c, cs, rfl, space, bracket, brace⟩ := h
  exact ⟨c, cs ++ rest, rfl, space, bracket, brace⟩

theorem starts_join {write : α → List Char} : ∀ {as : List α}, as ≠ [] →
    (∀ a ∈ as, Starts (write a)) → Starts (Text.join ',' (as.map write))
  | [a], _, starts => starts a List.mem_cons_self
  | a :: _ :: _, _, starts => (starts a List.mem_cons_self).append _

theorem length_le_join {write : α → List Char} : ∀ as : List α, (∀ a ∈ as, Starts (write a)) →
    as.length ≤ (Text.join ',' (as.map write)).length
  | [], _ => Nat.zero_le _
  | [a], starts => by
    obtain ⟨c, cs, text, -⟩ := starts a List.mem_cons_self
    simp [Text.join, text]
  | a :: b :: as, starts => by
    have later := length_le_join (b :: as) fun x hx => starts x (List.mem_cons_of_mem _ hx)
    simp only [List.map_cons, Text.join_cons_cons, List.length_append, List.length_cons] at later ⊢
    omega

section
variable {write : α → List Char} {item : Reader β} {result : α → β} {close : Char}

/-- Written items with commas between them are read one by one up to the closing character. -/
theorem itemsUntil_join (closes : close = ']' ∨ close = '}') : ∀ (as : List α) (fuel : Nat)
    (rest : List Char), as ≠ [] → as.length ≤ fuel →
    (∀ a ∈ as, ∀ rest, Ends rest → item (write a ++ rest) = some (result a, rest)) →
    itemsUntil close item fuel (Text.join ',' (as.map write) ++ close :: rest) =
      some (as.map result, rest)
  | [a], fuel + 1, rest, _, _, reads => by
    have first := reads a List.mem_cons_self (close :: rest) (ends_cons (.inr closes))
    simp [Text.join, itemsUntil, first, skipSpace_ends rest (.inr closes)]
  | a :: b :: as, fuel + 1, rest, _, enough, reads => by
    have later := itemsUntil_join closes (b :: as) fuel rest (by simp) (by simpa using enough)
      fun x hx => reads x (List.mem_cons_of_mem _ hx)
    have first := reads a List.mem_cons_self
      (',' :: (Text.join ',' ((b :: as).map write) ++ close :: rest)) (ends_cons (.inl rfl))
    have other : (',' == close) = false := by rcases closes with rfl | rfl <;> rfl
    rw [List.map_cons] at later first
    rw [List.map_cons, List.map_cons, Text.join_cons_cons, List.append_assoc, List.cons_append,
      itemsUntil, first]
    simp [skipSpace_ends _ (.inl rfl), other, later]

theorem sequence_join (closes : close = ']' ∨ close = '}') {as : List α} (rest : List Char)
    (starts : ∀ a ∈ as, Starts (write a))
    (reads : ∀ a ∈ as, ∀ rest, Ends rest → item (write a ++ rest) = some (result a, rest)) :
    sequence close item (Text.join ',' (as.map write) ++ close :: rest) =
      some (as.map result, rest) := by
  by_cases empty : as = []
  · subst empty
    simp [Text.join, sequence, skipSpace_ends rest (.inr closes)]
  · obtain ⟨c, cs, text, space, bracket, brace⟩ := starts_join empty starts
    have other : (c == close) = false := by
      rcases closes with rfl | rfl
      · simpa using bracket
      · simpa using brace
    -- the reader's fuel is the length of the text, and each item has at least one character
    have enough := length_le_join as starts
    rw [sequence, text, List.cons_append, skipSpace_cons _ space]
    simp only [other, Bool.false_eq_true, if_false]
    rw [← List.cons_append, ← text]
    refine itemsUntil_join closes as _ rest empty ?_ reads
    rw [List.length_append]
    omega

end

/-! ### Documents -/

/-- A member as it is written. -/
def memberText (m : String × Json) : List Char := quoted m.1 ++ ':' :: compactText m.2

theorem compactItems_eq : ∀ items : List Json,
    compactItems items = Text.join ',' (items.map compactText)
  | [] => rfl
  | [_] => rfl
  | i :: j :: rest => by
    rw [compactItems, compactItems_eq (j :: rest)]
    · rfl
    · simp

theorem compactMembers_eq : ∀ members : List (String × Json),
    compactMembers members = Text.join ',' (members.map memberText)
  | [] => rfl
  | [(_, _)] => rfl
  | (name, j) :: m :: rest => by
    rw [compactMembers, compactMembers_eq (m :: rest)]
    · rfl
    · simp

theorem starts_memberText (m : String × Json) : Starts (memberText m) :=
  ⟨'"', _, rfl, rfl, by decide, by decide⟩

/-- The characters that a number may begin with. -/
def Leads (c : Char) : Prop := c = '-' ∨ c.isDigit

theorem Leads.ne {c d : Char} (h : Leads c) (other : d ≠ '-' ∧ d.isDigit = false) : c ≠ d := by
  rintro rfl
  rcases h with h | h
  · exact other.1 h
  · rw [other.2] at h
    cases h

theorem numberText_leads (i : Int) : ∃ c cs, numberText (.int i) = c :: cs ∧ Leads c := by
  rw [numberText_int]
  by_cases negative : i < 0
  · exact ⟨'-', _, by rw [if_pos negative]; rfl, .inl rfl⟩
  · cases whole : Nat.toDigits 10 i.natAbs with
    | nil => exact absurd whole Nat.toDigits_ne_nil
    | cons d ds =>
      have digit : d.isDigit := isDigit_of_mem_toDigits (n := i.natAbs) (by simp [whole])
      exact ⟨d, ds, by rw [if_neg negative]; rfl, .inr digit⟩

theorem Leads.not_space {c : Char} (h : Leads c) : isSpace c = false := by
  have blank : c ≠ ' ' := h.ne (by decide)
  have line : c ≠ '\n' := h.ne (by decide)
  have tab : c ≠ '\t' := h.ne (by decide)
  have back : c ≠ '\r' := h.ne (by decide)
  simp [isSpace, blank, line, tab, back]

theorem starts_compactText {j : Json} (plain : isPlain j) : Starts (compactText j) := by
  cases j with
  | null => exact ⟨_, _, rfl, rfl, by decide, by decide⟩
  | bool b => cases b <;> exact ⟨_, _, rfl, rfl, by decide, by decide⟩
  | number n =>
    cases n with
    | real x => simp [isPlain] at plain
    | int i =>
      obtain ⟨c, cs, text, leads⟩ := numberText_leads i
      exact ⟨c, cs, by rw [compactText, text], leads.not_space, leads.ne (by decide),
        leads.ne (by decide)⟩
  | string s => exact ⟨_, _, rfl, rfl, by decide, by decide⟩
  | array items => exact ⟨_, _, rfl, rfl, by decide, by decide⟩
  | object members => exact ⟨_, _, rfl, rfl, by decide, by decide⟩

theorem keyword?_append (word : String) (j : Json) (rest : List Char) :
    keyword? word j (word.toList ++ rest) = some (j, rest) := by
  simp [keyword?, ← String.length_toList]

/-- A text that begins like a number is read as one. -/
theorem value_leads {c : Char} (h : Leads c) (depth : Nat) (cs : List Char) :
    value depth (c :: cs) = (number? (c :: cs)).map fun (n, rest) => (number n, rest) := by
  have quote : c ≠ '"' := h.ne (by decide)
  have bracket : c ≠ '[' := h.ne (by decide)
  have brace : c ≠ '{' := h.ne (by decide)
  have nullish : c ≠ 'n' := h.ne (by decide)
  have truth : c ≠ 't' := h.ne (by decide)
  have falsehood : c ≠ 'f' := h.ne (by decide)
  rw [value, skipSpace_cons cs h.not_space]
  simp [quote, bracket, brace, nullish, truth, falsehood]

/-- A name with its colon is read back. -/
theorem name?_quoted (name : String) (rest : List Char) :
    name? (quoted name ++ ':' :: rest) = some (name, rest) := by
  have text : quoted name ++ ':' :: rest = '"' :: (name.toList.flatMap escape ++ '"' :: ':' :: rest) := by
    simp [quoted]
  rw [text, name?, skipSpace_cons _ rfl]
  simp [stringFrom_quoted, skipSpace_cons rest (show isSpace ':' = false from rfl)]

theorem member_memberText {read : Reader Json} {m : String × Json} {rest : List Char}
    (h : read (compactText m.2 ++ rest) = some (m.2, rest)) :
    member read (memberText m ++ rest) = some (m, rest) := by
  rw [memberText, List.append_assoc, List.cons_append, member, name?_quoted]
  simp [h]

/-- A plain document is read back from its compact text, whatever ends it. -/
theorem value_compactText (j : Json) : ∀ {depth : Nat} {rest : List Char}, isPlain j →
    nesting j ≤ depth → Ends rest → value depth (compactText j ++ rest) = some (j, rest) := by
  -- the depth and the rest of the text differ from level to level, so they are not fixed here
  induction j using Json.induction with
  | null =>
    intro depth rest _ _ _
    have read := keyword?_append "null" null rest
    simpa [compactText, value, skipSpace_cons _ (show isSpace 'n' = false from rfl)] using read
  | bool b =>
    intro depth rest _ _ _
    cases b with
    | true =>
      have read := keyword?_append "true" (bool true) rest
      simpa [compactText, value, skipSpace_cons _ (show isSpace 't' = false from rfl)] using read
    | false =>
      have read := keyword?_append "false" (bool false) rest
      simpa [compactText, value, skipSpace_cons _ (show isSpace 'f' = false from rfl)] using read
  | number n =>
    intro depth rest plain _ ends
    cases n with
    | real x => simp [isPlain] at plain
    | int i =>
      obtain ⟨c, cs, text, leads⟩ := numberText_leads i
      have range : isSigned64 i ∨ isUnsigned64 i := by simpa [isPlain] using plain
      rw [compactText, text, List.cons_append, value_leads leads, ← List.cons_append, ← text,
        number?_numberText range ends, Option.map_some]
  | string s =>
    intro depth rest _ _ _
    simp only [compactText, quoted, List.cons_append, List.append_assoc, List.nil_append]
    rw [value, skipSpace_cons _ rfl]
    simp [stringFrom_quoted]
  | array items ih =>
    intro depth rest plain deep _
    rw [isPlain, plainItems_iff] at plain
    rw [nesting] at deep
    -- the bracket takes one level of the depth, which there is
    obtain ⟨depth, rfl⟩ : ∃ d, depth = d + 1 := ⟨depth - 1, by omega⟩
    have read : sequence ']' (value depth) (Text.join ',' (items.map compactText) ++ ']' :: rest) =
        some (items.map id, rest) :=
      sequence_join (.inl rfl) rest (fun j hj => starts_compactText (plain j hj))
        fun j hj rest ends =>
          ih j hj (plain j hj) (Nat.le_trans (nesting_le_items hj) (by omega)) ends
    simp only [compactText, compactItems_eq, List.cons_append, List.append_assoc, List.nil_append]
    rw [value, skipSpace_cons _ rfl]
    simp [read]
  | object members ih =>
    intro depth rest plain deep _
    rw [isPlain, Bool.and_eq_true, plainMembers_iff] at plain
    rw [nesting] at deep
    obtain ⟨depth, rfl⟩ : ∃ d, depth = d + 1 := ⟨depth - 1, by omega⟩
    have read : sequence '}' (member (value depth))
        (Text.join ',' (members.map memberText) ++ '}' :: rest) = some (members.map id, rest) :=
      sequence_join (.inr rfl) rest (fun m _ => starts_memberText m)
        fun m hm rest ends => member_memberText
          (ih m hm (plain.2 m hm) (Nat.le_trans (nesting_le_members hm) (by omega)) ends)
    simp only [compactText, compactMembers_eq, List.cons_append, List.append_assoc, List.nil_append]
    rw [value, skipSpace_cons _ rfl]
    simp [read]

/-! ### Whole texts -/

theorem setMember_new {name : String} (a : α) {members : List (String × α)}
    (new : name ∉ members.map (·.1)) : setMember name a members = members ++ [(name, a)] := by
  induction members with
  | nil => rfl
  | cons m members ih =>
    simp only [List.map_cons, List.mem_cons, not_or] at new
    rw [setMember, if_neg (Ne.symm new.1), ih new.2, List.cons_append]

/-- The fold over members that are named once puts each of them behind those seen before. -/
theorem foldl_setMember (members seen : List (String × α))
    (once : ((seen ++ members).map (·.1)).Nodup) :
    members.foldl (fun ms m => setMember m.1 m.2 ms) seen = seen ++ members := by
  induction members generalizing seen with
  | nil => simp
  | cons m members ih =>
    have new : m.1 ∉ seen.map (·.1) := by
      rw [List.map_append, List.nodup_append] at once
      intro old
      exact once.2.2 _ old _ (by simp) rfl
    have moved : seen ++ m :: members = (seen ++ [(m.1, m.2)]) ++ members := by simp
    rw [moved] at once
    rw [List.foldl_cons, setMember_new m.2 new, ih _ once, moved]

theorem settleItems_eq : ∀ items : List Json, settleItems items = items.map settle
  | [] => rfl
  | j :: rest => by rw [settleItems, settleItems_eq rest, List.map_cons]

theorem settleValues_eq : ∀ members : List (String × Json),
    settleValues members = members.map fun m => (m.1, settle m.2)
  | [] => rfl
  | (name, j) :: rest => by rw [settleValues, settleValues_eq rest, List.map_cons]

/-- A plain document means what it says. -/
theorem settle_eq_self (j : Json) : isPlain j → settle j = j := by
  induction j using Json.induction with
  | null => exact fun _ => rfl
  | bool b => exact fun _ => rfl
  | number n => exact fun _ => rfl
  | string s => exact fun _ => rfl
  | array items ih =>
    intro plain
    rw [isPlain, plainItems_iff] at plain
    rw [settle, settleItems_eq, List.map_congr_left fun j hj => ih j hj (plain j hj), List.map_id']
  | object members ih =>
    intro plain
    rw [isPlain, Bool.and_eq_true, plainMembers_iff, decide_eq_true_eq] at plain
    have same : (members.map fun m => (m.1, settle m.2)) = members := by
      rw [List.map_congr_left fun m hm => by rw [ih m hm (plain.2 m hm)], List.map_id']
    rw [settle, settleValues_eq, same, settleMembers, foldl_setMember members [] plain.1]
    rfl

/-- A plain document that is not nested too deep is read back from its compact text. -/
theorem readRaw?_compactText {j : Json} (plain : isPlain j) (deep : nesting j ≤ maxDepth) :
    readRaw? (compactText j) = some j := by
  have read := value_compactText j plain deep ends_nil
  rw [List.append_nil] at read
  rw [readRaw?, read]
  rfl

/-- A member under one of a record's names is read as a field. -/
theorem fieldMember_memberText {names : List String} {read : Reader Json} {m : String × Json}
    {rest : List Char} (named : m.1 ∈ names)
    (h : read (compactText m.2 ++ rest) = some (m.2, rest)) :
    fieldMember names read (memberText m ++ rest) = some (some m, rest) := by
  rw [memberText, List.append_assoc, List.cons_append, fieldMember, name?_quoted]
  simp [named, h]

/-- A record whose members all have names of its own is read back from its compact text. -/
theorem readRecord?_compactText {names : List String} {members : List (String × Json)}
    (named : ∀ m ∈ members, m.1 ∈ names) (plain : isPlain (object members))
    (deep : nesting (object members) ≤ maxDepth) :
    readRecord? names (compactText (object members)) = some (object members) := by
  rw [isPlain, Bool.and_eq_true, plainMembers_iff] at plain
  rw [nesting, maxDepth] at deep
  have read : sequence '}' (fieldMember names (value (maxDepth - 1)))
      (Text.join ',' (members.map memberText) ++ ['}']) = some (members.map some, []) :=
    sequence_join (.inr rfl) [] (fun m _ => starts_memberText m) fun m hm rest ends =>
      fieldMember_memberText (named m hm)
        (value_compactText m.2 (plain.2 m hm)
          (Nat.le_trans (nesting_le_members hm) (by rw [maxDepth]; omega)) ends)
  rw [compactText, compactMembers_eq, List.cons_append, readRecord?, skipSpace_cons _ rfl]
  simp [read, skipSpace]

end SourceAtlas.Json
