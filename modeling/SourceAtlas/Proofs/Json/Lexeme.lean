import Mathlib.Data.Option.Basic
import SourceAtlas.Proofs.Json.Token
/-!
What the readers of numbers and strings take from a text. Each takes the text of a number or string as
far as it goes and leaves what stands behind it, and what it takes is always such a text. A number is
read part by part, and a part ends where a character cannot belong to it.
-/

namespace SourceAtlas.Json

/-- The text does not go on with one of these characters. -/
def Stops (more : Char → Bool) (rest : List Char) : Prop := ∀ c ∈ rest.head?, more c = false

section
variable {more less : Char → Bool} {c : Char} {rest : List Char}

theorem stops_nil (more : Char → Bool) : Stops more [] := by simp [Stops]

theorem stops_cons (h : more c = false) : Stops more (c :: rest) := by simpa [Stops] using h

theorem Stops.mono (h : Stops more rest) (le : ∀ c, less c → more c) : Stops less rest := by
  intro c mem
  cases accepted : less c with
  | false => rfl
  | true => exact absurd (le c accepted) (by simp [h c mem])

end

section
variable {ds t rest cs : List Char}

/-! ### Parts of a number -/

theorem IsDigits.takeWhile (h : IsDigits ds) (stops : Stops Char.isDigit rest) :
    (ds ++ rest).takeWhile Char.isDigit = ds :=
  Text.takeWhile_append_stop h.2 stops

theorem IsDigits.dropWhile (h : IsDigits ds) (stops : Stops Char.isDigit rest) :
    (ds ++ rest).dropWhile Char.isDigit = rest := by
  have whole := List.takeWhile_append_dropWhile (p := Char.isDigit) (l := ds ++ rest)
  rw [h.takeWhile stops] at whole
  exact List.append_cancel_left whole

theorem isDigits_takeWhile (filled : cs.takeWhile Char.isDigit ≠ []) :
    IsDigits (cs.takeWhile Char.isDigit) :=
  ⟨filled, fun _ => List.mem_takeWhile_imp⟩

theorem wholeDigits?_append (h : IsWhole ds) (stops : Stops Char.isDigit rest) :
    wholeDigits? (ds ++ rest) = some (ds, rest) := by
  rw [wholeDigits?, h.1.takeWhile stops, h.1.dropWhile stops]
  split
  · exact absurd rfl h.1.1
  · rcases h.2 with alone | other
    · cases alone
    · exact absurd rfl other
  · rfl

theorem isWhole_of_wholeDigits? (h : wholeDigits? cs = some (ds, rest)) :
    IsWhole ds ∧ cs = ds ++ rest := by
  have whole := List.takeWhile_append_dropWhile (p := Char.isDigit) (l := cs)
  rw [wholeDigits?] at h
  split at h
  · cases h
  · cases h
  · rename_i _ _ filled single
    obtain ⟨rfl, rfl⟩ := Prod.mk.inj (Option.some.inj h)
    have digits := isDigits_takeWhile filled
    refine ⟨⟨digits, ?_⟩, whole.symm⟩
    cases shape : cs.takeWhile Char.isDigit with
    | nil => exact absurd shape filled
    | cons d ds =>
      cases ds with
      | nil => by_cases zero : d = '0' <;> simp [zero]
      | cons e ds => exact .inr (by rintro ⟨⟩; exact single _ _ shape)

/-- The characters with which a fraction goes on. -/
def inFraction (c : Char) : Bool := c.isDigit || c == '.'

theorem fraction?_append (h : IsFraction t) (stops : Stops inFraction rest) :
    fraction? (t ++ rest) = some (t.tail?, rest) := by
  rcases h with rfl | ⟨ds, digits, rfl⟩
  · cases rest with
    | nil => rfl
    | cons c cs =>
      have other : c ≠ '.' := by
        rintro rfl
        exact absurd (stops '.' rfl) (by decide)
      rw [List.nil_append, fraction?]
      · rfl
      · exact fun _ same => other (List.cons.inj same).1
  · have stop : Stops Char.isDigit rest := stops.mono fun c digit => by simp [inFraction, digit]
    rw [List.cons_append, fraction?, digits.takeWhile stop, digits.dropWhile stop]
    cases ds with
    | nil => exact absurd rfl digits.1
    | cons d ds => rfl

theorem isFraction_of_fraction? {behind : Option (List Char)} (h : fraction? cs = some (behind, rest)) :
    ∃ t, IsFraction t ∧ behind = t.tail? ∧ cs = t ++ rest := by
  rw [fraction?.eq_def] at h
  split at h
  · rename_i cs
    have whole := List.takeWhile_append_dropWhile (p := Char.isDigit) (l := cs)
    split at h
    · cases h
    · rename_i filled
      obtain ⟨rfl, rfl⟩ := Prod.mk.inj (Option.some.inj h)
      refine ⟨'.' :: cs.takeWhile Char.isDigit, .inr ⟨_, isDigits_takeWhile filled, rfl⟩, rfl, ?_⟩
      rw [List.cons_append, whole]
  · obtain ⟨rfl, rfl⟩ := Prod.mk.inj (Option.some.inj h)
    exact ⟨[], .inl rfl, rfl, rfl⟩

/-- The characters with which an exponent goes on. -/
def inExponent (c : Char) : Bool := c.isDigit || c == 'e' || c == 'E'

/-- The exponent that a text stands for. -/
def exponentOf : List Char → Option Int
  | [] => none
  | _ :: '-' :: ds => some (-(digitsValue ds : Int))
  | _ :: '+' :: ds => some (digitsValue ds : Int)
  | _ :: ds => some (digitsValue ds : Int)

theorem exponent?_none (h : ∀ c ∈ cs.head?, c ∉ ['e', 'E']) : exponent? cs = some (none, cs) := by
  cases cs with
  | nil => rfl
  | cons c cs =>
    have other : c ≠ 'e' ∧ c ≠ 'E' := by simpa using h c rfl
    simp [exponent?.eq_def, other]

/-- The digits of an exponent are those behind its letter and its sign, if it has one. -/
theorem exponent?_signed {letter : Char} {sign : List Char} (letters : letter ∈ ['e', 'E'])
    (signs : sign ∈ [[], ['+'], ['-']]) (plain : sign = [] → ∀ c ∈ cs.head?, c ≠ '+' ∧ c ≠ '-') :
    exponent? (letter :: (sign ++ cs)) =
      if cs.takeWhile Char.isDigit = [] then none
      else some (exponentOf (letter :: (sign ++ cs.takeWhile Char.isDigit)),
        cs.dropWhile Char.isDigit) := by
  have opens : (letter == 'e' || letter == 'E') = true := by
    rcases List.mem_pair.1 letters with rfl | rfl <;> rfl
  simp only [List.mem_cons, List.not_mem_nil, or_false] at signs
  rcases signs with rfl | rfl | rfl
  · cases cs with
    | nil => simp [exponent?.eq_def, opens]
    | cons c cs =>
      obtain ⟨plus, minus⟩ := plain rfl c rfl
      cases digit : c.isDigit <;> simp [exponent?.eq_def, opens, plus, minus, digit, exponentOf]
  · cases taken : cs.takeWhile Char.isDigit <;> simp [exponent?.eq_def, opens, taken, exponentOf]
  · cases taken : cs.takeWhile Char.isDigit <;> simp [exponent?.eq_def, opens, taken, exponentOf]

theorem exponent?_append (h : IsExponent t) (stops : Stops inExponent rest) :
    exponent? (t ++ rest) = some (exponentOf t, rest) := by
  rcases h with rfl | ⟨letter, sign, ds, letters, signs, digits, rfl⟩
  · refine exponent?_none fun c first letter => ?_
    have each : ∀ c ∈ ['e', 'E'], inExponent c := by decide
    exact absurd (each c letter) (by simp [stops c first])
  · have stop : Stops Char.isDigit rest := stops.mono fun c digit => by simp [inExponent, digit]
    have plain : ∀ c ∈ (ds ++ rest).head?, c ≠ '+' ∧ c ≠ '-' := by
      obtain ⟨d, ds, rfl⟩ := List.exists_cons_of_ne_nil digits.1
      rintro c ⟨⟩
      have digit := digits.2 d List.mem_cons_self
      constructor <;> rintro rfl <;> cases digit
    rw [List.cons_append, List.append_assoc, exponent?_signed letters signs fun _ => plain,
      digits.takeWhile stop, digits.dropWhile stop, if_neg digits.1]

theorem exists_sign (cs : List Char) : ∃ sign ds, sign ∈ [[], ['+'], ['-']] ∧ cs = sign ++ ds ∧
    (sign = [] → ∀ c ∈ ds.head?, c ≠ '+' ∧ c ≠ '-') := by
  by_cases plain : ∀ c ∈ cs.head?, c ≠ '+' ∧ c ≠ '-'
  · exact ⟨[], cs, by simp, rfl, fun _ => plain⟩
  · cases cs with
    | nil => simp at plain
    | cons c cs =>
      have sign : c = '+' ∨ c = '-' := by simpa [imp_iff_not_or] using plain
      exact ⟨[c], cs, by rcases sign with rfl | rfl <;> simp, rfl, fun empty => by cases empty⟩

theorem isExponent_of_exponent? {power : Option Int} (h : exponent? cs = some (power, rest)) :
    ∃ t, IsExponent t ∧ power = exponentOf t ∧ cs = t ++ rest := by
  by_cases opens : ∀ c ∈ cs.head?, c ∉ ['e', 'E']
  · rw [exponent?_none opens] at h
    obtain ⟨rfl, rfl⟩ := Prod.mk.inj (Option.some.inj h)
    exact ⟨[], .inl rfl, rfl, rfl⟩
  · simp only [not_forall, not_not] at opens
    obtain ⟨letter, first, letters⟩ := opens
    obtain ⟨cs, rfl⟩ := List.head?_eq_some_iff.1 first
    obtain ⟨sign, ds, signs, rfl, plain⟩ := exists_sign cs
    rw [exponent?_signed letters signs plain] at h
    split at h
    · cases h
    · rename_i filled
      obtain ⟨rfl, rfl⟩ := Prod.mk.inj (Option.some.inj h)
      refine ⟨_, .inr ⟨letter, sign, _, letters, signs, isDigits_takeWhile filled, rfl⟩, rfl, ?_⟩
      rw [List.cons_append, List.append_assoc, List.takeWhile_append_dropWhile]

/-! ### Numbers -/

/-- The number that the parts of a text stand for. -/
def numberOf? (negative : Bool) (whole : List Char) (behind : Option (List Char))
    (exponent : Option Int) : Option JsonNumber :=
  let (n, dropped) := fitting 0 whole
  if behind.isNone && exponent.isNone && dropped.isEmpty then integer? negative n
  else
    let places := behind.getD []
    let (n, unread) := fitting n places
    let power : Int := exponent.getD 0 + dropped.length + unread.length - places.length
    (Binary64.ofScaled? negative n power).map .real

theorem numberOf?_map (negative : Bool) (whole : List Char) (behind : Option (List Char))
    (exponent : Option Int) (rest : List Char) :
    (numberOf? negative whole behind exponent).map (·, rest) =
      if (behind = none ∧ exponent = none) ∧ (fitting 0 whole).2 = [] then
        (integer? negative (fitting 0 whole).1).bind fun n => some (n, rest)
      else
        (Binary64.ofScaled? negative (fitting (fitting 0 whole).1 (behind.getD [])).1
          (exponent.getD 0 + (fitting 0 whole).2.length +
            (fitting (fitting 0 whole).1 (behind.getD [])).2.length - (behind.getD []).length)).bind
          fun x => some (.real x, rest) := by
  by_cases plain : (behind = none ∧ exponent = none) ∧ (fitting 0 whole).2 = []
  · simp [numberOf?, plain, Option.map_eq_bind]
  · have other : (behind.isNone && exponent.isNone && (fitting 0 whole).2.isEmpty) = false := by
      simpa using plain
    simp [numberOf?, other, plain, Option.map_eq_bind, Option.bind_assoc]

/-- A number is read part by part. -/
theorem number?_parts {sign : List Char} (signs : sign ∈ [[], ['-']])
    (plain : sign = [] → ∀ c ∈ cs.head?, c ≠ '-') :
    number? (sign ++ cs) = (wholeDigits? cs).bind fun p => (fraction? p.2).bind fun q =>
      (exponent? q.2).bind fun r => (numberOf? (sign == ['-']) p.1 q.1 r.1).map (·, r.2) := by
  simp only [numberOf?_map]
  rcases List.mem_pair.1 signs with rfl | rfl
  · unfold number?
    cases cs with
    | nil => rfl
    | cons c cs => simp [plain rfl c rfl]
  · unfold number?
    simp

theorem inWord_of_isDigit {c : Char} (h : c.isDigit) : inWord c := by
  simp [inWord, Char.isAlphanum, h]

theorem IsExponent.stops (h : IsExponent t) (stops : Stops Json.inWord rest) :
    Stops inFraction (t ++ rest) := by
  rcases h with rfl | ⟨letter, sign, ds, letters, _, _, rfl⟩
  · refine stops.mono fun c more => ?_
    rw [inFraction, Bool.or_eq_true, beq_iff_eq] at more
    rcases more with digit | rfl
    · exact inWord_of_isDigit digit
    · rfl
  · rcases List.mem_pair.1 letters with rfl | rfl <;> exact stops_cons rfl

theorem IsFraction.stops (h : IsFraction t) (stops : Stops inFraction rest) :
    Stops Char.isDigit (t ++ rest) := by
  rcases h with rfl | ⟨ds, _, rfl⟩
  · exact stops.mono fun c digit => by simp [inFraction, digit]
  · exact stops_cons rfl

/-- The parts of a number are read as far as they go, up to what cannot belong to a word. -/
theorem number?_append {sign whole fraction exponent : List Char} (signs : sign ∈ [[], ['-']])
    (digits : IsWhole whole) (frac : IsFraction fraction) (exp : IsExponent exponent)
    (stops : Stops inWord rest) :
    number? (sign ++ (whole ++ (fraction ++ (exponent ++ rest)))) =
      (numberOf? (sign == ['-']) whole fraction.tail? (exponentOf exponent)).map (·, rest) := by
  have behindExponent : Stops inExponent rest := stops.mono fun c more => by
    simp only [inExponent, Bool.or_eq_true, beq_iff_eq] at more
    rcases more with (digit | rfl) | rfl
    · exact inWord_of_isDigit digit
    · rfl
    · rfl
  have behindFraction := exp.stops stops
  have unsigned : ∀ c ∈ (whole ++ (fraction ++ (exponent ++ rest))).head?, c ≠ '-' := by
    obtain ⟨d, ds, rfl⟩ := List.exists_cons_of_ne_nil digits.1.1
    rintro c ⟨⟩ rfl
    cases digits.1.2 '-' List.mem_cons_self
  rw [number?_parts signs fun _ => unsigned, wholeDigits?_append digits (frac.stops behindFraction),
    Option.bind_some, fraction?_append frac behindFraction, Option.bind_some,
    exponent?_append exp behindExponent, Option.bind_some]

/-- A number is read in front of what cannot belong to it as it is read alone. -/
theorem IsNumberText.number?_append (h : IsNumberText t) (stops : Stops Json.inWord rest) :
    number? (t ++ rest) = (number? t).map fun n => (n.1, rest) := by
  obtain ⟨sign, whole, fraction, exponent, signs, digits, frac, exp, rfl⟩ := h
  have alone := Json.number?_append signs digits frac exp (stops_nil Json.inWord)
  rw [List.append_nil] at alone
  simp only [List.append_assoc]
  rw [alone, Json.number?_append signs digits frac exp stops, Option.map_map]
  rfl

theorem exists_minus (cs : List Char) : ∃ sign ds, sign ∈ [[], ['-']] ∧ cs = sign ++ ds ∧
    (sign = [] → ∀ c ∈ ds.head?, c ≠ '-') := by
  by_cases plain : ∀ c ∈ cs.head?, c ≠ '-'
  · exact ⟨[], cs, by simp, rfl, fun _ => plain⟩
  · cases cs with
    | nil => simp at plain
    | cons c cs =>
      obtain rfl : c = '-' := by simpa using plain
      exact ⟨['-'], cs, by simp, rfl, fun empty => by cases empty⟩

/-- What is read as a number is the text of one, and nothing behind it counts. -/
theorem isNumberText_of_number? {n : JsonNumber} (h : number? cs = some (n, rest)) :
    ∃ t, IsNumberText t ∧ cs = t ++ rest ∧ number? t = some (n, []) := by
  obtain ⟨sign, ds, signs, rfl, plain⟩ := exists_minus cs
  rw [number?_parts signs plain] at h
  obtain ⟨⟨whole, front⟩, wholeRead, h⟩ := Option.bind_eq_some_iff.1 h
  obtain ⟨⟨behind, middle⟩, fractionRead, h⟩ := Option.bind_eq_some_iff.1 h
  obtain ⟨⟨power, tail⟩, exponentRead, h⟩ := Option.bind_eq_some_iff.1 h
  obtain ⟨n', number, same⟩ := Option.map_eq_some_iff.1 h
  obtain ⟨rfl, rfl⟩ := Prod.mk.inj same
  obtain ⟨digits, rfl⟩ := isWhole_of_wholeDigits? wholeRead
  obtain ⟨fraction, frac, rfl, rfl⟩ := isFraction_of_fraction? fractionRead
  obtain ⟨exponent, exp, rfl, rfl⟩ := isExponent_of_exponent? exponentRead
  refine ⟨_, ⟨sign, whole, fraction, exponent, signs, digits, frac, exp, rfl⟩, by simp, ?_⟩
  have alone := number?_append signs digits frac exp (stops_nil inWord)
  rwa [List.append_nil, number] at alone

/-! ### Strings -/

theorem escaped?_isSome_iff {c : Char} : (escaped? c).isSome ↔ c ∈ escapeLetters := by
  constructor
  · intro some
    rw [escaped?.eq_def] at some
    split at some <;> first | decide | cases some
  · have each : ∀ c ∈ escapeLetters, (escaped? c).isSome := by decide
    exact each c

theorem hex4?_isSome_iff {a b c d : Char} :
    (hex4? a b c d).isSome ↔ ∀ x ∈ [a, b, c, d], (hexDigit? x).isSome := by
  simp only [hex4?, List.forall_mem_cons]
  cases hexDigit? a <;> cases hexDigit? b <;> cases hexDigit? c <;> cases hexDigit? d <;> simp

theorem stringFrom_plain {c : Char} (ink : 0x20 ≤ c.toNat) (quote : c ≠ '"') (mark : c ≠ '\\')
    (read cs : List Char) : stringFrom read (c :: cs) = stringFrom (c :: read) cs := by
  simp [stringFrom, mark, show ¬c.toNat < 32 by omega]

theorem stringFrom_letter {c x : Char} (letter : escaped? c = some x) (read cs : List Char) :
    stringFrom read ('\\' :: c :: cs) = stringFrom (x :: read) cs := by
  have other : c ≠ 'u' := by
    rintro rfl
    cases letter
  simp [stringFrom, letter, other]

/-- A string is read up to its closing quote as it is read alone. -/
theorem StringBody.stringFrom_append : ∀ {body : List Char}, StringBody body → ∀ read rest,
    stringFrom read (body ++ '"' :: rest) =
      (stringFrom read (body ++ ['"'])).map fun s => (s.1, rest)
  | _, .nil, _, _ => by simp [stringFrom]
  | _, .plain ink quote mark later, read, rest => by
    rw [List.cons_append, List.cons_append, stringFrom_plain ink quote mark,
      stringFrom_plain ink quote mark, later.stringFrom_append]
  | _, .escape letter later, read, rest => by
    obtain ⟨x, escaped⟩ := Option.isSome_iff_exists.1 (escaped?_isSome_iff.2 letter)
    simp only [List.cons_append]
    rw [stringFrom_letter escaped, stringFrom_letter escaped, later.stringFrom_append]
  | _, .codePoint hex later, read, rest => by
    obtain ⟨n, code⟩ := Option.isSome_iff_exists.1 (hex4?_isSome_iff.2 hex)
    simp only [List.cons_append]
    rw [stringFrom, stringFrom, code]
    cases half : isSurrogate n with
    | false => simpa [half] using later.stringFrom_append _ rest
    | true =>
      -- the other half of a pair must follow at once
      simp only [half, if_true]
      cases later with
      | nil => rfl
      | plain _ _ mark _ => simp [mark]
      | escape letter _ =>
        have other : ∀ c ∈ escapeLetters, c ≠ 'u' := by decide
        simp [other _ letter]
      | @codePoint e f g h cs _ later =>
        simp only [List.cons_append]
        cases (hex4? e f g h).bind (pair? n) with
        | none => rfl
        | some char => exact later.stringFrom_append _ rest

theorem hex_of_hex4? {a b c d : Char} {n : Nat} (h : hex4? a b c d = some n) :
    ∀ x ∈ [a, b, c, d], (hexDigit? x).isSome :=
  hex4?_isSome_iff.1 (by rw [h]; rfl)

/-- What is read as a string is one, up to its closing quote. -/
theorem exists_stringBody {read : List Char} {s : String} (h : stringFrom read cs = some (s, rest)) :
    ∃ body, StringBody body ∧ cs = body ++ '"' :: rest := by
  -- the cases are the branches of the reader, the ones that give nothing among them
  fun_induction stringFrom read cs with
  | case2 =>
    obtain ⟨_, rfl⟩ := Prod.mk.inj (Option.some.inj h)
    exact ⟨[], .nil, rfl⟩
  | case4 _ _ _ _ _ _ first _ _ _ _ _ _ _ second ih =>
    obtain ⟨body, isBody, rfl⟩ := ih h
    obtain ⟨_, low, _⟩ := Option.bind_eq_some_iff.1 second
    exact ⟨_, .codePoint (hex_of_hex4? first) (.codePoint (hex_of_hex4? low) isBody), rfl⟩
  | case7 _ _ _ _ _ _ _ code _ ih =>
    obtain ⟨body, isBody, rfl⟩ := ih h
    exact ⟨_, .codePoint (hex_of_hex4? code) isBody, rfl⟩
  | case8 _ _ _ _ _ letter ih =>
    obtain ⟨body, isBody, rfl⟩ := ih h
    exact ⟨_, .escape (escaped?_isSome_iff.1 (by rw [letter]; rfl)) isBody, rfl⟩
  | case11 _ c _ quote _ _ taken ih =>
    obtain ⟨body, isBody, rfl⟩ := ih h
    simp only [Bool.or_eq_true, decide_eq_true_eq, beq_iff_eq, not_or, not_lt] at taken
    exact ⟨_, .plain taken.1 quote taken.2 isBody, rfl⟩
  | _ => cases h

end

end SourceAtlas.Json
