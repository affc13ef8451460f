import SourceAtlas.Proofs.Path.Steps
import SourceAtlas.Proofs.Source.ParameterText
/-!
Types as they are written, and the annotation behind a parameter list. The scan that looks for the end
of an annotation stops at a `{` outside of brackets unless a type is still to come there. In a type
such a brace stands only where a type begins, and there one is to come; behind a whole type none is,
so the brace of a body ends the annotation, and the type is read as it was written.
-/

namespace SourceAtlas.Source

/-! ### The grammar -/

/-- A text between two brackets. -/
def enclosed (left : Char) (t : List Char) (right : Char) : List Char := left :: (t ++ [right])

/-- Identifiers with dots between them. -/
def IsDotted (t : List Char) : Prop := ∀ part ∈ Text.split '.' t, IsName part

instance {t : List Char} : Decidable (IsDotted t) :=
  inferInstanceAs (Decidable (∀ part ∈ Text.split '.' t, IsName part))

/-- A member of an object type: what stands before its `:`, its type, and the mark behind it. -/
structure MemberText where
  key : List Char
  type : List Char
  mark : Option Char

/-- The member as it is written. -/
def MemberText.text (m : MemberText) : List Char := m.key ++ ':' :: (m.type ++ m.mark.toList)

/-- The text of a type, with any blanks between its parts. -/
inductive TypeText : List Char → Prop
  | name {t : List Char} (dotted : IsDotted t) : TypeText t
  | generic {t gap : List Char} {arguments : List (List Char)} (dotted : IsDotted t)
      (blank : ∀ c ∈ gap, Text.isBlank c) (filled : arguments ≠ [])
      (types : ∀ a ∈ arguments, TypeText (Text.trim a)) :
      TypeText (t ++ gap ++ enclosed '<' (List.intercalate [','] arguments) '>')
  | array {t gap inner : List Char} (element : TypeText t) (blank : ∀ c ∈ gap, Text.isBlank c)
      (nothing : ∀ c ∈ inner, Text.isBlank c) : TypeText (t ++ gap ++ enclosed '[' inner ']')
  | tuple {elements : List (List Char)} {gap : List Char}
      (types : ∀ e ∈ elements, TypeText (Text.trim e)) (blank : ∀ c ∈ gap, Text.isBlank c) :
      TypeText (enclosed '[' (List.intercalate [','] elements ++ gap) ']')
  | parentheses {t : List Char} (inner : TypeText (Text.trim t)) : TypeText (enclosed '(' t ')')
  | object {members : List MemberText} {gap : List Char}
      (keys : ∀ m ∈ members, Balanced m.key)
      (types : ∀ m ∈ members, TypeText (Text.trim m.type))
      (marks : ∀ m ∈ members, ∀ c ∈ m.mark, c ∈ [';', ','])
      (apart : ∀ m ∈ members.dropLast, m.mark ≠ none) (blank : ∀ c ∈ gap, Text.isBlank c) :
      TypeText (enclosed '{' (members.flatMap MemberText.text ++ gap) '}')
  | arrow {parameters gap after result : List Char} (balanced : Balanced parameters)
      (blank : ∀ c ∈ gap, Text.isBlank c) (blank' : ∀ c ∈ after, Text.isBlank c)
      (type : TypeText result) :
      TypeText (enclosed '(' parameters ')' ++ gap ++ ['=', '>'] ++ after ++ result)
  | joined {left gap after right : List Char} {mark : Char} (known : mark ∈ ['|', '&'])
      (first : TypeText left) (blank : ∀ c ∈ gap, Text.isBlank c)
      (blank' : ∀ c ∈ after, Text.isBlank c) (second : TypeText right) :
      TypeText (left ++ gap ++ [mark] ++ after ++ right)

variable {a b t before : List Char}

theorem IsDotted.forall_inDottedName (h : IsDotted t) : ∀ c ∈ t, inDottedName c := by
  intro c mem
  rw [← Text.join_split '.' t] at mem
  rcases Text.eq_or_mem_of_mem_join mem with rfl | ⟨part, among, mem⟩
  · decide
  · simp [inDottedName, (h part among).2 c mem]

theorem inLabel_of_inDottedName {c : Char} (h : inDottedName c) : inLabel c := by
  rw [inLabel, show (continuesIdentifier c || c == '.') = true from h]
  rfl

theorem IsDotted.ne_nil (h : IsDotted t) : t ≠ [] := by
  rintro rfl
  exact (h [] List.mem_cons_self).ne_nil rfl

/-! ### Behind a type -/

/-- No type is to come behind the text, wherever it stands. -/
structure Complete (t : List Char) : Prop where
  last : ∃ c, t.getLast? = some c ∧ Text.isBlank c = false ∧ c ≠ '='
  settled : ∀ before, awaitsType (t.reverse ++ before) = false

theorem Complete.append (h : Complete t) (a : List Char) : Complete (a ++ t) := by
  obtain ⟨c, last, other⟩ := h.last
  refine ⟨⟨c, ?_, other⟩, fun before => ?_⟩
  · rw [List.getLast?_append, last]
    rfl
  · rw [List.reverse_append, List.append_assoc]
    exact h.settled _

/-- The characters behind which a type is to come, with those of an arrow. -/
def beforeType : List Char := ['=', '>', '|', '&', '<', ',', ':', '(']

/-- A character that is neither one of them nor a blank is such a text. -/
theorem complete_singleton {c : Char} (ink : Text.isBlank c = false) (other : c ∉ beforeType) :
    Complete [c] := by
  refine ⟨⟨c, rfl, ink, fun same => other (same ▸ List.mem_cons_self)⟩, fun before => ?_⟩
  simp only [beforeType, List.mem_cons, List.not_mem_nil, or_false, not_or] at other
  rw [List.reverse_singleton, List.singleton_append, awaitsType,
    List.dropWhile_cons_of_neg (by simp [ink])]
  split
  · rename_i none
    cases none
  · rename_i arrow
    exact absurd (List.cons.inj arrow).1 other.2.1
  · rename_i d rest _ whole
    obtain ⟨rfl, rfl⟩ := List.cons.inj whole
    simp [other]

theorem complete_enclosed (left : Char) {right : Char} (known : right ∈ [')', ']', '}'])
    (t : List Char) : Complete (enclosed left t right) := by
  have single : Complete [right] := by
    simp only [List.mem_cons, List.not_mem_nil, or_false] at known
    rcases known with rfl | rfl | rfl <;> exact complete_singleton rfl (by decide)
  exact single.append (left :: t)

/-- A `>` is the end of type arguments if no `=` stands before it. -/
theorem complete_angles {t : List Char} {d : Char} (last : t.getLast? = some d) (other : d ≠ '=')
    (left : Char) : Complete (enclosed left t '>') := by
  obtain ⟨front, rfl⟩ := List.getLast?_eq_some_iff.1 last
  have two : Complete [d, '>'] := by
    refine ⟨⟨'>', rfl, rfl, by decide⟩, fun before => ?_⟩
    have first : ('>' :: d :: before).dropWhile Text.isBlank = '>' :: d :: before := rfl
    rw [show ([d, '>'] : List Char).reverse ++ before = '>' :: d :: before from rfl, awaitsType, first]
    split
    · rename_i none
      cases none
    · rename_i arrow
      exact absurd (List.cons.inj (List.cons.inj arrow).2).1 other
    · rename_i c rest _ whole
      obtain ⟨rfl, rfl⟩ := List.cons.inj whole
      rfl
  have whole := two.append (left :: front)
  rwa [show left :: front ++ [d, '>'] = enclosed left (front ++ [d]) '>' by simp [enclosed]] at whole

theorem IsDotted.complete (h : IsDotted t) : Complete t := by
  obtain ⟨c, last⟩ : ∃ c, t.getLast? = some c :=
    Option.ne_none_iff_exists'.1 (mt List.getLast?_eq_none_iff.1 h.ne_nil)
  obtain ⟨front, rfl⟩ := List.getLast?_eq_some_iff.1 last
  have word : inDottedName c := h.forall_inDottedName c (by simp)
  have apart : beforeType.all (!inDottedName ·) := by decide
  refine (complete_singleton (not_isBlank_of_inLabel (inLabel_of_inDottedName word)) fun mem => ?_).append
    front
  have other := List.all_eq_true.1 apart c mem
  rw [word] at other
  cases other

/-! ### Balance -/

theorem balanced_of_trim (h : Balanced (Text.trim t)) : Balanced t := by
  obtain ⟨front, back, before, behind, eq⟩ := Text.exists_blanks_trim t
  rw [eq]
  exact ((balanced_of_blanks before).append h).append (balanced_of_blanks behind)

theorem balanced_flatMap {members : List MemberText} (h : ∀ m ∈ members, Balanced m.text) :
    Balanced (members.flatMap MemberText.text) := by
  induction members with
  | nil => rfl
  | cons m members ih =>
    rw [List.flatMap_cons]
    exact (h m List.mem_cons_self).append (ih fun o mem => h o (List.mem_cons_of_mem _ mem))

theorem MemberText.balanced {m : MemberText} (key : Balanced m.key) (type : Balanced m.type)
    (known : ∀ c ∈ m.mark, c ∈ [';', ',']) : Balanced m.text := by
  have colon : Balanced [':'] := by decide
  have behind : Balanced m.mark.toList := balanced_of_isPlain fun c mem => by
    have plain : [';', ','].all isPlain := by decide
    exact List.all_eq_true.1 plain c (known c (Option.mem_toList.1 mem))
  exact key.append (colon.append (type.append behind))

/-- The last character of a list is that of its last piece. -/
theorem exists_getLast?_intercalate {pieces : List (List Char)} (filled : pieces ≠ [])
    (h : ∀ p ∈ pieces, ∃ c, p.getLast? = some c ∧ c ≠ '=') :
    ∃ c, (List.intercalate [','] pieces).getLast? = some c ∧ c ≠ '=' := by
  induction pieces with
  | nil => exact absurd rfl filled
  | cons p pieces ih =>
    cases pieces with
    | nil =>
      rw [List.intercalate_singleton]
      exact h p List.mem_cons_self
    | cons q pieces =>
      obtain ⟨c, last, other⟩ := ih (List.cons_ne_nil _ _) fun o mem => h o (List.mem_cons_of_mem _ mem)
      refine ⟨c, ?_, other⟩
      rw [List.intercalate_cons_cons, List.getLast?_append, last]
      rfl

theorem Complete.last_of_trim (h : Complete (Text.trim t)) : ∃ c, t.getLast? = some c ∧ c ≠ '=' := by
  obtain ⟨front, back, _, behind, eq⟩ := Text.exists_blanks_trim t
  obtain ⟨c, last, _, other⟩ := h.last
  cases ending : back.getLast? with
  | none =>
    rw [List.getLast?_eq_none_iff.1 ending, List.append_nil] at eq
    exact ⟨c, by rw [eq, List.getLast?_append, last]; rfl, other⟩
  | some d =>
    refine ⟨d, by rw [eq, List.getLast?_append, ending]; rfl, ?_⟩
    rintro rfl
    exact absurd (behind '=' (List.mem_of_getLast? ending)) (by decide)

/-! ### Passing over a text -/

/-- An annotation goes on over a text that has neither `;` nor `{` outside of its brackets. -/
theorem annotationFrom_append {depth : Nat} (balanced : balances (before.head?.getD noChar) depth t)
    (free : avoids (fun c _ => afterSignature.contains c) (before.head?.getD noChar) depth t)
    (rest : List Char) :
    annotationFrom before depth (t ++ rest) =
      Prod.map (t ++ ·) id (annotationFrom (t.reverse ++ before) 0 rest) := by
  induction t generalizing before depth with
  | nil =>
    rw [balances, beq_iff_eq] at balanced
    rw [balanced]
    rfl
  | cons c t ih =>
    obtain ⟨here, later⟩ := avoids_cons.1 free
    have goesOn : ¬(depth == 0 && (c == ';' || (c == '{' && !awaitsType before))) = true := by
      intro ends
      rw [Bool.and_eq_true, beq_iff_eq, Bool.or_eq_true, Bool.and_eq_true, beq_iff_eq, beq_iff_eq] at ends
      refine here ⟨ends.1, ?_⟩
      rcases ends.2 with rfl | ⟨rfl, _⟩ <;> rfl
    rw [List.cons_append, annotationFrom, if_neg goesOn,
      @ih (c :: before) _ (balances_cons.1 balanced).2 later, List.reverse_cons, List.append_assoc]
    rfl

/-- The scan for the end of an annotation passes over the text. -/
def Crosses (before t : List Char) : Prop :=
  ∀ rest, annotationFrom before 0 (t ++ rest) =
    Prod.map (t ++ ·) id (annotationFrom (t.reverse ++ before) 0 rest)

theorem Crosses.append (ha : Crosses before a) (hb : Crosses (a.reverse ++ before) b) :
    Crosses before (a ++ b) := by
  intro rest
  rw [List.append_assoc, ha, hb, List.reverse_append, List.append_assoc, Prod.map_map]
  congr 1
  funext piece
  exact (List.append_assoc a b piece).symm

theorem crosses_of_avoids (balanced : Balanced t)
    (free : avoids (fun c _ => afterSignature.contains c) noChar 0 t) : Crosses before t :=
  annotationFrom_append (balanced.balances _) ((avoids_zero _ noChar).trans free)

theorem crosses_of_forall (h : ∀ c ∈ t, isPlain c ∧ c ≠ ';') : Crosses before t := by
  refine crosses_of_avoids (balanced_of_isPlain fun c mem => (h c mem).1) ?_
  refine avoids_of_forall fun c mem _ => ?_
  obtain ⟨plain, other⟩ := h c mem
  have brace : c ≠ '{' := by
    rintro rfl
    exact absurd plain (by decide)
  simp [afterSignature, other, brace]

theorem crosses_of_blanks (h : ∀ c ∈ t, Text.isBlank c) : Crosses before t :=
  crosses_of_forall fun c mem => ⟨isPlain_of_isBlank (h c mem), by
    rintro rfl
    exact absurd (h _ mem) (by decide)⟩

theorem awaitsType_blanks (h : ∀ c ∈ t, Text.isBlank c) (before : List Char) :
    awaitsType (t.reverse ++ before) = awaitsType before := by
  rw [awaitsType, List.dropWhile_append_of_pos fun c mem => h c (List.mem_reverse.1 mem)]
  rfl

/-! ### Brackets -/

/-- A balanced text between a bracket and the one that closes it. -/
structure Encloses (left : Char) (t : List Char) (right : Char) : Prop where
  opening : opens left
  inner : Balanced t
  closing : closes (t.getLastD left) right

theorem Encloses.balanced {left right : Char} (h : Encloses left t right) :
    Balanced (enclosed left t right) :=
  h.inner.bracket h.opening h.closing

/-- A bracket is passed with what it encloses; a `{` only where a type is to come. -/
theorem Encloses.crosses {left right : Char} (h : Encloses left t right)
    (awaited : left = '{' → awaitsType before) : Crosses before (enclosed left t right) := by
  intro rest
  have goesOn : ¬((0 : Nat) == 0 && (left == ';' || (left == '{' && !awaitsType before))) = true := by
    intro ends
    simp only [beq_self_eq_true, Bool.true_and, Bool.or_eq_true, Bool.and_eq_true, beq_iff_eq,
      Bool.not_eq_true'] at ends
    rcases ends with rfl | ⟨brace, no⟩
    · exact absurd h.opening (by decide)
    · rw [awaited brace] at no
      cases no
  have inside := (balances_cons.1 h.balanced).2
  rw [nesting_of_opens h.opening] at inside
  have further : avoids (fun c _ => afterSignature.contains c) left 1 (t ++ [right]) :=
    avoids_inside (h.inner.balances left) right
  rw [enclosed, List.cons_append, annotationFrom, if_neg goesOn, nesting_of_opens h.opening,
    @annotationFrom_append _ (left :: before) _ inside further, List.reverse_cons, List.append_assoc]
  rfl

/-! ### Passing over a type -/

/-- The text begins with a character that is no blank. -/
def Begins (t : List Char) : Prop := ∃ c, t.head? = some c ∧ Text.isBlank c = false

theorem Begins.append (h : Begins a) (b : List Char) : Begins (a ++ b) := by
  obtain ⟨c, first, ink⟩ := h
  exact ⟨c, by rw [List.head?_append, first]; rfl, ink⟩

theorem begins_enclosed {left : Char} (opening : opens left) (t : List Char) (right : Char) :
    Begins (enclosed left t right) := by
  simp only [opens, Bool.or_eq_true, beq_iff_eq] at opening
  refine ⟨left, rfl, ?_⟩
  rcases opening with ((rfl | rfl) | rfl) | rfl <;> rfl

/-- The text can stand where a type is to come: it is passed as a whole, and none is to come behind. -/
structure Operand (t : List Char) : Prop where
  begins : Begins t
  complete : Complete t
  balanced : Balanced t
  crosses : ∀ before, awaitsType before → Crosses before t

theorem Operand.trim (h : Operand t) : Text.trim t = t := by
  obtain ⟨c, first, front⟩ := h.begins
  obtain ⟨d, last, back, _⟩ := h.complete.last
  rw [Text.trim_eq_self_iff, first, last]
  exact ⟨by simpa using front, by simpa using back⟩

theorem IsDotted.operand (h : IsDotted t) : Operand t := by
  have label : ∀ c ∈ t, inLabel c := fun c mem => inLabel_of_inDottedName (h.forall_inDottedName c mem)
  refine ⟨?_, h.complete, balanced_of_isPlain fun c mem => isPlain_of_inLabel (label c mem), ?_⟩
  · obtain ⟨c, cs, rfl⟩ := List.exists_cons_of_ne_nil h.ne_nil
    exact ⟨c, rfl, not_isBlank_of_inLabel (label c List.mem_cons_self)⟩
  · refine fun before _ => crosses_of_forall fun c mem => ⟨isPlain_of_inLabel (label c mem), ?_⟩
    rintro rfl
    exact absurd (label _ mem) (by decide)

theorem Encloses.operand {left right : Char} (h : Encloses left t right)
    (complete : Complete (enclosed left t right)) : Operand (enclosed left t right) :=
  ⟨begins_enclosed h.opening t right, complete, h.balanced,
    fun _ awaited => h.crosses fun _ => awaited⟩

/-- Other brackets than braces may follow it, -/
theorem Operand.suffix {gap inner : List Char} {left right : Char} (h : Operand t)
    (blank : ∀ c ∈ gap, Text.isBlank c) (inside : Encloses left inner right) (other : left ≠ '{')
    (complete : Complete (enclosed left inner right)) :
    Operand (t ++ gap ++ enclosed left inner right) := by
  refine ⟨(h.begins.append gap).append _, complete.append _,
    (h.balanced.append (balanced_of_blanks blank)).append inside.balanced, fun before awaited => ?_⟩
  exact ((h.crosses before awaited).append (crosses_of_blanks blank)).append
    (inside.crosses fun brace => absurd brace other)

/-- and what may stand in front of it is a text that ends in a mark behind which a type is to come. -/
theorem Operand.behind {gap mark after front : List Char} (h : Operand t) (begins : Begins front)
    (balanced : Balanced front) (crosses : ∀ before, awaitsType before → Crosses before front)
    (known : mark ∈ [['=', '>'], ['|'], ['&']]) (blank : ∀ c ∈ gap, Text.isBlank c)
    (blank' : ∀ c ∈ after, Text.isBlank c) : Operand (front ++ gap ++ mark ++ after ++ t) := by
  have marks : ∀ m ∈ [['=', '>'], ['|'], ['&']], Balanced m ∧
      avoids (fun c _ => afterSignature.contains c) noChar 0 m := by decide
  obtain ⟨ofMark, free⟩ := marks mark known
  have awaits : ∀ before, awaitsType (mark.reverse ++ before) := by
    intro before
    simp only [List.mem_cons, List.not_mem_nil, or_false] at known
    rcases known with rfl | rfl | rfl <;> rfl
  have whole := ((balanced.append (balanced_of_blanks blank)).append ofMark).append
    (balanced_of_blanks blank')
  refine ⟨(((begins.append gap).append mark).append after).append t, h.complete.append _,
    whole.append h.balanced, fun before awaited => ?_⟩
  have passed := (((crosses before awaited).append (crosses_of_blanks blank)).append
    (crosses_of_avoids ofMark free)).append (crosses_of_blanks blank')
  refine passed.append (h.crosses _ ?_)
  rw [List.reverse_append, List.reverse_append, List.append_assoc, awaitsType_blanks blank',
    List.append_assoc]
  exact awaits _

theorem TypeText.operand (h : TypeText t) : Operand t := by
  have comma : Balanced [','] := by decide
  induction h with
  | name dotted => exact dotted.operand
  | @generic t gap arguments dotted blank filled types ih =>
    obtain ⟨c, last, other⟩ :=
      exists_getLast?_intercalate filled fun a mem => (ih a mem).complete.last_of_trim
    have inner := balanced_intercalate comma fun a mem => balanced_of_trim (ih a mem).balanced
    have closing : closes ((List.intercalate [','] arguments).getLastD '<') '>' := by
      rw [List.getLastD_eq_getLast?, last]
      simp [closes, other]
    exact dotted.operand.suffix blank ⟨rfl, inner, closing⟩ (by decide) (complete_angles last other _)
  | @array t gap inner element blank nothing ih =>
    exact ih.suffix blank ⟨rfl, balanced_of_blanks nothing, rfl⟩ (by decide)
      (complete_enclosed '[' (by decide) inner)
  | tuple types blank ih =>
    have inner := balanced_intercalate comma fun e mem => balanced_of_trim (ih e mem).balanced
    exact Encloses.operand ⟨rfl, inner.append (balanced_of_blanks blank), rfl⟩
      (complete_enclosed '[' (by decide) _)
  | parentheses inner ih =>
    exact Encloses.operand ⟨rfl, balanced_of_trim ih.balanced, rfl⟩ (complete_enclosed '(' (by decide) _)
  | object keys types marks apart blank ih =>
    have inner := balanced_flatMap fun m mem =>
      MemberText.balanced (keys m mem) (balanced_of_trim (ih m mem).balanced) (marks m mem)
    exact Encloses.operand ⟨rfl, inner.append (balanced_of_blanks blank), rfl⟩
      (complete_enclosed '{' (by decide) _)
  | @arrow parameters gap after result balanced blank blank' type ih =>
    have list : Encloses '(' parameters ')' := ⟨rfl, balanced, rfl⟩
    exact ih.behind (begins_enclosed rfl _ _) list.balanced
      (fun _ _ => list.crosses fun brace => absurd brace (by decide)) (by decide) blank blank'
  | joined known first blank blank' second ihFirst ihSecond =>
    exact ihSecond.behind ihFirst.begins ihFirst.balanced ihFirst.crosses (by simpa using known)
      blank blank'

/-! ### The annotation -/

/-- Behind a signature follows, blanks apart, nothing or one of the marks that end it. -/
def EndsSignature (t : List Char) : Prop := ∀ c ∈ (Text.trimStart t).head?, c ∈ afterSignature

instance : Decidable (EndsSignature t) :=
  decidable_of_iff ((Text.trimStart t).head?.all afterSignature.contains) <| by
    rw [EndsSignature]
    cases (Text.trimStart t).head? <;> simp

/-- It may be a body with anything in it. -/
example (body : List Char) : EndsSignature (' ' :: '{' :: body) := by
  rintro c ⟨⟩
  decide

variable {ending : List Char}

/-- Where no type is to come, the annotation ends before that. -/
theorem annotationFrom_ending (h : EndsSignature ending) (settled : awaitsType before = false) :
    (annotationFrom before 0 ending).1 = ending.takeWhile Text.isBlank := by
  have blank : ∀ c ∈ ending.takeWhile Text.isBlank, Text.isBlank c :=
    List.all_eq_true.1 List.all_takeWhile
  have crosses : Crosses before (ending.takeWhile Text.isBlank) := crosses_of_blanks blank
  have passed := crosses (ending.dropWhile Text.isBlank)
  rw [List.takeWhile_append_dropWhile] at passed
  rw [passed]
  have rest : (annotationFrom ((ending.takeWhile Text.isBlank).reverse ++ before) 0
      (ending.dropWhile Text.isBlank)).1 = [] := by
    cases front : ending.dropWhile Text.isBlank with
    | nil => rfl
    | cons c cs =>
      have mark : c ∈ afterSignature := h c (by rw [Text.trimStart, front]; rfl)
      have unawaited := (awaitsType_blanks blank before).trans settled
      have stops : ((0 : Nat) == 0 && (c == ';' || (c == '{' &&
          !awaitsType ((ending.takeWhile Text.isBlank).reverse ++ before)))) = true := by
        rw [unawaited]
        simpa [afterSignature] using mark
      rw [annotationFrom, if_pos stops]
  simp [rest]

/-- The type behind a parameter list is read as it was written, -/
theorem splitReturnType_of_typeText (h : TypeText t) (ends : EndsSignature ending) :
    (splitReturnType ([':', ' '] ++ t ++ ending)).1 = some t := by
  have operand := h.operand
  have gap : ∀ c ∈ ending.takeWhile Text.isBlank, Text.isBlank c :=
    List.all_eq_true.1 List.all_takeWhile
  have space : Crosses [] [' '] := crosses_of_blanks Text.isBlank_of_mem_space
  have passed := space.append (operand.crosses _ rfl) ending
  have settled : awaitsType (([' '] ++ t).reverse ++ []) = false := by
    rw [List.reverse_append, List.append_assoc]
    exact operand.complete.settled _
  have read : Text.trim (annotationFrom [] 0 ([' '] ++ t ++ ending)).1 = t := by
    rw [passed, Prod.map_fst, annotationFrom_ending ends settled, Text.trim_append_blanks gap,
      Text.trim_blanks_append Text.isBlank_of_mem_space, operand.trim]
  have filled : t.isEmpty = false := by
    obtain ⟨c, first, _⟩ := operand.begins
    cases t with
    | nil => cases first
    | cons => rfl
  have front : Text.trimStart ([':', ' '] ++ t ++ ending) = ':' :: ([' '] ++ t ++ ending) := rfl
  rw [splitReturnType, front]
  simp only [read, filled, Bool.false_eq_true, if_false]

/-- and where there is none, none is read. -/
theorem splitReturnType_of_endsSignature (ends : EndsSignature ending) :
    splitReturnType ending = (none, ending) := by
  rw [splitReturnType]
  split
  · rename_i annotation front
    have mark := ends ':' (by rw [front]; rfl)
    exact absurd mark (by decide)
  · rfl

end SourceAtlas.Source
