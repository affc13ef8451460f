import SourceAtlas.Source.Declaration
/-!
Balanced brackets. The scans of declarations carry the depth of open brackets and stop at a mark that
stands outside of them. Over a text whose brackets are balanced they pass without a stop, so a
parameter list ends at the `)` behind it, and what follows decides whether the line is a method.
-/

namespace SourceAtlas.Source

/-- The character closes a bracket. -/
def closes (prev c : Char) : Bool :=
  c == ')' || c == ']' || c == '}' || (c == '>' && prev != '=')

/-- The brackets of a text that is read at a depth close those that are open, and no others. -/
def balances : (prev : Char) → (depth : Nat) → List Char → Bool
  | _, depth, [] => depth == 0
  | prev, depth, c :: cs => (!closes prev c || 0 < depth) && balances c (nesting prev c depth) cs

/-- A balanced text is passed over up to the `)` behind it. -/
theorem closingFrom_append {prev : Char} {depth : Nat} {list tail : List Char}
    (h : balances prev depth list) :
    closingFrom prev depth (list ++ ')' :: tail) = some (list, tail) := by
  induction list generalizing prev depth with
  | nil =>
    rw [balances, beq_iff_eq] at h
    rw [List.nil_append, closingFrom, h]
    rfl
  | cons c cs ih =>
    rw [balances, Bool.and_eq_true] at h
    have goesOn : ¬(c == ')' && depth == 0) = true := by
      intro ends
      rw [Bool.and_eq_true, beq_iff_eq, beq_iff_eq] at ends
      have open_ := h.1
      rw [ends.1, ends.2] at open_
      simp [closes] at open_
    rw [List.cons_append, closingFrom, if_neg goesOn, ih h.2]
    rfl

/-- So a balanced list of parameters is split off as a whole. -/
theorem splitParameterList_append {list tail : List Char} (h : balances noChar 0 list) :
    splitParameterList (list ++ ')' :: tail) = (list, some tail) := by
  rw [splitParameterList, closingFrom_append h]

/-! ### Behind the parameters -/

/-- Behind the parameters stand, blanks apart, an annotation or the body. -/
def opensBody (tail : List Char) : Bool :=
  (Text.trimStart tail).head?.any [':', '\x7b'].contains

theorem head?_trimEnd {c : Char} {cs : List Char} (ink : Text.isBlank c = false) :
    (Text.trimEnd (c :: cs)).head? = some c := by
  rw [Text.trimEnd, List.head?_reverse, List.reverse_cons, List.dropWhile_append]
  split
  · rw [List.dropWhile_cons_of_neg (by simp [ink])]
    rfl
  · simp

/-- The marks that may follow the signature of a method. -/
def afterSignature : List Char := [';', '\x7b']

theorem ink_of_afterSignature {c : Char} (h : c ∈ afterSignature) : Text.isBlank c = false := by
  have all : afterSignature.all (!Text.isBlank ·) := by decide
  simpa using List.all_eq_true.1 all c h

theorem endsSignature_of_trimStart {t cs : List Char} {c : Char} (front : Text.trimStart t = c :: cs)
    (mark : c ∈ afterSignature) : SourceLine.endsSignature t := by
  rw [SourceLine.endsSignature, Text.trim, front, head?_trimEnd (ink_of_afterSignature mark)]
  simp only [afterSignature, List.mem_cons, List.not_mem_nil, or_false] at mark
  rcases mark with rfl | rfl <;> rfl

/-- An annotation goes on to the end of the line, or one of these marks follows it. -/
theorem rest_annotationFrom (before : List Char) (depth : Nat) (t : List Char) :
    (annotationFrom before depth t).2 = [] ∨
      ∃ c cs, (annotationFrom before depth t).2 = c :: cs ∧ c ∈ afterSignature := by
  induction t generalizing before depth with
  | nil => exact .inl rfl
  | cons c cs ih =>
    rw [annotationFrom]
    split
    · rename_i ends
      simp only [Bool.and_eq_true, Bool.or_eq_true, beq_iff_eq] at ends
      refine .inr ⟨c, cs, rfl, ?_⟩
      rcases ends.2 with rfl | ⟨rfl, _⟩ <;> decide
    · exact ih _ _

/-- With or without an annotation, what follows the signature is no reason against a method. -/
theorem endsSignature_of_opensBody {tail : List Char} (h : opensBody tail) :
    SourceLine.endsSignature (splitReturnType tail).2 := by
  rw [splitReturnType]
  split
  · rename_i annotation _
    simp only
    rcases rest_annotationFrom [] 0 annotation with none | ⟨c, cs, rest, mark⟩
    · rw [none]
      rfl
    · have front : Text.trimStart (c :: cs) = c :: cs :=
        List.dropWhile_cons_of_neg (by simp [ink_of_afterSignature mark])
      rw [rest]
      exact endsSignature_of_trimStart front mark
  · rename_i other
    cases front : Text.trimStart tail with
    | nil => simp [opensBody, front] at h
    | cons c cs =>
      have mark : c = ':' ∨ c = '\x7b' := by simpa [opensBody, front] using h
      rcases mark with rfl | rfl
      · exact absurd front (other cs)
      · exact endsSignature_of_trimStart front (by decide)

/-- A method with balanced parameters and something behind them that opens its body is found. -/
theorem SourceLine.method?_eq_some {l : SourceLine} {m : Match} {list tail : List Char}
    (found : methodRule.match? l.text = some m) (free : String.ofList (m.group 2) ∉ reservedWords)
    (rest : m.rest = list ++ ')' :: tail) (balanced : balances noChar 0 list) (body : opensBody tail) :
    ∃ s, l.method? = some s ∧ s.line = l.number ∧ s.name = .ofList (m.group 2) := by
  have accepted : ¬(reservedWords.contains (String.ofList (m.group 2)) ||
      !SourceLine.endsSignature (splitReturnType tail).2) = true := by
    simp [free, endsSignature_of_opensBody body]
  rw [method?, found, Option.bind_some, rest, splitParameterList_append balanced]
  simp only
  rw [if_neg accepted]
  exact ⟨_, rfl, rfl, rfl⟩

end SourceAtlas.Source
