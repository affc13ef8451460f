import Mathlib.Data.List.Basic
import SourceAtlas.Proofs.Source.Bracket
/-!
Texts with balanced brackets, put together. Such a text leads from any depth back to it, so a text made
of balanced ones is balanced, and a scan for a mark that stands outside of all brackets passes it
unless the mark stands outside of its own ones.
-/

namespace SourceAtlas.Source

variable {prev c : Char} {depth : Nat} {a b t : List Char}

/-! ### One character -/

/-- The character opens a bracket. -/
def opens (c : Char) : Bool := c == '(' || c == '[' || c == '{' || c == '<'

/-- The character is no bracket, whatever stands before it. -/
def isPlain (c : Char) : Bool := !opens c && !closes noChar c

theorem nesting_eq (prev c : Char) (depth : Nat) : nesting prev c depth =
    if opens c then depth + 1 else if closes prev c then depth - 1 else depth := by
  simp only [nesting, opens, closes, Bool.or_eq_true (_ || _) (_ && _)]
  split_ifs <;> tauto

theorem not_closes_of_opens (h : opens c) : closes prev c = false := by
  simp only [opens, Bool.or_eq_true, beq_iff_eq] at h
  rcases h with ((rfl | rfl) | rfl) | rfl <;> rfl

theorem not_closes_of_isPlain (h : isPlain c) : closes prev c = false := by
  rw [isPlain, Bool.and_eq_true, Bool.not_eq_true', Bool.not_eq_true'] at h
  have other := h.2
  simp only [closes, noChar, Bool.or_eq_false_iff] at other ⊢
  exact ⟨other.1, by simpa using fun same => absurd same (by simpa using other.2)⟩

theorem nesting_of_opens (h : opens c) : nesting prev c depth = depth + 1 := by
  rw [nesting_eq, if_pos h]

theorem nesting_of_isPlain (h : isPlain c) : nesting prev c depth = depth := by
  have closing : closes prev c = false := not_closes_of_isPlain h
  rw [isPlain, Bool.and_eq_true, Bool.not_eq_true'] at h
  simp [nesting_eq, h.1, closing]

/-- Outside of brackets it plays no part what stands before a character. -/
theorem nesting_zero (prev other c : Char) : nesting prev c 0 = nesting other c 0 := by
  simp [nesting_eq]

/-- Further brackets around a bracket do not matter, if it closes one that is open. -/
theorem nesting_add (h : closes prev c → 0 < depth) (around : Nat) :
    nesting prev c (depth + around) = nesting prev c depth + around := by
  simp only [nesting_eq]
  split_ifs with opening closing
  · omega
  · have inside := h closing
    omega
  · rfl

/-! ### Balanced texts -/

theorem balances_cons : balances prev depth (c :: t) ↔
    (closes prev c → 0 < depth) ∧ balances c (nesting prev c depth) t := by
  rw [balances, Bool.and_eq_true, Bool.or_eq_true, Bool.not_eq_true', decide_eq_true_eq,
    ← Bool.not_eq_true, imp_iff_not_or]

/-- Behind a text that closes what is open the brackets around it are left. -/
theorem balances_append (h : balances prev depth a) (around : Nat) (b : List Char) :
    balances prev (depth + around) (a ++ b) = balances (a.getLastD prev) around b := by
  induction a generalizing prev depth with
  | nil =>
    rw [balances, beq_iff_eq] at h
    rw [h, Nat.zero_add]
    rfl
  | cons c a ih =>
    obtain ⟨inside, rest⟩ := balances_cons.1 h
    have here : (!closes prev c || decide (0 < depth + around)) = true := by
      by_cases closing : closes prev c
      · have open_ := inside closing
        simp only [decide_eq_true (show 0 < depth + around by omega), Bool.or_true]
      · simp [closing]
    rw [List.getLastD_cons, ← ih rest, ← nesting_add inside, List.cons_append, balances, here,
      Bool.true_and]

/-- The brackets of a text are balanced. -/
def Balanced (t : List Char) : Prop := balances noChar 0 t

instance : Decidable (Balanced t) := inferInstanceAs (Decidable (_ = _))

/-- They are so wherever the text stands. -/
theorem Balanced.balances (h : Balanced t) (prev : Char) : balances prev 0 t := by
  cases t with
  | nil => rfl
  | cons c t =>
    obtain ⟨inside, rest⟩ := balances_cons.1 h
    rw [nesting_zero noChar prev] at rest
    refine balances_cons.2 ⟨fun closing => inside ?_, rest⟩
    rw [closes, Bool.or_eq_true, Bool.and_eq_true] at closing ⊢
    exact closing.imp_right fun angle => ⟨angle.1, rfl⟩

theorem Balanced.append (ha : Balanced a) (hb : Balanced b) : Balanced (a ++ b) := by
  have whole := balances_append ha 0 b
  exact whole.trans (hb.balances _)

theorem balanced_intercalate {sep : List Char} {parts : List (List Char)} (between : Balanced sep)
    (h : ∀ t ∈ parts, Balanced t) : Balanced (List.intercalate sep parts) := by
  induction parts with
  | nil => rfl
  | cons t parts ih =>
    have first := h t List.mem_cons_self
    have later := ih fun u mem => h u (List.mem_cons_of_mem _ mem)
    cases parts with
    | nil =>
      rw [List.intercalate_singleton]
      exact first
    | cons next parts =>
      rw [List.intercalate_cons_cons]
      exact (first.append between).append later

theorem balanced_of_isPlain (h : ∀ c ∈ t, isPlain c) : Balanced t := by
  have any : ∀ prev, balances prev 0 t := by
    induction t with
    | nil => exact fun _ => rfl
    | cons c t ih =>
      intro prev
      have plain := h c List.mem_cons_self
      refine balances_cons.2 ⟨fun closing => ?_, ?_⟩
      · rw [not_closes_of_isPlain plain] at closing
        cases closing
      · rw [nesting_of_isPlain plain]
        exact ih (fun d mem => h d (List.mem_cons_of_mem _ mem)) c
  exact any noChar

/-- A balanced text in brackets. -/
theorem Balanced.bracket {left right : Char} (h : Balanced t) (opening : opens left)
    (closing : closes (t.getLastD left) right) : Balanced (left :: (t ++ [right])) := by
  refine balances_cons.2 ⟨fun other => ?_, ?_⟩
  · rw [not_closes_of_opens opening] at other
    cases other
  · have inner := balances_append (h.balances left) 1 [right]
    rw [nesting_of_opens opening, inner]
    refine balances_cons.2 ⟨fun _ => Nat.one_pos, ?_⟩
    have other : ¬opens right := fun opening => by
      rw [not_closes_of_opens opening] at closing
      cases closing
    rw [nesting_eq, if_neg other, if_pos closing]
    rfl

/-! ### Marks outside of brackets -/

/-- In a text that is read at a depth, no character outside of all brackets is one of these, as told
by itself and the one behind it. -/
def avoids (mark : Char → Option Char → Bool) : (prev : Char) → (depth : Nat) → List Char → Bool
  | _, _, [] => true
  | prev, depth, c :: cs =>
    !(depth == 0 && mark c cs.head?) && avoids mark c (nesting prev c depth) cs

variable {mark : Char → Option Char → Bool}

theorem avoids_cons : avoids mark prev depth (c :: t) ↔
    ¬(depth = 0 ∧ mark c t.head?) ∧ avoids mark c (nesting prev c depth) t := by
  rw [avoids, Bool.and_eq_true, Bool.not_eq_true', ← Bool.not_eq_true, Bool.and_eq_true, beq_iff_eq]

/-- What stands before the text plays no part. -/
theorem avoids_zero (prev other : Char) : avoids mark prev 0 t = avoids mark other 0 t := by
  cases t with
  | nil => rfl
  | cons c t => rw [avoids, avoids, nesting_zero prev other]

theorem avoids_of_forall (h : ∀ c ∈ t, ∀ next, mark c next = false) : avoids mark prev depth t := by
  induction t generalizing prev depth with
  | nil => rfl
  | cons c t ih =>
    refine avoids_cons.2 ⟨fun stops => ?_, ih fun d mem => h d (List.mem_cons_of_mem _ mem)⟩
    rw [h c List.mem_cons_self] at stops
    cases stops.2

/-- Inside of a bracket, up to the one that closes it, none stands outside of all brackets. -/
theorem avoids_inside (h : balances prev depth t) (right : Char) :
    avoids mark prev (depth + 1) (t ++ [right]) := by
  induction t generalizing prev depth with
  | nil => exact avoids_cons.2 ⟨fun marked => Nat.succ_ne_zero _ marked.1, rfl⟩
  | cons c t ih =>
    obtain ⟨inside, later⟩ := balances_cons.1 h
    refine avoids_cons.2 ⟨fun marked => Nat.succ_ne_zero _ marked.1, ?_⟩
    rw [nesting_add inside]
    exact ih later

/-- The text has no such character outside of its brackets. -/
def Lacks (sep : Char) (t : List Char) : Prop := avoids (fun c _ => c == sep) noChar 0 t

instance {sep : Char} : Decidable (Lacks sep t) := inferInstanceAs (Decidable (_ = _))

variable {sep : Char}

theorem lacks_of_not_mem (h : sep ∉ t) : Lacks sep t :=
  avoids_of_forall fun _ mem _ => beq_false_of_ne fun same => h (same ▸ mem)

theorem avoids_of_lacks (h : Lacks sep t) (prev : Char) : avoids (fun c _ => c == sep) prev 0 t :=
  (avoids_zero prev noChar).trans h

/-- Behind a text without such characters, marked or not, none is found but in the rest. -/
theorem avoids_append {any : Char → Bool} (covers : ∀ c next, mark c next → any c)
    (balanced : balances prev depth a) (ha : avoids (fun c _ => any c) prev depth a)
    (hb : avoids mark noChar 0 b) : avoids mark prev depth (a ++ b) := by
  induction a generalizing prev depth with
  | nil =>
    rw [balances, beq_iff_eq] at balanced
    rw [balanced, List.nil_append, avoids_zero prev noChar]
    exact hb
  | cons c a ih =>
    obtain ⟨here, later⟩ := avoids_cons.1 ha
    refine avoids_cons.2 ⟨?_, ih (balances_cons.1 balanced).2 later⟩
    exact fun marked => here ⟨marked.1, covers _ _ marked.2⟩

theorem Lacks.append (balanced : Balanced a) (ha : Lacks sep a) (hb : Lacks sep b) :
    Lacks sep (a ++ b) :=
  avoids_append (fun _ _ => id) balanced ha hb

/-! ### Cutting -/

theorem splitOutside_ne_nil (sep prev : Char) (depth : Nat) (t : List Char) :
    splitOutside sep prev depth t ≠ [] := by
  cases t with
  | nil => exact List.cons_ne_nil _ _
  | cons c t =>
    rw [splitOutside]
    split
    · exact List.cons_ne_nil _ _
    · split <;> exact List.cons_ne_nil _ _

/-- A balanced text without the separator stays in one piece. -/
theorem splitOutside_append (balanced : balances prev depth a)
    (free : avoids (fun c _ => c == sep) prev depth a) (b : List Char) :
    splitOutside sep prev depth (a ++ b) =
      (splitOutside sep (a.getLastD prev) 0 b).modifyHead (a ++ ·) := by
  induction a generalizing prev depth with
  | nil =>
    rw [balances, beq_iff_eq] at balanced
    rw [balanced]
    exact (congrFun List.modifyHead_id _).symm
  | cons c a ih =>
    obtain ⟨here, later⟩ := avoids_cons.1 free
    have goesOn : ¬(c == sep && depth == 0) = true := by
      rw [Bool.and_eq_true, beq_iff_eq (b := 0), and_comm]
      exact here
    rw [List.cons_append, splitOutside, if_neg goesOn, ih (balances_cons.1 balanced).2 later,
      List.getLastD_cons]
    obtain ⟨piece, pieces, eq⟩ :=
      List.exists_cons_of_ne_nil (splitOutside_ne_nil sep (a.getLastD c) 0 b)
    rw [eq]
    rfl

theorem splitOutside_sep (balanced : Balanced a) (free : Lacks sep a) (prev : Char) (b : List Char) :
    splitOutside sep prev 0 (a ++ sep :: b) = a :: splitOutside sep sep 0 b := by
  rw [splitOutside_append (balanced.balances prev) (avoids_of_lacks free prev), splitOutside]
  simp

theorem splitOutside_whole (balanced : Balanced a) (free : Lacks sep a) (prev : Char) :
    splitOutside sep prev 0 a = [a] := by
  have whole := splitOutside_append (balanced.balances prev) (avoids_of_lacks free prev) []
  rw [List.append_nil] at whole
  rw [whole, splitOutside]
  simp

end SourceAtlas.Source
