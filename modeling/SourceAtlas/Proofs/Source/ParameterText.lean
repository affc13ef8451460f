import Mathlib.Algebra.BigOperators.Group.List.Basic
import SourceAtlas.Proofs.Source.Balance
import SourceAtlas.Proofs.Source.Extraction
import SourceAtlas.Proofs.Source.Rule
import SourceAtlas.Proofs.Text.Trim
/-!
Parameters as they are written. A list of parameters is cut at its commas, a parameter at the `=` of
its default, and what stands before that at the `:` of its type; each of the three scans passes over
the texts in between, as their brackets are balanced and the mark that it looks for stands in none of
them. So the parameters that a list was written from are read back from it. Modifiers in front of a
name are dropped, and a name that is itself one of their words is dropped with them if a blank follows
it, which is so before a default alone.
-/

namespace SourceAtlas.Source

/-! ### Names -/

/-- An identifier. -/
def IsName (t : List Char) : Prop := BeginsName t ∧ ∀ c ∈ t, continuesIdentifier c

instance {t : List Char} : Decidable (IsName t) :=
  decidable_of_iff (t.head?.any startsIdentifier ∧ t.all continuesIdentifier)
    (and_congr_right' List.all_eq_true)

theorem IsName.ne_nil {t : List Char} (h : IsName t) : t ≠ [] := by
  rintro rfl
  cases h.1

theorem headWord_append {a b : List Char} (letters : ∀ c ∈ a, continuesIdentifier c)
    (stop : ∀ c ∈ b.head?, continuesIdentifier c = false) : headWord (a ++ b) = a :=
  Text.takeWhile_append_stop letters stop

/-- The word may stand as a modifier before a name. -/
def IsModifier (word : List Char) : Prop := word ++ [' '] ∈ parameterModifiers

instance {word : List Char} : Decidable (IsModifier word) := inferInstanceAs (Decidable (_ ∈ _))

/-- A character of a name with the marks around it. -/
def inLabel (c : Char) : Bool := continuesIdentifier c || c == '.' || c == '?'

theorem isPlain_of_inLabel {c : Char} (h : inLabel c) : isPlain c := by
  have others : ['(', '[', '{', '<', ')', ']', '}', '>'].all (!inLabel ·) := by decide
  have apart : ∀ d ∈ ['(', '[', '{', '<', ')', ']', '}', '>'], (c == d) = false := fun d mem =>
    beq_false_of_ne fun same => by
      have other := List.all_eq_true.1 others d mem
      rw [← same, h] at other
      cases other
  simp only [List.forall_mem_cons] at apart
  simp [isPlain, opens, closes, apart]

theorem not_isBlank_of_inLabel {c : Char} (h : inLabel c) : Text.isBlank c = false := by
  by_contra blank
  rw [Bool.not_eq_false] at blank
  have marks : c = '.' ∨ c = '?' := by
    simpa [inLabel, not_continuesIdentifier_of_isBlank blank] using h
  rcases marks with rfl | rfl <;> exact absurd blank (by decide)

theorem isPlain_of_isBlank {c : Char} (h : Text.isBlank c) : isPlain c := by
  have all : ∀ n ∈ Text.blankCodes, isPlain (Char.ofNat n) := by decide +kernel
  exact Text.of_isBlank isPlain all h

theorem balanced_of_blanks {t : List Char} (h : ∀ c ∈ t, Text.isBlank c) : Balanced t :=
  balanced_of_isPlain fun c mem => isPlain_of_isBlank (h c mem)

/-! ### Parts between commas -/

/-- A text that may stand between commas: it is not empty, neither begins nor ends with a blank, its
brackets are balanced, and no comma stands outside of them. -/
structure IsPart (t : List Char) : Prop where
  filled : t ≠ []
  trimmed : Text.trim t = t
  balanced : Balanced t
  single : Lacks ',' t

/-- An `=` that is no part of an arrow. -/
def bareEquals (c : Char) (next : Option Char) : Bool := c == '=' && next != some '>'

/-- A text that may stand as a type: no `:` begins it, and no `=` but that of an arrow stands outside
of its brackets. -/
structure IsType (t : List Char) : Prop extends IsPart t where
  noColon : t.head? ≠ some ':'
  noDefault : avoids bareEquals noChar 0 t

variable {a b t : List Char}

instance : Decidable (IsPart t) :=
  decidable_of_iff (t ≠ [] ∧ Text.trim t = t ∧ Balanced t ∧ Lacks ',' t)
    ⟨fun ⟨filled, trimmed, balanced, single⟩ => ⟨filled, trimmed, balanced, single⟩,
      fun h => ⟨h.filled, h.trimmed, h.balanced, h.single⟩⟩

instance : Decidable (IsType t) :=
  decidable_of_iff (IsPart t ∧ t.head? ≠ some ':' ∧ avoids bareEquals noChar 0 t)
    ⟨fun ⟨part, noColon, noDefault⟩ => ⟨part, noColon, noDefault⟩,
      fun h => ⟨h.toIsPart, h.noColon, h.noDefault⟩⟩

theorem isPart_of_inLabel (filled : t ≠ []) (h : ∀ c ∈ t, inLabel c) : IsPart t :=
  ⟨filled, Text.trim_eq_self_of_forall fun c mem => not_isBlank_of_inLabel (h c mem),
    balanced_of_isPlain fun c mem => isPlain_of_inLabel (h c mem),
    lacks_of_not_mem fun mem => absurd (h ',' mem) (by decide)⟩

theorem IsPart.join {middle : List Char} (ha : IsPart a) (hb : IsPart b) (balanced : Balanced middle)
    (single : Lacks ',' middle) : IsPart (a ++ middle ++ b) :=
  ⟨List.append_ne_nil_of_right_ne_nil _ hb.filled,
    Text.trim_enclosed ha.trimmed hb.trimmed ha.filled hb.filled middle,
    (ha.balanced.append balanced).append hb.balanced,
    (ha.single.append ha.balanced single).append (ha.balanced.append balanced) hb.single⟩

/-- Parts with commas and blanks between them are cut at the commas. -/
theorem map_trim_splitOutside {parts : List (List Char)} {gap : List Char} (filled : parts ≠ [])
    (h : ∀ t ∈ parts, IsPart t) (blank : ∀ c ∈ gap, Text.isBlank c) (prev : Char) :
    (splitOutside ',' prev 0 (List.intercalate [',', ' '] parts ++ gap)).map Text.trim = parts := by
  have behind : Balanced gap ∧ Lacks ',' gap :=
    ⟨balanced_of_blanks blank,
      lacks_of_not_mem fun mem => absurd (blank ',' mem) (by decide)⟩
  induction parts generalizing prev with
  | nil => exact absurd rfl filled
  | cons t parts ih =>
    have first := h t List.mem_cons_self
    cases parts with
    | nil =>
      rw [List.intercalate_singleton, splitOutside_whole (first.balanced.append behind.1)
        (first.single.append first.balanced behind.2), List.map_singleton,
        Text.trim_append_blanks blank, first.trimmed]
    | cons next parts =>
      have later := ih (List.cons_ne_nil _ _) (fun u mem => h u (List.mem_cons_of_mem _ mem)) ' '
      rw [List.intercalate_cons_cons, List.append_assoc, List.append_assoc, List.cons_append,
        splitOutside_sep first.balanced first.single,
        splitOutside_append (a := [' ']) (by decide) (by decide)]
      rw [List.getLastD_cons, List.getLastD_nil]
      obtain ⟨piece, pieces, eq⟩ := List.exists_cons_of_ne_nil (splitOutside_ne_nil ',' ' ' 0
        (List.intercalate [',', ' '] (next :: parts) ++ gap))
      rw [eq] at later ⊢
      rw [List.modifyHead_cons, List.map_cons, List.map_cons, Text.trim_blanks_append Text.isBlank_of_mem_space,
        ← List.map_cons, first.trimmed, later]

theorem parseParameters_intercalate {parts : List (List Char)} (h : ∀ t ∈ parts, IsPart t) :
    parseParameters (List.intercalate [',', ' '] parts) = parts.map parseParameter := by
  by_cases filled : parts = []
  · subst filled
    rfl
  · have pieces := map_trim_splitOutside filled h (List.forall_mem_nil _) noChar
    have kept : parts.filter (!·.isEmpty) = parts :=
      List.filter_eq_self.2 fun t mem => by simpa using (h t mem).filled
    rw [List.append_nil] at pieces
    rw [parseParameters, splitTop, pieces, kept]

/-! ### Modifiers -/

theorem dropDecorator_of_head? (h : t.head? ≠ some '@') : dropDecorator t = t := by
  rw [dropDecorator]
  split
  · rename_i m found
    obtain ⟨i, mark, _⟩ := Pattern.ends_of_match? found
    have begins : t = '@' :: i.after := mark.after_char
    exact absurd (congrArg List.head? begins) h
  · rfl

/-- Modifiers are dropped one after the other. -/
theorem dropModifiers_append {m : List Char} (mem : m ∈ parameterModifiers)
    (ink : ∀ c ∈ t.head?, Text.isBlank c = false) (fuel : Nat) :
    dropModifiers (fuel + 1) (m ++ t) = dropModifiers fuel t := by
  have found : (parameterModifiers.findSome? fun w => Text.stripPrefix? w (m ++ t)) = some t := by
    rw [parameterModifiers, List.mem_map] at mem
    obtain ⟨w, mem, rfl⟩ := mem
    simp only [List.mem_cons, List.not_mem_nil, or_false] at mem
    rcases mem with rfl | rfl | rfl | rfl | rfl <;> rfl
  rw [dropModifiers, found]
  exact congrArg _ (Text.trimStart_eq_self_iff.2 ink)

variable {modifiers : List (List Char)}

/-- A text behind modifiers begins as it would without them, or with a letter. -/
theorem head?_behind_modifiers (known : ∀ m ∈ modifiers, m ∈ parameterModifiers) (t : List Char) :
    (modifiers.flatten ++ t).head? = t.head? ∨
      ∃ c, (modifiers.flatten ++ t).head? = some c ∧ inLabel c := by
  have letter : ∀ m ∈ parameterModifiers, m.head?.any inLabel := by decide
  cases modifiers with
  | nil => exact .inl rfl
  | cons m modifiers =>
    have first := letter m (known m List.mem_cons_self)
    cases m with
    | nil => cases first
    | cons c m => exact .inr ⟨c, rfl, first⟩

theorem dropModifiers_flatten (known : ∀ m ∈ modifiers, m ∈ parameterModifiers)
    (ink : ∀ c ∈ t.head?, Text.isBlank c = false) (fuel : Nat) :
    dropModifiers (modifiers.length + fuel) (modifiers.flatten ++ t) = dropModifiers fuel t := by
  induction modifiers with
  | nil => rw [List.length_nil, Nat.zero_add, List.flatten_nil, List.nil_append]
  | cons m modifiers ih =>
    have others : ∀ w ∈ modifiers, w ∈ parameterModifiers := fun w mem =>
      known w (List.mem_cons_of_mem _ mem)
    have next : ∀ c ∈ (modifiers.flatten ++ t).head?, Text.isBlank c = false := by
      rcases head?_behind_modifiers others t with same | ⟨d, eq, letter⟩
      · rw [same]
        exact ink
      · rw [eq]
        rintro c ⟨⟩
        exact not_isBlank_of_inLabel letter
    rw [List.length_cons, Nat.add_right_comm, List.flatten_cons, List.append_assoc,
      dropModifiers_append (known m List.mem_cons_self) next, ih others]

/-- Nothing is dropped from a text that no modifier begins. -/
theorem dropModifiers_of_forall (h : ∀ m ∈ parameterModifiers, ¬m <+: t) (fuel : Nat) :
    dropModifiers fuel t = t := by
  cases fuel with
  | zero => rfl
  | succ fuel =>
    have none : (parameterModifiers.findSome? fun m => Text.stripPrefix? m t) = none := by
      rw [List.findSome?_eq_none_iff]
      intro m mem
      refine Option.eq_none_iff_forall_ne_some.2 fun rest stripped => h m mem ?_
      exact ⟨rest, (Text.eq_append_of_stripPrefix? stripped).symm⟩
    rw [dropModifiers, none]

/-- All modifiers in front of a text are dropped, and no more than they. -/
theorem dropModifiers_dropDecorator (known : ∀ m ∈ modifiers, m ∈ parameterModifiers)
    (ink : ∀ c ∈ t.head?, Text.isBlank c = false) (noDecorator : t.head? ≠ some '@')
    (stops : ∀ m ∈ parameterModifiers, ¬m <+: t) :
    dropModifiers (modifiers.flatten ++ t).length (dropDecorator (modifiers.flatten ++ t)) = t := by
  have first : (modifiers.flatten ++ t).head? ≠ some '@' := by
    rcases head?_behind_modifiers known t with same | ⟨c, eq, letter⟩
    · rw [same]
      exact noDecorator
    · rw [eq]
      rintro ⟨⟩
      exact absurd letter (by decide)
  have filled : ∀ m ∈ parameterModifiers, 1 ≤ m.length := by decide
  have room : modifiers.length ≤ (modifiers.flatten ++ t).length := by
    rw [List.length_append, List.length_flatten, ← List.length_map (f := List.length)]
    refine Nat.le_add_right_of_le (List.length_le_sum_of_one_le _ fun n mem => ?_)
    obtain ⟨m, among, rfl⟩ := List.mem_map.1 mem
    exact filled m (known m among)
  rw [dropDecorator_of_head? first, ← Nat.add_sub_of_le room, dropModifiers_flatten known ink,
    dropModifiers_of_forall stops]

/-- Modifiers in front of a parameter make a part with it. -/
theorem IsPart.behind_modifiers (h : IsPart t) (known : ∀ m ∈ modifiers, m ∈ parameterModifiers) :
    IsPart (modifiers.flatten ++ t) := by
  have words : ∀ m ∈ parameterModifiers, m.dropLast ++ [' '] = m ∧ m.dropLast ≠ [] ∧
      m.dropLast.all inLabel := by decide
  induction modifiers with
  | nil => exact h
  | cons m modifiers ih =>
    obtain ⟨word, filled, letters⟩ := words m (known m List.mem_cons_self)
    have rest := ih fun w mem => known w (List.mem_cons_of_mem _ mem)
    rw [List.flatten_cons, List.append_assoc, ← word]
    exact (isPart_of_inLabel filled (List.all_eq_true.1 letters)).join rest (by decide) (by decide)

/-! ### Written parameters -/

/-- A parameter as it is written. -/
structure ParameterText where
  name : List Char
  isRest : Bool := false
  isOptional : Bool := false
  type : Option (List Char) := none
  default : Option (List Char) := none
  deriving DecidableEq, Repr

namespace ParameterText

/-- The name with the marks around it. -/
def label (p : ParameterText) : List Char :=
  (if p.isRest then ['.', '.', '.'] else []) ++ p.name ++ (if p.isOptional then ['?'] else [])

/-- What stands before a default. -/
def declaration (p : ParameterText) : List Char :=
  match p.type with
  | some t => p.label ++ [':', ' '] ++ t
  | none => p.label

/-- The whole parameter. -/
def text (p : ParameterText) : List Char :=
  match p.default with
  | some d => p.declaration ++ [' ', '=', ' '] ++ d
  | none => p.declaration

/-- The record of the parameter. -/
def parameter (p : ParameterText) : Parameter :=
  { name := .ofList p.name
    type := p.type.map .ofList
    isOptional := if p.isOptional then some true else none
    defaultValue := p.default.map .ofList }

/-- The texts of the parameter may stand where they do. -/
structure Plain (p : ParameterText) : Prop where
  name : IsName p.name
  type : ∀ t ∈ p.type, IsType t
  default : ∀ d ∈ p.default, IsPart d

variable {p : ParameterText}

instance : Decidable p.Plain :=
  decidable_of_iff (IsName p.name ∧ (∀ t ∈ p.type, IsType t) ∧ ∀ d ∈ p.default, IsPart d)
    ⟨fun ⟨name, type, default⟩ => ⟨name, type, default⟩, fun h => ⟨h.name, h.type, h.default⟩⟩

theorem Plain.inLabel (h : p.Plain) : ∀ c ∈ p.label, inLabel c := by
  intro c mem
  rw [label, List.mem_append, List.mem_append] at mem
  rcases mem with (dots | name) | mark
  · split at dots
    · rw [List.eq_of_mem_replicate (n := 3) dots]
      decide
    · cases dots
  · simp [Source.inLabel, h.name.2 c name]
  · split at mark
    · rw [List.mem_singleton.1 mark]
      decide
    · cases mark

theorem Plain.isPart_label (h : p.Plain) : IsPart p.label := by
  refine isPart_of_inLabel (fun empty => ?_) h.inLabel
  rw [label, List.append_eq_nil_iff, List.append_eq_nil_iff] at empty
  exact h.name.ne_nil empty.1.2

theorem Plain.isPart_declaration (h : p.Plain) : IsPart p.declaration := by
  rw [declaration]
  split
  · rename_i t type
    exact h.isPart_label.join (h.type t type).toIsPart (by decide) (by decide)
  · exact h.isPart_label

theorem Plain.isPart_text (h : p.Plain) : IsPart p.text := by
  rw [text]
  split
  · rename_i d default
    exact h.isPart_declaration.join (h.default d default) (by decide) (by decide)
  · exact h.isPart_declaration

/-! ### The default -/

theorem splitDefaultFrom_append {prev : Char} {depth : Nat} (balanced : balances prev depth a)
    (free : avoids bareEquals prev depth a) (b : List Char) :
    splitDefaultFrom prev depth (a ++ b) =
      Prod.map (a ++ ·) id (splitDefaultFrom (a.getLastD prev) 0 b) := by
  induction a generalizing prev depth with
  | nil =>
    rw [balances, beq_iff_eq] at balanced
    rw [balanced]
    rfl
  | cons c a ih =>
    obtain ⟨here, later⟩ := avoids_cons.1 free
    have goesOn : ¬(c == '=' && depth == 0 && beginsDefault prev (a ++ b).head?) = true := by
      intro ends
      simp only [Bool.and_eq_true, beq_iff_eq] at ends
      obtain ⟨⟨rfl, rfl⟩, begins⟩ := ends
      -- the `=` is followed by the `>` of its arrow, so no default begins with it
      have arrow : a.head? = some '>' := by simpa [bareEquals] using here
      obtain ⟨rest, rfl⟩ := List.head?_eq_some_iff.1 arrow
      simp [beginsDefault] at begins
    rw [List.cons_append, splitDefaultFrom, if_neg goesOn, ih (balances_cons.1 balanced).2 later,
      List.getLastD_cons]
    rfl

theorem Plain.noDefault (h : p.Plain) : avoids bareEquals noChar 0 p.declaration := by
  have covers : ∀ c next, bareEquals c next → (c == '=') := by
    intro c next both
    exact (Bool.and_eq_true_iff.1 both).1
  have label : Lacks '=' p.label := lacks_of_not_mem fun mem => absurd (h.inLabel _ mem) (by decide)
  have front : Balanced (p.label ++ [':', ' ']) := h.isPart_label.balanced.append (by decide)
  have free : Lacks '=' (p.label ++ [':', ' ']) := label.append h.isPart_label.balanced (by decide)
  rw [declaration]
  split
  · rename_i t type
    exact avoids_append covers front free (h.type t type).noDefault
  · rw [← List.append_nil p.label]
    exact avoids_append covers h.isPart_label.balanced label rfl

/-- The text is cut at the `=` of its default. -/
theorem Plain.splitDefault (h : p.Plain) :
    (fun cut => (Text.trim cut.1, cut.2.map Text.trim)) (splitDefaultFrom noChar 0 p.text) =
      (p.declaration, p.default) := by
  have passes := splitDefaultFrom_append h.isPart_declaration.balanced h.noDefault
  rw [text]
  split
  · rename_i d default
    have front : ∀ prev, splitDefaultFrom prev 0 (' ' :: '=' :: ' ' :: d) = ([' '], some (' ' :: d)) := by
      intro prev
      simp [splitDefaultFrom, nesting, beginsDefault]
    rw [List.append_assoc, passes]
    rw [show [' ', '=', ' '] ++ d = ' ' :: '=' :: ' ' :: d from rfl, front, default]
    have before := Text.trim_append_blanks (t := p.declaration) Text.isBlank_of_mem_space
    have behind := Text.trim_blanks_append (t := d) Text.isBlank_of_mem_space
    rw [h.isPart_declaration.trimmed] at before
    rw [List.singleton_append, (h.default d default).trimmed] at behind
    simp [before, behind]
  · rename_i default
    have whole := passes []
    rw [List.append_nil] at whole
    rw [whole, default]
    simp [splitDefaultFrom, h.isPart_declaration.trimmed]

/-! ### The type -/

theorem Plain.splitType (h : p.Plain) : splitType p.declaration = (p.label, p.type) := by
  have free : Lacks ':' p.label := lacks_of_not_mem fun mem => absurd (h.inLabel _ mem) (by decide)
  rw [declaration]
  split
  · rename_i t type
    have ofType := h.type t type
    have whole := Text.trim_blanks_append (t := t) Text.isBlank_of_mem_space
    rw [ofType.trimmed] at whole
    obtain ⟨c, cs, rfl⟩ := List.exists_cons_of_ne_nil ofType.filled
    have other : ¬(c == ':' && 0 == 0) = true := fun same =>
      ofType.noColon (congrArg some (eq_of_beq (Bool.and_eq_true_iff.1 same).1))
    -- something stands behind the first `:` and before the next one
    obtain ⟨piece, pieces, cut⟩ : ∃ piece pieces,
        splitOutside ':' ':' 0 ([' '] ++ c :: cs) = (' ' :: c :: piece) :: pieces := by
      obtain ⟨piece, pieces, eq⟩ :=
        List.exists_cons_of_ne_nil (splitOutside_ne_nil ':' c (nesting ' ' c 0) cs)
      refine ⟨piece, pieces, ?_⟩
      rw [splitOutside_append (by decide) (by decide), List.getLastD_cons, List.getLastD_nil,
        splitOutside, if_neg other, eq]
      rfl
    have filled : (Text.trim (' ' :: c :: piece)).isEmpty = false := by
      rw [← Bool.not_eq_true]
      intro empty
      have lost := Text.isBlank_of_trim empty (List.mem_cons_of_mem _ List.mem_cons_self)
      rw [(Text.trim_eq_self_iff.1 ofType.trimmed).1 c rfl] at lost
      cases lost
    have rest : (p.label ++ ':' :: ([' '] ++ c :: cs)).drop (p.label.length + 1) = [' '] ++ c :: cs := by
      simp
    rw [Source.splitType, splitTop, List.append_assoc, List.cons_append,
      splitOutside_sep h.isPart_label.balanced free, cut, type]
    simp only [filled, rest, whole, h.isPart_label.trimmed, Bool.false_eq_true, if_false]
  · rename_i type
    rw [Source.splitType, splitTop, splitOutside_whole h.isPart_label.balanced free, type]

/-! ### The name -/

theorem dropDots_of_head? {fuel : Nat} (h : t.head? ≠ some '.') : dropDots fuel t = t := by
  rw [dropDots]
  rintro fuel rest rfl rfl
  exact h rfl

/-- Without the dots in front, the label is the name and the mark behind it. -/
theorem Plain.dropDots (h : p.Plain) :
    dropDots p.label.length p.label = p.name ++ if p.isOptional then ['?'] else [] := by
  obtain ⟨c, cs, name⟩ := List.exists_cons_of_ne_nil h.name.ne_nil
  have starts : startsIdentifier c = true := by
    have begins := h.name.1
    rw [name] at begins
    exact begins
  have stop : (p.name ++ if p.isOptional then ['?'] else []).head? ≠ some '.' := by
    rw [name]
    rintro same
    rw [Option.some.inj same] at starts
    exact absurd starts (by decide)
  rw [label, List.append_assoc]
  split
  · exact dropDots_of_head? stop
  · exact dropDots_of_head? stop

theorem Plain.stripSuffix? (h : p.Plain) :
    Text.stripSuffix? ['?'] (p.name ++ if p.isOptional then ['?'] else []) =
      if p.isOptional then some p.name else none := by
  split
  · simp [Text.stripSuffix?, Text.stripPrefix?]
  · rw [List.append_nil, Text.stripSuffix?]
    obtain ⟨c, cs, back⟩ := List.exists_cons_of_ne_nil (mt List.reverse_eq_nil_iff.1 h.name.ne_nil)
    have word : continuesIdentifier c :=
      h.name.2 c (List.mem_reverse.1 (back ▸ List.mem_cons_self))
    have other : '?' ≠ c := by
      rintro rfl
      exact absurd word (by decide)
    rw [back]
    simp [Text.stripPrefix?, other]

/-- A parameter of which nothing was dropped but what stands in front of it is read as it was written. -/
theorem Plain.parseParameter_eq {raw : List Char} (h : p.Plain)
    (rest : dropModifiers raw.length (dropDecorator raw) = p.text) :
    parseParameter raw = p.parameter := by
  obtain ⟨declaration, default⟩ := Prod.mk.inj h.splitDefault
  have value : (splitDefaultFrom noChar 0 p.text).2.map (fun d => String.ofList (Text.trim d)) =
      p.default.map .ofList := by
    rw [← default, Option.map_map]
    rfl
  have name : Text.trim p.name = p.name :=
    Text.trim_eq_self_of_forall fun c mem => not_isBlank_of_inLabel (by simp [Source.inLabel, h.name.2 c mem])
  simp only [parseParameter, rest, declaration, h.splitType, h.dropDots, h.stripSuffix?, value,
    parameter]
  cases p.isOptional with
  | true => simp [name]
  | false => simp [name]

/-! ### Behind modifiers -/

/-- The name is the word of a modifier, and the blank before a default follows it. -/
def LosesName (p : ParameterText) : Prop :=
  IsModifier p.name ∧ p.isRest = false ∧ p.isOptional = false ∧ p.type = none ∧ p.default ≠ none

instance : Decidable p.LosesName := inferInstanceAs (Decidable (_ ∧ _))

/-- Only before a default a blank follows the name. -/
theorem exists_behind_name (noDots : p.isRest = false) : ∃ behind, p.text = p.name ++ behind ∧
    (∀ c ∈ behind.head?, continuesIdentifier c = false) ∧
    (behind.head? = some ' ' → p.isOptional = false ∧ p.type = none ∧ p.default ≠ none) := by
  obtain ⟨name, isRest, isOptional, type, default⟩ := p
  obtain rfl : isRest = false := noDots
  refine ⟨(if isOptional then ['?'] else []) ++
    (type.elim [] ([':', ' '] ++ ·) ++ default.elim [] ([' ', '=', ' '] ++ ·)), ?_, ?_, ?_⟩
  · cases type <;> cases default <;> simp [text, declaration, label]
  · cases isOptional <;> cases type <;> cases default <;> simp <;> decide
  · cases isOptional <;> cases type <;> cases default <;> simp

/-- No modifier begins a parameter that keeps its name. -/
theorem Plain.not_modifier (h : p.Plain) (keeps : ¬p.LosesName) {m : List Char}
    (mem : m ∈ parameterModifiers) : ¬m <+: p.text := by
  have shape : ∀ m ∈ parameterModifiers, m.dropLast ++ [' '] = m ∧
      m.dropLast.all continuesIdentifier ∧ m.head?.any continuesIdentifier := by decide
  obtain ⟨word, letters, begins⟩ := shape m mem
  rintro ⟨rest, eq⟩
  cases dots : p.isRest with
  | true =>
    have first : p.text.head? = some '.' := by
      obtain ⟨name, isRest, isOptional, type, default⟩ := p
      obtain rfl : isRest = true := dots
      cases type <;> cases default <;> rfl
    cases m with
    | nil => cases begins
    | cons c m =>
      rw [← eq] at first
      obtain rfl : c = '.' := Option.some.inj first
      exact absurd (show continuesIdentifier '.' from begins) (by decide)
  | false =>
    obtain ⟨behind, text, stops, blank⟩ := exists_behind_name dots
    rw [← word, List.append_assoc, text] at eq
    have here : headWord (p.name ++ behind) = p.name := headWord_append h.name.2 stops
    have there : headWord (m.dropLast ++ ([' '] ++ rest)) = m.dropLast :=
      headWord_append (List.all_eq_true.1 letters) (by simp; decide)
    have same : m.dropLast = p.name := there.symm.trans ((congrArg headWord eq).trans here)
    rw [same] at eq word
    have first : behind.head? = some ' ' := by rw [← List.append_cancel_left eq]; rfl
    exact keeps ⟨by rw [IsModifier, word]; exact mem, dots, blank first⟩

theorem Plain.head?_text (h : p.Plain) : ∃ c, p.text.head? = some c ∧ Source.inLabel c := by
  obtain ⟨c, cs, eq⟩ := List.exists_cons_of_ne_nil h.isPart_label.filled
  refine ⟨c, ?_, h.inLabel c (eq ▸ List.mem_cons_self)⟩
  rw [text, declaration, eq]
  split <;> split <;> rfl

/-- A name behind modifiers is kept, -/
theorem Plain.parseParameter_behind (h : p.Plain)
    (known : ∀ m ∈ modifiers, m ∈ parameterModifiers) (keeps : ¬p.LosesName) :
    parseParameter (modifiers.flatten ++ p.text) = p.parameter := by
  obtain ⟨c, first, letter⟩ := h.head?_text
  have ink : ∀ c ∈ p.text.head?, Text.isBlank c = false := by
    rw [first]
    rintro c ⟨⟩
    exact not_isBlank_of_inLabel letter
  have noDecorator : p.text.head? ≠ some '@' := by
    rw [first]
    rintro ⟨⟩
    exact absurd letter (by decide)
  exact h.parseParameter_eq (dropModifiers_dropDecorator known ink noDecorator fun m mem =>
    h.not_modifier keeps mem)

/-- unless it passes for a modifier itself. -/
theorem Plain.parseParameter_of_losesName (h : p.Plain)
    (known : ∀ m ∈ modifiers, m ∈ parameterModifiers) (loses : p.LosesName) :
    parseParameter (modifiers.flatten ++ p.text) = { p.parameter with name := "" } := by
  obtain ⟨word, dots, mark, type, filled⟩ := loses
  obtain ⟨d, default⟩ := Option.ne_none_iff_exists'.1 filled
  have text : modifiers.flatten ++ p.text =
      (modifiers ++ [p.name ++ [' ']]).flatten ++ '=' :: ' ' :: d := by
    simp [ParameterText.text, declaration, label, dots, mark, type, default]
  have all : ∀ m ∈ modifiers ++ [p.name ++ [' ']], m ∈ parameterModifiers := by
    intro m mem
    rcases List.mem_append.1 mem with mem | mem
    · exact known m mem
    · rw [List.mem_singleton.1 mem]
      exact word
  have none : ∀ m ∈ parameterModifiers, ¬m <+: '=' :: ' ' :: d := by
    have others : ∀ m ∈ parameterModifiers, m ≠ [] ∧ m.head? ≠ some '=' := by decide
    rintro m mem ⟨rest, eq⟩
    obtain ⟨c, cs, rfl⟩ := List.exists_cons_of_ne_nil (others m mem).1
    exact (others _ mem).2 (congrArg List.head? eq)
  have rest := dropModifiers_dropDecorator (t := '=' :: ' ' :: d) all (by simp; decide) (by simp) none
  have front : splitDefaultFrom noChar 0 ('=' :: ' ' :: d) = ([], some (' ' :: d)) := rfl
  have value : Text.trim (' ' :: d) = d :=
    (Text.trim_blanks_append Text.isBlank_of_mem_space).trans (h.default d default).trimmed
  -- nothing is left in front of the `=`
  have bare : Source.splitType (Text.trim []) = ([], Option.none) := rfl
  have unnamed : Source.dropDots 0 [] = [] := rfl
  have unmarked : Text.stripSuffix? ['?'] [] = Option.none := rfl
  have empty : String.ofList (Text.trim []) = "" := rfl
  rw [text, parseParameter]
  simp only [rest, front, bare, List.length_nil, unnamed, unmarked, empty, Option.map_some, value,
    parameter, mark, type, default]
  rfl

end ParameterText

/-! ### Lists of parameters -/

/-- The list of parameters, with a comma and a blank between them. -/
def parameterList (ps : List ParameterText) : List Char :=
  List.intercalate [',', ' '] (ps.map ParameterText.text)

variable {ps : List ParameterText}

theorem balanced_parameterList (plain : ∀ p ∈ ps, p.Plain) : Balanced (parameterList ps) := by
  refine balanced_intercalate (by decide) fun t mem => ?_
  obtain ⟨p, among, rfl⟩ := List.mem_map.1 mem
  exact (plain p among).isPart_text.balanced

theorem parseParameters_parameterList (plain : ∀ p ∈ ps, p.Plain) (keeps : ∀ p ∈ ps, ¬p.LosesName) :
    parseParameters (parameterList ps) = ps.map ParameterText.parameter := by
  have parts : ∀ t ∈ ps.map ParameterText.text, IsPart t := by
    intro t mem
    obtain ⟨p, among, rfl⟩ := List.mem_map.1 mem
    exact (plain p among).isPart_text
  rw [parameterList, parseParameters_intercalate parts, List.map_map]
  refine List.map_congr_left fun p mem => ?_
  have read := (plain p mem).parseParameter_behind (List.forall_mem_nil _) (keeps p mem)
  rwa [List.flatten_nil, List.nil_append] at read

/-- The parameters that a list was written from are read back from it, if none is named by the word of
a modifier. -/
theorem parameters_of_parameterList (plain : ∀ p ∈ ps, p.Plain)
    (named : ∀ p ∈ ps, ¬IsModifier p.name) :
    parseParameters (parameterList ps) = ps.map ParameterText.parameter :=
  parseParameters_parameterList plain fun p mem loses => named p mem loses.1

/-- Two parameters with brackets and arrows in their types and defaults. -/
def nestedParameters : List ParameterText :=
  [{ name := "pick".toList
     isOptional := true
     type := some "(a: Map<K, V>, b: \x7b c: [D, E] \x7d) => void".toList },
   { name := "rest".toList
     isRest := true
     type := some "Array<(x: T) => U>".toList
     default := some "[f(1, 2), \x7b a: (x, y) => x = y \x7d]".toList }]

theorem plain_nestedParameters : ∀ p ∈ nestedParameters, p.Plain := by decide +kernel

theorem named_nestedParameters : ∀ p ∈ nestedParameters, ¬IsModifier p.name := by decide +kernel

theorem parameters_of_nestedParameters :
    (∀ p ∈ nestedParameters, p.Plain) ∧ (∀ p ∈ nestedParameters, ¬IsModifier p.name) ∧
      parseParameters (parameterList nestedParameters) =
        nestedParameters.map ParameterText.parameter :=
  ⟨plain_nestedParameters, named_nestedParameters,
    parameters_of_parameterList plain_nestedParameters named_nestedParameters⟩

/-! ### A parameter behind modifiers -/

variable {p : ParameterText}

/-- A parameter behind modifiers is read as it was written, whatever its name, but for a name that is
itself the word of a modifier and is followed by a default alone: it is dropped with them. -/
theorem parameter_behind_modifiers (known : ∀ m ∈ modifiers, m ∈ parameterModifiers) (plain : p.Plain) :
    parseParameters (modifiers.flatten ++ p.text) =
      [if p.LosesName then { p.parameter with name := "" } else p.parameter] := by
  have part : IsPart (modifiers.flatten ++ p.text) := plain.isPart_text.behind_modifiers known
  have single : parseParameters (modifiers.flatten ++ p.text) =
      [parseParameter (modifiers.flatten ++ p.text)] := by
    have parts : ∀ t ∈ [modifiers.flatten ++ p.text], IsPart t := List.forall_mem_singleton.2 part
    have cut := parseParameters_intercalate parts
    rwa [List.intercalate_singleton, List.map_singleton] at cut
  rw [single]
  split
  · rename_i loses
    rw [plain.parseParameter_of_losesName known loses]
  · rename_i keeps
    rw [plain.parseParameter_behind known keeps]

/-- A parameter named by the word of a modifier. -/
def overrideParameter : ParameterText where
  name := "override".toList
  isOptional := true
  type := some "Map<K, V>".toList
  default := some "new Map()".toList

theorem overrideParameter_behind_modifiers :
    (∀ m ∈ ["private ", "readonly "].map String.toList, m ∈ parameterModifiers) ∧
      overrideParameter.Plain ∧ ¬overrideParameter.LosesName ∧
      parseParameters ((["private ", "readonly "].map String.toList).flatten ++ overrideParameter.text) =
        [overrideParameter.parameter] := by
  have known : ∀ m ∈ ["private ", "readonly "].map String.toList, m ∈ parameterModifiers := by decide
  have plain : overrideParameter.Plain := by decide
  have keeps : ¬overrideParameter.LosesName := by decide
  have read := parameter_behind_modifiers known plain
  rw [if_neg keeps] at read
  exact ⟨known, plain, keeps, read⟩

/-- A parameter named by the word of a modifier, with a default alone. -/
def readonlyParameter : ParameterText where
  name := "readonly".toList
  default := some ['3']

/-- Its name is lost, without a modifier in front of it. -/
theorem name_of_readonlyParameter :
    readonlyParameter.Plain ∧ readonlyParameter.parameter.name = "readonly" ∧
      parseParameters readonlyParameter.text = [{ readonlyParameter.parameter with name := "" }] := by
  have plain : readonlyParameter.Plain := by decide
  exact ⟨plain, rfl, by decide +kernel⟩

end SourceAtlas.Source
