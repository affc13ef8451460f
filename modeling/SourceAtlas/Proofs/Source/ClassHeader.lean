import Mathlib.Data.List.Infix
import SourceAtlas.Proofs.Pattern.Search
import SourceAtlas.Proofs.Source.FunctionLine
import SourceAtlas.Proofs.Source.Paired
/-!
Class declarations as they are written, with type parameters, a superclass and interfaces. The clauses
are read as they were written if the type parameters have no arrow and the type arguments of the
superclass no `>` of their own. Otherwise the text is left too early: behind a `>` that is not the last
one, where no clause begins, so the interfaces are lost, and with the type parameters the superclass,
too.
-/

namespace SourceAtlas.Source

open Pattern

variable {m : Match} {t rest : List Char}

/-! ### Written forms -/

/-- A text in angle brackets, or nothing. -/
def angles : Option (List Char) → List Char
  | none => []
  | some t => enclosed '<' t '>'

/-- A class or an interface as a clause names it. -/
structure TypeUse where
  name : List Char
  arguments : Option (List Char)
  deriving DecidableEq, Repr

def TypeUse.text (u : TypeUse) : List Char := u.name ++ angles u.arguments

/-- A class declaration up to its body. -/
structure ClassHeader where
  name : List Char
  parameters : Option (List Char)
  base : Option TypeUse
  interfaces : List TypeUse
  deriving DecidableEq, Repr

/-- The words that begin a clause. -/
def clauseWords : List (List Char) := ["extends".toList, "implements".toList]

/-- A list of type parameters or type arguments. Its brackets are closed by their own kind, it has no
brace, the bracket behind it ends no arrow, and no clause begins behind a `>` in it. -/
structure IsTypeList (t : List Char) : Prop where
  paired : Paired t
  unbraced : '\x7b' ∉ t
  ending : t.getLast? ≠ some '='
  free : ∀ b ∈ t.tails, b.head? = some '>' → ∀ w ∈ clauseWords, headWord (Text.trimStart b.tail) ≠ w

instance : Decidable (IsTypeList t) :=
  decidable_of_iff (Paired t ∧ '\x7b' ∉ t ∧ t.getLast? ≠ some '=' ∧
      ∀ b ∈ t.tails, b.head? = some '>' → ∀ w ∈ clauseWords, headWord (Text.trimStart b.tail) ≠ w)
    ⟨fun ⟨paired, unbraced, ending, free⟩ => ⟨paired, unbraced, ending, free⟩,
      fun h => ⟨h.paired, h.unbraced, h.ending, h.free⟩⟩

example : IsTypeList "K, F extends (a: K[]) => void = [A<B<C>>]".toList := by
  decide +kernel

structure TypeUse.Plain (u : TypeUse) : Prop where
  name : IsDotted u.name
  arguments : ∀ t ∈ u.arguments, IsTypeList t

namespace ClassHeader

/-- The parts may stand where they do. -/
structure Plain (c : ClassHeader) : Prop where
  name : IsName c.name
  parameters : ∀ t ∈ c.parameters, IsTypeList t
  base : ∀ u ∈ c.base, u.Plain
  interfaces : ∀ u ∈ c.interfaces, u.Plain

/-- The clause of the superclass. -/
def extendsText (c : ClassHeader) : List Char :=
  match c.base with
  | some u => " extends ".toList ++ u.text
  | none => []

/-- The clause of the interfaces. -/
def implementsText (c : ClassHeader) : List Char :=
  if c.interfaces = [] then []
  else " implements ".toList ++ List.intercalate [',', ' '] (c.interfaces.map TypeUse.text)

/-- The line that begins with the declaration and goes on as given behind the `\x7b` of its body. -/
def line (c : ClassHeader) (body : List Char) : List Char :=
  "class ".toList ++ (c.name ++ (angles c.parameters ++ (c.extendsText ++ (c.implementsText ++
    (" \x7b".toList ++ body)))))

/-- The symbol that tells the whole declaration. -/
def symbol (c : ClassHeader) (l : SourceLine) : SymbolRecord :=
  { l.symbol c.name .classType with
    superclass := c.base.map fun u => .ofList u.name
    interfaces := if c.interfaces = [] then none else some (c.interfaces.map fun u => .ofList u.name) }

end ClassHeader

/-! ### The name -/

/-- The rule reads a class up to the end of its name. -/
theorem exists_classRule {name : List Char} (named : IsName name)
    (stop : ∀ c ∈ rest.head?, continuesIdentifier c = false) :
    ∃ m, classRule.match? ("class ".toList ++ (name ++ rest)) = some m ∧ m.group 1 = name ∧
      m.rest = rest := by
  let line := "class ".toList ++ (name ++ rest)
  have word : headWord line = "class".toList := by
    have letters : ∀ c ∈ "class".toList, continuesIdentifier c := by decide
    exact headWord_append (b := ' ' :: (name ++ rest)) letters (by rintro c ⟨⟩; decide)
  let i := Match.start (Cursor.start line)
  let j := i.moveTo (i.cursor.past ("class".toList ++ [' ']) (name ++ rest))
  let k := j.moveTo (j.cursor.past name rest)
  have missing : ∀ w ∈ ["export", "default", "declare", "abstract"], (maybe w).Goes i i := by
    have letters : ∀ w ∈ ["export", "default", "declare", "abstract"],
        w.toList.all continuesIdentifier ∧ "class".toList ≠ w.toList := by decide
    intro w mem
    have other : headWord i.rest ≠ w.toList := word ▸ (letters w mem).2
    exact goes_optional (not_keyword (letters w mem).1 other)
  have keyword : (keyword "class").Goes i j := goes_keyword rfl named.ink
  have identified : (group 1 identifier).Goes j _ := (goes_identifier rfl named stop).group 1
  have whole := (missing "export" (by decide)).both ((missing "default" (by decide)).both
    ((missing "declare" (by decide)).both ((missing "abstract" (by decide)).both (keyword.both identified))))
  refine ⟨{ k with groups := (1, j.cursor, k.cursor) :: k.groups },
    match?_of_goes (by rintro c ⟨⟩; decide) whole, ?_, rfl⟩
  exact Cursor.upTo_past rfl

/-! ### The clauses -/

/-- All blanks are read. -/
theorem goes_blanks (m : Match) : blanks.Goes m (m.moveTo (m.cursor.skip Text.isBlank)) :=
  fun _ _ => rfl

theorem rest_skip (m : Match) :
    (m.moveTo (m.cursor.skip Text.isBlank)).rest = Text.trimStart m.rest := after_skip _

theorem trimStart_trimStart (t : List Char) : Text.trimStart (Text.trimStart t) = Text.trimStart t :=
  List.dropWhile_idempotent _ _

/-- The rule for interfaces begins with its word. -/
theorem headWord_of_interfaceList {k e : Cursor} (h : interfaceList.Ends k e) :
    headWord k.after = "implements".toList := by
  obtain ⟨i, word, list⟩ := h
  have keyword : ∃ j, (keyword "implements").Ends k j := by
    rcases list with ⟨j, gap, _⟩ | ⟨j, blank, _⟩
    · exact ⟨j, i, word, gap⟩
    · exact ⟨j.skip Text.isBlank, i, word, j, blank, rfl⟩
  obtain ⟨j, ends⟩ := keyword
  exact (after_keyword (by decide) ends).1

/-- Where another word follows there are no interfaces, -/
theorem goes_noInterfaces (other : headWord (Text.trimStart m.rest) ≠ "implements".toList) :
    ∃ e, (both blanks (optional interfaceList)).Goes m e ∧ e.groups = m.groups := by
  have none : ∀ i, ¬interfaceList.Ends (m.cursor.skip Text.isBlank) i := fun i ends =>
    other (by rw [← rest_skip]; exact headWord_of_interfaceList ends)
  exact ⟨_, (goes_blanks m).both (goes_optional none), rfl⟩

/-- and behind theirs the text up to the `\x7b` tells them. -/
theorem goes_interfaces {list : List Char} (filled : list ≠ [])
    (ink : ∀ c ∈ list.head?, Text.isBlank c = false) (unbraced : ∀ c ∈ list, c ≠ '\x7b')
    (front : Text.trimStart m.rest = "implements".toList ++ ([' '] ++ (list ++ '\x7b' :: rest))) :
    ∃ e, (both blanks (optional interfaceList)).Goes m e ∧ e.group? 2 = some list ∧
      e.group? 1 = m.group? 1 := by
  obtain ⟨c, cs, rfl⟩ := List.exists_cons_of_ne_nil filled
  let i := m.moveTo (m.cursor.skip Text.isBlank)
  let j := i.moveTo (i.cursor.past "implements".toList ([' '] ++ (c :: cs ++ '\x7b' :: rest)))
  let k := j.moveTo (j.cursor.past [' '] (c :: cs ++ '\x7b' :: rest))
  let l := k.moveTo (k.cursor.past (c :: cs) ('\x7b' :: rest))
  have other : ∀ d ∈ c :: cs, d != '\x7b' := fun d mem => by simpa using unbraced d mem
  have word : (literal "implements").Goes i j := goes_literal ((rest_skip m).trans front)
  have space : gap.Goes j k := goes_gap rfl (fun d mem => ink d mem)
  have stop : ∀ d ∈ ('\x7b' :: rest).head?, (d != '\x7b') = false := by
    rintro d ⟨⟩
    decide
  have read : (oneOrMore (· != '\x7b')).Goes k l :=
    goes_one_run rfl (other c List.mem_cons_self) (fun d mem => other d (List.mem_cons_of_mem c mem)) stop
  refine ⟨{ l with groups := (2, k.cursor, l.cursor) :: l.groups },
    (goes_blanks m).both ((word.both ((space.both (read.group 2)).either _)).either _), ?_, rfl⟩
  exact congrArg some (Cursor.upTo_past rfl)

/-- Type arguments that may be missing. -/
def maybeArguments : Pattern := optional (all [char '<', fewest onLine, char '>'])

/-- The clause of a superclass. -/
def baseRule : Pattern :=
  all [keyword "extends", group 1 (oneOrMore inDottedName), maybeArguments]

/-- Where another word stands there is no clause of a superclass. -/
theorem goes_noBase (other : headWord m.rest ≠ "extends".toList) : (optional baseRule).Goes m m := by
  refine goes_optional fun e ends => ?_
  obtain ⟨j, word, _⟩ := ends
  exact not_keyword (by decide) other j word

/-- What is left of a text when type arguments in front of it are read up to the first `>`. -/
def behindFirstAngle (rest : List Char) : Option (List Char) → List Char
  | none => rest
  | some t => ((t ++ '>' :: rest).dropWhile (· != '>')).tail

theorem behindFirstAngle_of_not_mem {arguments : Option (List Char)} (free : ∀ t ∈ arguments, '>' ∉ t)
    (rest : List Char) : behindFirstAngle rest arguments = rest := by
  cases arguments with
  | none => rfl
  | some t =>
    have others : ∀ c ∈ t, c != '>' := fun c mem => by
      simpa using fun same : c = '>' => free t rfl (same ▸ mem)
    rw [behindFirstAngle, List.dropWhile_append_of_pos others]
    rfl

/-- A `>` in the arguments ends them too early. -/
theorem exists_behindFirstAngle (nested : '>' ∈ t) (rest : List Char) :
    ∃ a b, t = a ++ '>' :: b ∧ '>' ∉ a ∧ behindFirstAngle rest (some t) = b ++ '>' :: rest := by
  obtain ⟨a, b, rfl, free⟩ := List.eq_append_cons_of_mem nested
  have first : behindFirstAngle (b ++ '>' :: rest) (some a) = b ++ '>' :: rest :=
    behindFirstAngle_of_not_mem (by rintro _ ⟨⟩; exact free) _
  refine ⟨a, b, rfl, free, ?_⟩
  rw [behindFirstAngle, List.append_assoc]
  exact first

theorem goes_angles (front : m.rest = '<' :: (t ++ '>' :: rest)) (free : '>' ∉ t) (oneLine : '\n' ∉ t) :
    ∃ e, maybeArguments.Goes m e ∧ e.rest = rest ∧ e.groups = m.groups := by
  have opened : (char '<').Goes m (m.moveTo (m.cursor.past ['<'] (t ++ '>' :: rest))) :=
    goes_one front rfl
  have accepted : ∀ c ∈ t, onLine c := fun c mem => by
    simpa [onLine] using fun same : c = '\n' => oneLine (same ▸ mem)
  exact ⟨_, (opened.both (goes_fewest_char rfl accepted free)).either _, rfl, rfl⟩

/-- Type arguments are read up to the first `>`. -/
theorem exists_goes_arguments {arguments : Option (List Char)} (oneLine : '\n' ∉ angles arguments)
    (front : m.rest = angles arguments ++ ' ' :: rest) :
    ∃ e, maybeArguments.Goes m e ∧ e.rest = behindFirstAngle (' ' :: rest) arguments ∧
      e.groups = m.groups := by
  cases arguments with
  | none => exact ⟨m, goes_optional (not_char front (by decide)), front, rfl⟩
  | some t =>
    have text : m.rest = '<' :: (t ++ '>' :: ' ' :: rest) := by
      rw [front, angles, enclosed]
      simp
    have plain : '\n' ∉ t := fun mem => oneLine (by simp [angles, enclosed, mem])
    by_cases nested : '>' ∈ t
    · obtain ⟨a, b, rfl, free, left⟩ := exists_behindFirstAngle nested (' ' :: rest)
      rw [List.append_assoc] at text
      rw [left]
      exact goes_angles text free fun mem => plain (List.mem_append_left _ mem)
    · rw [behindFirstAngle_of_not_mem (by rintro _ ⟨⟩; exact nested)]
      exact goes_angles text nested plain

/-- The clause is read up to there, and the name in it is kept. -/
theorem exists_goes_base {u : TypeUse} (h : u.Plain) (oneLine : '\n' ∉ u.text)
    (front : m.rest = "extends".toList ++ [' '] ++ (u.text ++ ' ' :: rest)) :
    ∃ e, (optional baseRule).Goes m e ∧ e.rest = behindFirstAngle (' ' :: rest) u.arguments ∧
      e.group? 1 = some u.name ∧ e.group? 2 = m.group? 2 := by
  obtain ⟨name, arguments⟩ := u
  have dotted : ∀ c ∈ name, inDottedName c := h.name.forall_inDottedName
  obtain ⟨c, cs, rfl⟩ := List.exists_cons_of_ne_nil h.name.ne_nil
  let behind := angles arguments ++ ' ' :: rest
  have whole : (⟨c :: cs, arguments⟩ : TypeUse).text ++ ' ' :: rest = c :: cs ++ behind := by
    simp [TypeUse.text, behind]
  rw [whole] at front
  have ink : ∀ d ∈ (c :: cs ++ behind).head?, Text.isBlank d = false := by
    rintro d ⟨⟩
    exact not_isBlank_of_inLabel (inLabel_of_inDottedName (dotted c List.mem_cons_self))
  have stop : ∀ d ∈ behind.head?, inDottedName d = false := by
    cases arguments <;> rintro d ⟨⟩ <;> decide
  let i := m.moveTo (m.cursor.past ("extends".toList ++ [' ']) (c :: cs ++ behind))
  let j := i.moveTo (i.cursor.past (c :: cs) behind)
  let k : Match := { j with groups := (1, i.cursor, j.cursor) :: j.groups }
  have word : (keyword "extends").Goes m i := goes_keyword front ink
  have read : (oneOrMore inDottedName).Goes i j :=
    goes_one_run rfl (dotted c List.mem_cons_self) (fun d mem => dotted d (List.mem_cons_of_mem c mem)) stop
  have name : k.group? 1 = some (c :: cs) := congrArg some (Cursor.upTo_past rfl)
  obtain ⟨e, arguments, restE, groups⟩ := exists_goes_arguments (m := k)
    (fun mem => oneLine (List.mem_append_right _ mem)) rfl
  exact ⟨e, (word.both ((read.group 1).both arguments)).either _, restE,
    (Match.group?_congr groups 1).trans name, Match.group?_congr groups 2⟩

/-! ### Interfaces -/

/-- Nothing in brackets stands outside of brackets. -/
theorem Encloses.lacks {left right sep : Char} (h : Encloses left t right) (other : left ≠ sep) :
    Lacks sep (enclosed left t right) := by
  refine avoids_cons.2 ⟨fun marked => other (by simpa using marked.2), ?_⟩
  rw [nesting_of_opens h.opening]
  exact avoids_inside (h.inner.balances left) right

theorem IsTypeList.encloses (h : IsTypeList t) : Encloses '<' t '>' := by
  refine ⟨rfl, h.paired.balanced, ?_⟩
  rw [List.getLastD_eq_getLast?]
  cases last : t.getLast? with
  | none => rfl
  | some c =>
    have other : c ≠ '=' := by
      rintro rfl
      exact h.ending last
    simp [closes, other]

/-- Behind a bracket that closes inside of the list no clause begins. -/
theorem IsTypeList.noClause (h : IsTypeList t) {a b : List Char} (eq : t = a ++ '>' :: b)
    (rest : List Char) : headWord (Text.trimStart (b ++ '>' :: rest)) ∉ clauseWords := by
  have inner : '>' :: b ∈ t.tails := (List.mem_tails _ _).2 ⟨a, eq.symm⟩
  rw [Text.trimStart, Text.dropWhile_append_cons (by decide), headWord, Text.takeWhile_append_cons (by decide)]
  exact fun mem => h.free _ inner rfl _ mem rfl

namespace TypeUse

variable {u : TypeUse}

theorem Plain.isPart_name (h : u.Plain) : IsPart u.name :=
  isPart_of_inLabel h.name.ne_nil fun c mem => inLabel_of_inDottedName (h.name.forall_inDottedName c mem)

/-- It may stand between commas. -/
theorem Plain.isPart (h : u.Plain) : IsPart u.text := by
  have name := h.isPart_name
  obtain ⟨_, arguments⟩ := u
  cases arguments with
  | none => simpa [text, angles] using name
  | some t =>
    have inside := (h.arguments t rfl).encloses
    refine ⟨List.append_ne_nil_of_left_ne_nil name.filled _, ?_, name.balanced.append inside.balanced,
      name.single.append name.balanced (inside.lacks (by decide))⟩
    have trimmed := Text.trim_enclosed name.trimmed (b := ['>']) rfl name.filled (List.cons_ne_nil _ _)
      ('<' :: t)
    rwa [List.append_assoc, List.cons_append] at trimmed

theorem Plain.unbraced (h : u.Plain) : ∀ c ∈ u.text, c ≠ '\x7b' := by
  refine List.forall_mem_append.2 ⟨fun c mem same => ?_, fun c mem same => ?_⟩
  · have dotted := h.name.forall_inDottedName c mem
    rw [same] at dotted
    exact absurd dotted (by decide)
  · cases given : u.arguments with
    | none =>
      rw [given] at mem
      cases mem
    | some t =>
      rw [given, same] at mem
      have inner : '\x7b' ∈ t := by simpa [angles, enclosed] using mem
      exact (h.arguments t given).unbraced inner

theorem Plain.bareName (h : u.Plain) : bareName u.text = u.name := by
  have name : (u.name ++ angles u.arguments).takeWhile (· != '<') = u.name := by
    refine Text.takeWhile_append_stop (fun c mem => ?_) ?_
    · have dotted := h.name.forall_inDottedName c mem
      rw [bne_iff_ne]
      rintro rfl
      exact absurd dotted (by decide)
    · cases u.arguments <;> rintro c ⟨⟩
      decide
  rw [Source.bareName, text, name, h.isPart_name.trimmed]

theorem exists_intercalate_cons (u : TypeUse) (us : List TypeUse) :
    ∃ rest, List.intercalate [',', ' '] ((u :: us).map text) = u.text ++ rest := by
  cases us with
  | nil => exact ⟨[], by rw [List.map_singleton, List.intercalate_singleton, List.append_nil]⟩
  | cons next us =>
    exact ⟨_, by rw [List.map_cons, List.map_cons, List.intercalate_cons_cons, List.append_assoc]⟩

theorem unbraced_intercalate {us : List TypeUse} (h : ∀ u ∈ us, u.Plain) :
    ∀ c ∈ List.intercalate [',', ' '] (us.map text), c ≠ '\x7b' := by
  induction us with
  | nil => exact List.forall_mem_nil _
  | cons u us ih =>
    have first := (h u List.mem_cons_self).unbraced
    have later := ih fun v mem => h v (List.mem_cons_of_mem _ mem)
    cases us with
    | nil =>
      rw [List.map_singleton, List.intercalate_singleton]
      exact first
    | cons next us =>
      rw [List.map_cons, List.map_cons, List.intercalate_cons_cons, ← List.map_cons]
      exact List.forall_mem_append.2 ⟨List.forall_mem_append.2 ⟨first, by decide⟩, later⟩

/-- The names of interfaces are read back from their clause. -/
theorem interfaceNames_intercalate {us : List TypeUse} (filled : us ≠ []) (h : ∀ u ∈ us, u.Plain) :
    SourceLine.interfaceNames (List.intercalate [',', ' '] (us.map text) ++ [' ']) =
      us.map fun u => .ofList u.name := by
  have parts : ∀ t ∈ us.map text, IsPart t := List.forall_mem_map.2 fun u mem => (h u mem).isPart
  have pieces := map_trim_splitOutside (by simpa using filled) parts Text.isBlank_of_mem_space noChar
  have names : (us.map text).map Source.bareName = us.map (·.name) := by
    rw [List.map_map]
    exact List.map_congr_left fun u mem => (h u mem).bareName
  have kept : (us.map (·.name)).filter (!·.isEmpty) = us.map (·.name) :=
    List.filter_eq_self.2 (List.forall_mem_map.2 fun u mem => by simpa using (h u mem).name.ne_nil)
  have cut : (splitTop ',' (List.intercalate [',', ' '] (us.map text) ++ [' '])).map
      (fun name => Source.bareName (Text.trim name)) = us.map (·.name) := by
    have both := congrArg (List.map Source.bareName) pieces
    rw [names, List.map_map] at both
    exact both
  rw [SourceLine.interfaceNames, cut, kept, List.map_map]
  rfl

end TypeUse

/-! ### The rule for clauses -/

namespace ClassHeader

variable {c : ClassHeader} {body : List Char}

/-- What follows the clause of the superclass. -/
def behindBase (c : ClassHeader) (body : List Char) : List Char :=
  c.implementsText ++ (" \x7b".toList ++ body)

theorem behindBase_eq (c : ClassHeader) (body : List Char) : ∃ rest, c.behindBase body = ' ' :: rest := by
  rw [behindBase, implementsText]
  split
  · exact ⟨_, rfl⟩
  · exact ⟨_, rfl⟩

theorem headWord_behindBase (c : ClassHeader) (body : List Char) :
    headWord (Text.trimStart (c.behindBase body)) ≠ "extends".toList := by
  rw [behindBase, implementsText]
  split
  · have none : headWord (Text.trimStart ([] ++ (" \x7b".toList ++ body))) = [] := rfl
    rw [none]
    decide
  · rw [List.append_assoc]
    generalize List.intercalate [',', ' '] (c.interfaces.map TypeUse.text) ++ _ = rest
    have front : Text.trimStart (" implements ".toList ++ rest) = "implements".toList ++ ' ' :: rest := rfl
    rw [front, headWord_append (by decide) (by rintro d ⟨⟩; decide)]
    decide

/-- Where no clause begins, none is read. -/
theorem exists_heritageRule_none (other : headWord (Text.trimStart t) ∉ clauseWords) :
    ∃ m, heritageRule.match? t = some m ∧ m.group? 1 = none ∧ m.group? 2 = none := by
  let start := Match.start (Cursor.start t)
  let i := start.moveTo (start.cursor.skip Text.isBlank)
  have noWord : ∀ w ∈ clauseWords, headWord (Text.trimStart t) ≠ w := fun w mem same => other (same ▸ mem)
  have noBase : (optional baseRule).Goes i i :=
    goes_noBase (by rw [rest_skip]; exact noWord _ (by decide))
  obtain ⟨e, interfaces, groups⟩ := goes_noInterfaces (m := i)
    (by rw [rest_skip, trimStart_trimStart]; exact noWord _ (by decide))
  exact ⟨e, ((goes_blanks start).both (noBase.both interfaces)).matchAt?,
    Match.group?_congr groups 1, Match.group?_congr groups 2⟩

/-- The clause of the interfaces is read as it was written. -/
theorem Plain.goes_implements (h : c.Plain) (unset : m.group? 2 = none)
    (front : Text.trimStart m.rest = Text.trimStart (c.behindBase body)) :
    ∃ e, (both blanks (optional interfaceList)).Goes m e ∧ e.group? 1 = m.group? 1 ∧
      (e.group? 2).map SourceLine.interfaceNames =
        if c.interfaces = [] then .none else some (c.interfaces.map fun u => .ofList u.name) := by
  by_cases missing : c.interfaces = []
  · have brace : Text.trimStart (c.behindBase body) = '\x7b' :: body := by
      rw [behindBase, implementsText, if_pos missing]
      rfl
    have none : headWord ('\x7b' :: body) = [] := rfl
    have word : headWord (Text.trimStart m.rest) ≠ "implements".toList := by
      rw [front, brace, none]
      decide
    obtain ⟨e, goes, groups⟩ := goes_noInterfaces word
    refine ⟨e, goes, Match.group?_congr groups 1, ?_⟩
    rw [if_pos missing, Match.group?_congr groups, unset]
    rfl
  · have clause : Text.trimStart (c.behindBase body) = "implements".toList ++ ([' '] ++
        (List.intercalate [',', ' '] (c.interfaces.map TypeUse.text) ++ [' '] ++ '\x7b' :: body)) := by
      rw [behindBase, implementsText, if_neg missing]
      simp [Text.trimStart, Text.isBlank]
    have ink : ∀ d ∈ (List.intercalate [',', ' '] (c.interfaces.map TypeUse.text) ++ [' ']).head?,
        Text.isBlank d = false := by
      obtain ⟨u, us, eq⟩ := List.exists_cons_of_ne_nil missing
      have part := (h.interfaces u (eq ▸ List.mem_cons_self)).isPart
      obtain ⟨rest, first⟩ := TypeUse.exists_intercalate_cons u us
      rw [eq, first, List.append_assoc, List.head?_append_of_ne_nil _ part.filled]
      exact (Text.trim_eq_self_iff.1 part.trimmed).1
    obtain ⟨e, goes, list, base⟩ := goes_interfaces (List.append_ne_nil_of_right_ne_nil _ (by decide))
      ink (List.forall_mem_append.2 ⟨TypeUse.unbraced_intercalate h.interfaces, by decide⟩)
      (front.trans clause)
    refine ⟨e, goes, base, ?_⟩
    rw [if_neg missing, list, Option.map_some, TypeUse.interfaceNames_intercalate missing h.interfaces]

/-- The type arguments of the superclass have a `>` of their own. -/
def nestsBase (c : ClassHeader) : Bool := c.base.any fun u => u.arguments.any (·.contains '>')

/-- Behind the type parameters the clauses are read, the one of the interfaces only if the type
arguments of the superclass have no `>` of their own. -/
theorem Plain.exists_heritageRule (h : c.Plain) (body : List Char) (oneLine : '\n' ∉ c.extendsText) :
    ∃ m, heritageRule.match? (c.extendsText ++ c.behindBase body) = some m ∧
      m.group? 1 = c.base.map (·.name) ∧
      (m.group? 2).map SourceLine.interfaceNames =
        if c.nestsBase ∨ c.interfaces = [] then none
        else some (c.interfaces.map fun u => .ofList u.name) := by
  let start := Match.start (Cursor.start (c.extendsText ++ c.behindBase body))
  let i := start.moveTo (start.cursor.skip Text.isBlank)
  have text : i.rest = Text.trimStart (c.extendsText ++ c.behindBase body) := rest_skip start
  obtain ⟨rest, front⟩ := c.behindBase_eq body
  cases base : c.base with
  | none =>
    have nothing : c.extendsText = [] := by rw [extendsText, base]
    rw [nothing, List.nil_append] at text
    have noBase : (optional baseRule).Goes i i := goes_noBase (by rw [text]; exact c.headWord_behindBase body)
    obtain ⟨e, goes, first, second⟩ := h.goes_implements (m := i) rfl
      (by rw [text, trimStart_trimStart])
    refine ⟨e, ((goes_blanks start).both (noBase.both goes)).matchAt?, first, ?_⟩
    rw [second, nestsBase, base]
    simp
  | some u =>
    have clause : c.extendsText = " extends ".toList ++ u.text := by rw [extendsText, base]
    have plain := h.base u base
    have word : i.rest = "extends".toList ++ [' '] ++ (u.text ++ ' ' :: rest) := by
      rw [text, clause, front]
      simp [Text.trimStart, Text.isBlank]
    obtain ⟨e, goesBase, behind, first, second⟩ := exists_goes_base plain
      (fun mem => oneLine (by rw [clause]; exact List.mem_append_right _ mem)) word
    by_cases inner : c.nestsBase
    · obtain ⟨t, given, mem⟩ : ∃ t ∈ u.arguments, '>' ∈ t := by
        simpa [nestsBase, base, Option.any_eq_true] using inner
      obtain ⟨a, b, eq, _, left⟩ := exists_behindFirstAngle mem (' ' :: rest)
      have lost : headWord (Text.trimStart e.rest) ∉ clauseWords := by
        rw [behind, given, left]
        exact (plain.arguments t given).noClause eq _
      obtain ⟨k, goes, groups⟩ := goes_noInterfaces fun same => lost (by rw [same]; decide)
      refine ⟨k, ((goes_blanks start).both (goesBase.both goes)).matchAt?,
        (Match.group?_congr groups 1).trans first, ?_⟩
      rw [if_pos (.inl inner), Match.group?_congr groups, second]
      rfl
    · have open_ : ∀ t ∈ u.arguments, '>' ∉ t := fun t given mem => inner (by
        simpa [nestsBase, base, Option.any_eq_true] using ⟨t, given, mem⟩)
      obtain ⟨k, goes, base', interfaces⟩ := h.goes_implements (m := e) second
        (by rw [behind, behindFirstAngle_of_not_mem open_, front])
      refine ⟨k, ((goes_blanks start).both (goesBase.both goes)).matchAt?, base'.trans first, ?_⟩
      rw [interfaces]
      simp [inner]

/-! ### The symbol -/

/-- The type parameters have an arrow. -/
def hasArrow (c : ClassHeader) : Bool := c.parameters.any (Text.occursIn arrow)

/-- The symbol that is found. With an arrow among the type parameters both clauses are lost, with a `>`
among the type arguments of the superclass that of the interfaces. -/
def found (c : ClassHeader) (l : SourceLine) : SymbolRecord :=
  { c.symbol l with
    superclass := if c.hasArrow then none else (c.symbol l).superclass
    interfaces := if c.hasArrow || c.nestsBase then none else (c.symbol l).interfaces }

/-- The whole declaration is told if neither is there. -/
theorem found_eq (arrow : c.hasArrow = false) (nests : c.nestsBase = false) (l : SourceLine) :
    c.found l = c.symbol l := by
  rw [found, arrow, nests]
  rfl

/-- What stands behind the name. -/
def behindName (c : ClassHeader) (body : List Char) : List Char :=
  angles c.parameters ++ (c.extendsText ++ c.behindBase body)

theorem head?_clauses (c : ClassHeader) (body : List Char) :
    (c.extendsText ++ c.behindBase body).head? = some ' ' := by
  obtain ⟨rest, front⟩ := c.behindBase_eq body
  rw [extendsText]
  split
  · rfl
  · rw [List.nil_append, front]
    rfl

/-- Without type parameters nothing is skipped. -/
theorem skipTypeParameters_clauses (c : ClassHeader) (body : List Char) :
    skipTypeParameters (c.extendsText ++ c.behindBase body) = c.extendsText ++ c.behindBase body := by
  have other : ∀ rest, Text.trimStart (c.extendsText ++ c.behindBase body) ≠ '<' :: rest := by
    intro rest
    rw [extendsText, behindBase, implementsText]
    split <;> split <;> exact fun same => absurd (List.cons.inj same).1 (by decide)
  rw [skipTypeParameters]
  split
  · rename_i rest angle
    exact absurd angle (other rest)
  · rfl

/-- The clauses are left when the type parameters without an arrow are skipped, -/
theorem Plain.skipTypeParameters_behindName (h : c.Plain) (plain : ¬c.hasArrow) :
    skipTypeParameters (c.behindName body) = c.extendsText ++ c.behindBase body := by
  rw [behindName]
  cases given : c.parameters with
  | none => exact c.skipTypeParameters_clauses body
  | some t =>
    rw [hasArrow, given] at plain
    have skipped := skipTypeParameters_of_paired (h.parameters t given).paired plain
      (c.extendsText ++ c.behindBase body)
    rw [angles, enclosed, List.cons_append, List.append_assoc]
    exact skipped

/-- and with an arrow a text in which none begins. -/
theorem Plain.noClause_behindName (h : c.Plain) (found : c.hasArrow) :
    headWord (Text.trimStart (skipTypeParameters (c.behindName body))) ∉ clauseWords := by
  rw [behindName]
  cases given : c.parameters with
  | none =>
    rw [hasArrow, given] at found
    cases found
  | some t =>
    rw [hasArrow, given] at found
    have list := h.parameters t given
    obtain ⟨a, b, eq, skipped⟩ := exists_skipTypeParameters list.paired found
    rw [angles, enclosed, List.cons_append, List.append_assoc, skipped]
    exact list.noClause eq _

variable {l : SourceLine}

theorem Plain.class?_eq (h : c.Plain) (oneLine : '\n' ∉ c.line body) (text : l.text = c.line body) :
    l.class? = some (c.found l) := by
  have stop : ∀ d ∈ (c.behindName body).head?, continuesIdentifier d = false := by
    rw [behindName]
    cases c.parameters with
    | none =>
      rw [angles, List.nil_append, c.head?_clauses]
      rintro d ⟨⟩
      decide
    | some t =>
      rintro d ⟨⟩
      decide
  obtain ⟨m, read, name, rest⟩ := exists_classRule h.name stop
  have whole : l.text = "class ".toList ++ (c.name ++ c.behindName body) := text
  have plain : '\n' ∉ c.extendsText := fun mem => oneLine <| List.mem_append_right _ <|
    List.mem_append_right _ <| List.mem_append_right _ <| List.mem_append_left _ mem
  rw [SourceLine.class?, whole, read, Option.map_some, rest, name, found]
  by_cases arrow : c.hasArrow
  · have lost : headWord (Text.trimStart (skipTypeParameters (c.behindName body))) ∉ clauseWords :=
      h.noClause_behindName arrow
    obtain ⟨k, heritage, base, interfaces⟩ := exists_heritageRule_none lost
    simp only [heritage, base, interfaces, arrow]
    rfl
  · obtain ⟨k, heritage, base, interfaces⟩ := h.exists_heritageRule body plain
    have superclass : (k.group? 1).map String.ofList = (c.symbol l).superclass := by
      rw [base, Option.map_map]
      rfl
    have listed : (k.group? 2).map SourceLine.interfaceNames =
        if c.nestsBase then none else (c.symbol l).interfaces := by
      rw [interfaces, symbol]
      by_cases nests : c.nestsBase <;> simp [nests]
    rw [h.skipTypeParameters_behindName arrow]
    simp only [heritage, superclass, listed, arrow]
    rfl

/-- The line is no comment. -/
theorem isComment_eq_false (text : l.text = c.line body) : l.isComment = false := by
  rw [SourceLine.isComment, text]
  rfl

/-- The line has one symbol, wherever it stands. -/
theorem symbols_extract (h : c.Plain) (oneLine : '\n' ∉ c.line body) (text : l.text = c.line body)
    (resolver : Resolver) (n : Nesting) : (l.extract resolver n).1.symbols = [c.found l] := by
  refine l.symbols_extract_of_declared ?_ (isComment_eq_false text) resolver n
  rw [SourceLine.declared, h.class?_eq oneLine text]
  simp

end ClassHeader

open ClassHeader

/-- A line that begins with a class declaration has one symbol, wherever it stands. It tells the
superclass and the interfaces, as they were written, if the type parameters have no arrow and the type
arguments of the superclass no `>` of their own. With such a `>` the interfaces are lost, and with an
arrow in the type parameters both are. -/
theorem symbols_of_classHeader {c : ClassHeader} (h : c.Plain) {body : List Char}
    (oneLine : '\n' ∉ c.line body) (resolver : Resolver) (path : String) :
    (extract resolver (.ofList (c.line body)) path).symbols = [c.found ⟨path, 1, c.line body⟩] ∧
      (∀ number n, (SourceLine.extract ⟨path, number, c.line body⟩ resolver n).1.symbols =
        [c.found ⟨path, number, c.line body⟩]) ∧
      (c.hasArrow = false → c.nestsBase = false → ∀ l, c.found l = c.symbol l) := by
  have line : ∀ number n, (SourceLine.extract ⟨path, number, c.line body⟩ resolver n).1.symbols =
      [c.found ⟨path, number, c.line body⟩] := fun number n => symbols_extract h oneLine rfl resolver n
  refine ⟨?_, line, c.found_eq⟩
  rw [extract_singleLine oneLine (List.cons_ne_nil _ _)]
  exact line 1 {}

/-- A class with brackets of every kind in its lists. -/
def wideHeader : ClassHeader where
  name := "Impl".toList
  parameters := some "K extends keyof T, T = Map<K, [A.B<C<D>>, (E | F)[]]>".toList
  base := some ⟨"app.Base".toList, some "[K, T], () | U".toList⟩
  interfaces := [⟨"Greeter".toList, some "(a: K, b: T[]) => Map<K, () => void>".toList⟩,
    ⟨"core.Disposable".toList, none⟩]

theorem symbols_of_wideHeader :
    let line := wideHeader.line " run(); \x7d".toList
    let symbol := wideHeader.symbol ⟨"/a.ts", 1, line⟩
    wideHeader.Plain ∧ '\n' ∉ line ∧ wideHeader.hasArrow = false ∧ wideHeader.nestsBase = false ∧
      (extract {} (.ofList line) "/a.ts").symbols = [symbol] ∧ symbol.superclass = some "app.Base" ∧
      symbol.interfaces = some ["Greeter", "core.Disposable"] := by
  intro line symbol
  have base : ∀ u ∈ wideHeader.base, u.Plain := by
    rintro _ ⟨⟩
    exact ⟨by decide, by rintro _ ⟨⟩; decide +kernel⟩
  have interfaces : ∀ u ∈ wideHeader.interfaces, u.Plain :=
    List.forall_mem_cons.2 ⟨⟨by decide, by rintro _ ⟨⟩; decide +kernel⟩,
      List.forall_mem_singleton.2 ⟨by decide, by rintro _ ⟨⟩⟩⟩
  have plain : wideHeader.Plain := ⟨by decide, by rintro _ ⟨⟩; decide +kernel, base, interfaces⟩
  have oneLine : '\n' ∉ line := by decide +kernel
  have arrow : wideHeader.hasArrow = false := by decide +kernel
  have nests : wideHeader.nestsBase = false := by decide +kernel
  obtain ⟨found, _, whole⟩ := symbols_of_classHeader plain oneLine {} "/a.ts"
  exact ⟨plain, oneLine, arrow, nests, by rw [found, whole arrow nests], rfl, by decide +kernel⟩

/-- A class whose superclass has type arguments with type arguments of their own. -/
def nestedHeader : ClassHeader where
  name := ['A']
  parameters := none
  base := some ⟨['B'], some "C<D>".toList⟩
  interfaces := [⟨['I'], none⟩]

/-- Its interface is not found. -/
theorem interfaces_of_nestedHeader :
    let line := nestedHeader.line []
    nestedHeader.Plain ∧ line = "class A extends B<C<D>> implements I \x7b".toList ∧
      (nestedHeader.symbol ⟨"/p/a.ts", 1, line⟩).interfaces = some ["I"] ∧
      (extract {} (.ofList line) "/p/a.ts").symbols.map (·.interfaces) = [none] := by
  intro line
  have base : ∀ u ∈ nestedHeader.base, u.Plain := by
    rintro _ ⟨⟩
    exact ⟨by decide, by rintro _ ⟨⟩; decide +kernel⟩
  have interfaces : ∀ u ∈ nestedHeader.interfaces, u.Plain :=
    List.forall_mem_singleton.2 ⟨by decide, by rintro _ ⟨⟩⟩
  exact ⟨⟨by decide, by rintro _ ⟨⟩, base, interfaces⟩, by decide +kernel, by decide +kernel,
    by decide +kernel⟩

end SourceAtlas.Source
