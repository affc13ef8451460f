import Mathlib.Data.List.Nodup
import SourceAtlas.Proofs.Source.Lines
import SourceAtlas.Proofs.Source.Rule
/-!
At most one symbol stands on a line. The words at the start of a declaration tell its form: behind
words that may stand in front of any declaration comes one that only one form has, and `const`, which
two forms share, is told by what follows the word behind it. A line with a method has no such words, or
it holds the word `function`, by which it is no method. So the lines of the symbols increase.
-/

namespace SourceAtlas

open Pattern

namespace Source

/-! ### The form of a declaration -/

/-- The forms of declaration that are recognized wherever they stand. -/
inductive Form where
  | function
  | binding
  | classType
  | interface
  | typeAlias
  | enumeration
  deriving DecidableEq, Repr

/-- The words that may stand in front of a declaration. -/
def leadingWords : List String := ["export", "default", "declare", "async", "abstract"]

/-- The words that a declaration with a name begins with. -/
def formWords : List (String × Form) :=
  [("class", .classType), ("interface", .interface), ("type", .typeAlias), ("enum", .enumeration),
    ("const", .binding), ("let", .binding), ("var", .binding)]

/-- The form of a declaration without words in front of it. Two names may stand behind `const` only if
the first is the word `enum`. -/
def bareForm? (t : List Char) : Option Form :=
  if "function".toList.isPrefixOf (headWord t) then some .function
  else if !(behindWord t).head?.any startsIdentifier then none
  else if headWord t = "const".toList ∧ (behindWord (behindWord t)).head?.any startsIdentifier then
    if headWord (behindWord t) = "enum".toList then some .enumeration else none
  else formWords.lookup (.ofList (headWord t))

theorem length_behindWord_lt {t : List Char} (h : headWord t ∈ leadingWords.map String.toList) :
    (behindWord t).length < t.length := by
  have blanks := (List.dropWhile_sublist Text.isBlank (l := t.dropWhile continuesIdentifier)).length_le
  have word : 0 < (headWord t).length := by
    refine List.length_pos_iff.2 fun empty => ?_
    rw [empty] at h
    exact absurd h (by decide)
  have parts := congrArg List.length
    (List.takeWhile_append_dropWhile (p := continuesIdentifier) (l := t))
  rw [List.length_append] at parts
  rw [headWord] at word
  rw [behindWord]
  omega

/-- The form of the declaration that begins here. -/
def form? (t : List Char) : Option Form :=
  if h : (leadingWords.map String.toList).contains (headWord t) then
    have := length_behindWord_lt (List.contains_iff_mem.1 h)
    form? (behindWord t)
  else bareForm? t
  termination_by t.length

variable {t : List Char} {k i j e : Cursor} {w : String} {f : Form}

theorem form?_behindWord (h : headWord t ∈ leadingWords.map String.toList) :
    form? t = form? (behindWord t) := by
  rw [form?, dif_pos (List.contains_iff_mem.2 h)]

theorem form?_bare (h : headWord t ∉ leadingWords.map String.toList) : form? t = bareForm? t := by
  rw [form?, dif_neg (mt List.contains_iff_mem.1 h)]

/-- A word in front does not change the form. -/
theorem form?_of_maybe (mem : w ∈ leadingWords) (h : (maybe w).Ends k i) :
    form? k.after = form? i.after := by
  rcases h with word | rfl
  · have letters : ∀ v ∈ leadingWords, v.toList.all continuesIdentifier := by decide
    obtain ⟨first, eq⟩ := after_keyword (letters w mem) word
    rw [form?_behindWord (first ▸ List.mem_map_of_mem mem), eq]
  · rfl

theorem beginsName_of_identifier (h : identifier.Ends k e) : BeginsName k.after := by
  obtain ⟨_, ⟨c, next, starts⟩, _⟩ := h
  rw [BeginsName, after_of_next? next]
  simpa using starts

/-- Where one name alone follows, or not `const` stands before it, the word in front tells the form. -/
theorem bareForm?_of_word (plain : "function".toList.isPrefixOf (headWord t) = false)
    (next : (behindWord t).head?.any startsIdentifier)
    (single : ¬(headWord t = "const".toList ∧ (behindWord (behindWord t)).head?.any startsIdentifier)) :
    bareForm? t = formWords.lookup (.ofList (headWord t)) := by
  rw [bareForm?, plain, next, if_neg single]
  rfl

/-- Where no name follows, there is no form but that of a function. -/
theorem bareForm?_of_alone (alone : ¬(behindWord t).head?.any startsIdentifier) :
    bareForm? t = if "function".toList.isPrefixOf (headWord t) then some .function else none := by
  rw [Bool.not_eq_true] at alone
  rw [bareForm?, alone]
  rfl

/-- A word that only one form has, and a name behind it, tell the form. -/
theorem form?_of_keyword (found : (w, f) ∈ formWords.take 4) (word : (keyword w).Ends k i)
    (name : identifier.Ends i e) : form? k.after = some f := by
  have letters : ∀ v ∈ formWords.take 4, v.1.toList.all continuesIdentifier := by decide
  have lone : ∀ v ∈ formWords.take 4, v.1.toList ∉ leadingWords.map String.toList ∧
      "function".toList.isPrefixOf v.1.toList = false ∧ v.1.toList ≠ "const".toList ∧
      formWords.lookup (.ofList v.1.toList) = some v.2 := by decide
  obtain ⟨notLeading, notFunction, notConst, form⟩ := lone _ found
  obtain ⟨first, eq⟩ := after_keyword (letters _ found) word
  have next : (behindWord k.after).head?.any startsIdentifier := eq ▸ beginsName_of_identifier name
  rw [← first] at notLeading notFunction notConst form
  rw [form?_bare notLeading, bareForm?_of_word notFunction next fun both => notConst both.1]
  exact form

/-! ### The rules and their forms -/

theorem form?_of_functionRule (h : functionRule.Ends k e) :
    form? (k.after.dropWhile Text.isBlank) = some .function := by
  obtain ⟨a, blanks, b, exported, c, default, d, declared, f, async, g, word, _⟩ := h
  rw [← blanks.after_run, form?_of_maybe (by decide) exported, form?_of_maybe (by decide) default,
    form?_of_maybe (by decide) declared, form?_of_maybe (w := "async") (by decide) async]
  have first : headWord f.after = "function".toList ++ headWord g.after := by
    have letters : "function".toList.all continuesIdentifier := by decide
    rw [headWord, word.after_literal]
    exact List.takeWhile_append_of_pos (List.all_eq_true.1 letters)
  have notLeading : headWord f.after ∉ leadingWords.map String.toList := by
    rw [first]
    simp [leadingWords]
  rw [form?_bare notLeading, bareForm?, first]
  simp

theorem form?_of_arrowRule (h : arrowRule.Ends k e) :
    form? (k.after.dropWhile Text.isBlank) = some .binding := by
  obtain ⟨a, blanks, b, exported, c, word, d, gap, f, name, g, blanks', i, annotation, j, equals, _⟩ := h
  rw [← blanks.after_run, form?_of_maybe (by decide) exported]
  obtain ⟨first, eq⟩ := after_word_gap (by decide) ⟨c, word, gap⟩
  obtain ⟨next, behind⟩ := after_identifier_blanks name blanks'
  have lone : ∀ v ∈ ["const", "let", "var"].map String.toList,
      v ∉ leadingWords.map String.toList ∧ "function".toList.isPrefixOf v = false ∧
      formWords.lookup (.ofList v) = some .binding := by decide
  obtain ⟨notLeading, notFunction, form⟩ := lone _ first
  -- behind the name stands no other one, as behind the word `enum`
  have mark : g.after.head?.any [':', '='].contains := by
    rcases annotation with ⟨_, colon, _⟩ | rfl
    · exact head_of_char colon (by decide)
    · exact head_of_char equals (by decide)
  have single : ¬(behindWord (behindWord b.after)).head?.any startsIdentifier := by
    rw [← eq, ← behind]
    exact fun other => BeginsName.not_mark (by decide) other mark
  have next : (behindWord b.after).head?.any startsIdentifier := eq ▸ next
  rw [form?_bare notLeading, bareForm?_of_word notFunction next fun both => single both.2]
  exact form

theorem form?_of_classRule (h : classRule.Ends k e) :
    form? (k.after.dropWhile Text.isBlank) = some .classType := by
  obtain ⟨a, blanks, b, exported, c, default, d, declared, f, abstracted, g, word, name⟩ := h
  rw [← blanks.after_run, form?_of_maybe (by decide) exported, form?_of_maybe (by decide) default,
    form?_of_maybe (by decide) declared, form?_of_maybe (by decide) abstracted]
  exact form?_of_keyword (by decide) word name

theorem form?_of_interfaceRule (h : interfaceRule.Ends k e) :
    form? (k.after.dropWhile Text.isBlank) = some .interface := by
  obtain ⟨a, blanks, b, exported, c, default, d, declared, f, word, name⟩ := h
  rw [← blanks.after_run, form?_of_maybe (by decide) exported, form?_of_maybe (by decide) default,
    form?_of_maybe (by decide) declared]
  exact form?_of_keyword (by decide) word name

theorem form?_of_typeRule (h : typeRule.Ends k e) :
    form? (k.after.dropWhile Text.isBlank) = some .typeAlias := by
  obtain ⟨a, blanks, b, exported, c, declared, d, word, f, name, _⟩ := h
  rw [← blanks.after_run, form?_of_maybe (by decide) exported, form?_of_maybe (by decide) declared]
  exact form?_of_keyword (by decide) word name

theorem form?_of_enumRule (h : enumRule.Ends k e) :
    form? (k.after.dropWhile Text.isBlank) = some .enumeration := by
  obtain ⟨a, blanks, b, exported, c, declared, d, constant, f, word, name⟩ := h
  rw [← blanks.after_run, form?_of_maybe (by decide) exported, form?_of_maybe (by decide) declared]
  rcases constant with constant | rfl
  · obtain ⟨first, eq⟩ := after_keyword (by decide) constant
    obtain ⟨second, eq'⟩ := after_keyword (by decide) word
    have named := beginsName_of_identifier name
    have among : headWord d.after ∈ ["enum"].map String.toList := List.mem_singleton.2 second
    have next : BeginsName d.after := beginsName_of_headWord (by unfold BeginsName; decide) among
    rw [eq'] at named
    rw [eq] at next second named
    have notLeading : headWord c.after ∉ leadingWords.map String.toList := by
      rw [first]
      decide
    rw [BeginsName] at next named
    rw [form?_bare notLeading, bareForm?, next, if_pos (⟨first, named⟩ : _ ∧ _), if_pos second, first]
    rfl
  · exact form?_of_keyword (by decide) word name

/-! ### Methods -/

/-- The words of methods that stand before no declaration, and no word at all. -/
def memberWords : List String :=
  ["", "public", "private", "protected", "static", "override", "readonly", "get", "set"]

theorem form?_eq_none (h : headWord t ∈ memberWords.map String.toList) : form? t = none := by
  have lone : ∀ v ∈ memberWords.map String.toList, v ∉ leadingWords.map String.toList ∧
      "function".toList.isPrefixOf v = false ∧ v ≠ "const".toList ∧
      formWords.lookup (.ofList v) = none := by decide
  obtain ⟨notLeading, notFunction, notConst, none⟩ := lone _ h
  rw [form?_bare notLeading]
  by_cases next : (behindWord t).head?.any startsIdentifier
  · rw [bareForm?_of_word notFunction next fun both => notConst both.1, none]
  · rw [bareForm?_of_alone next, notFunction]
    rfl

theorem headWord_of_mark {marks : List Char} (apart : marks.all (!continuesIdentifier ·))
    (h : t.head?.any marks.contains) : headWord t = [] := by
  cases t with
  | nil => cases h
  | cons c cs =>
    have other := List.all_eq_true.1 apart c (by simpa using h)
    rw [headWord, List.takeWhile_cons_of_neg (by simpa using other)]

/-- The words of a method tell no form but that of a function. -/
theorem MethodText.form? (h : MethodText t) : form? t = none ∨ form? t = some .function := by
  induction h with
  | @name t first next =>
    by_cases leading : headWord t ∈ leadingWords.map String.toList
    · rw [form?_behindWord leading]
      exact .inl (form?_eq_none (by rw [headWord_of_mark (by decide) next]; decide))
    · have alone : ¬(behindWord t).head?.any startsIdentifier := fun name =>
        BeginsName.not_mark (by decide) name next
      rw [form?_bare leading, bareForm?_of_alone alone]
      split
      · exact .inr rfl
      · exact .inl rfl
  | mark first =>
    exact .inl (form?_eq_none (by rw [headWord_of_mark (by decide) first]; decide))
  | modifier first _ ih =>
    have sorted : ∀ v ∈ methodModifiers.map String.toList,
        v ∈ leadingWords.map String.toList ∨ v ∈ memberWords.map String.toList := by decide
    rcases sorted _ first with leading | member
    · rw [form?_behindWord leading]
      exact ih
    · exact .inl (form?_eq_none member)
  | accessor first =>
    have member : ∀ v ∈ ["get", "set"].map String.toList, v ∈ memberWords.map String.toList := by
      decide
    exact .inl (form?_eq_none (member _ first))

/-! ### The word `function` -/

/-- No word comes to its end here: the character before is none of a word. -/
def BetweenWords (k : Cursor) : Prop := k.last.any Text.isWord = false

theorem not_isWord_of_isBlank {c : Char} (h : Text.isBlank c) : Text.isWord c = false := by
  have stops := not_continuesIdentifier_of_isBlank h
  rw [continuesIdentifier, Bool.or_eq_false_iff] at stops
  exact stops.1

theorem BetweenWords.blanks (h : BetweenWords k) (run : blanks.Ends k e) : BetweenWords e := by
  have behind : ∀ (text : List Char) (read : Nat) (last : Option Char), last.any Text.isWord = false →
      (Cursor.skipFrom Text.isBlank read last text).last.any Text.isWord = false := by
    intro text
    induction text with
    | nil => exact fun _ _ h => h
    | cons c cs ih =>
      intro read last h
      rw [Cursor.skipFrom]
      split
      · rename_i blank
        exact ih _ _ (not_isWord_of_isBlank blank)
      · exact h
  rw [show e = k.skip Text.isBlank from run]
  exact behind _ _ _ h

theorem BetweenWords.maybe (h : BetweenWords k) (word : (maybe w).Ends k e) : BetweenWords e := by
  rcases word with ⟨i, _, j, ⟨c, next, blank⟩, rest⟩ | rfl
  · refine BetweenWords.blanks (k := j) ?_ rest
    rw [Cursor.next?] at next
    split at next
    · cases next
    · obtain ⟨rfl, rfl⟩ := Prod.mk.inj (Option.some.inj next)
      exact not_isWord_of_isBlank blank
  · exact h

theorem functionWordRule_matchAt? (start : k.atWordEdge) (word : (literal "function").Ends k e)
    (stop : e.atWordEdge) : functionWordRule.matchAt? k = some ((Match.start k).moveTo e) := by
  have read : (literal "function").find? (find? wordEdge some) (Match.start k) =
      find? wordEdge some ((Match.start k).moveTo e) := find?_of_chars word
  show find? wordEdge (find? (literal "function") (find? wordEdge some)) (Match.start k) = _
  rw [find?, if_pos (show (Match.start k).cursor.atWordEdge from start), read, find?]
  exact if_pos stop

/-- A line with a function declaration holds the word `function`. -/
theorem functionWord_of_functionRule {line : List Char} (h : functionRule.Ends (.start line) e) :
    functionWordRule.search? line ≠ none := by
  obtain ⟨a, blanks, b, exported, c, default, d, declared, f, async, g, word, _, ⟨stop, _⟩, _⟩ := h
  have blank : BetweenWords a := BetweenWords.blanks (k := .start line) rfl blanks
  have apart : BetweenWords f :=
    ((blank.maybe exported).maybe default |>.maybe declared).maybe (w := "async") async
  have start : f.atWordEdge := by
    rw [Cursor.atWordEdge, show f.last.any Text.isWord = false from apart, word.after_literal]
    rfl
  refine search?_ne_none (blanks.passes.trans <| exported.passes.trans <| default.passes.trans <|
    declared.passes.trans async.passes) ?_
  rw [functionWordRule_matchAt? start word stop]
  exact Option.some_ne_none _

/-! ### One line -/

namespace SourceLine

variable {l : SourceLine} {s : SymbolRecord} {n : Nesting}

/-- The symbol that a line declares in a form. -/
def declaration? (l : SourceLine) : Form → Option SymbolRecord
  | .function => l.function?
  | .binding => l.arrowFunction?
  | .classType => l.class?
  | .interface => l.interface?
  | .typeAlias => l.typeAlias?
  | .enumeration => l.enumeration?

/-- A line declares something in the form that its words tell, and in no other. -/
theorem form?_of_declaration? {f : Form} (h : l.declaration? f = some s) :
    form? (Text.trimStart l.text) = some f := by
  cases f with
  | function =>
    obtain ⟨m, found, _⟩ := Option.map_eq_some_iff.1 h
    exact form?_of_functionRule (ends_of_match? found)
  | binding =>
    obtain ⟨m, found, _⟩ := Option.bind_eq_some_iff.1 h
    exact form?_of_arrowRule (ends_of_match? found)
  | classType =>
    obtain ⟨m, found, _⟩ := Option.map_eq_some_iff.1 h
    exact form?_of_classRule (ends_of_match? found)
  | interface =>
    obtain ⟨m, found, _⟩ := Option.map_eq_some_iff.1 h
    exact form?_of_interfaceRule (ends_of_match? found)
  | typeAlias =>
    obtain ⟨m, found, _⟩ := Option.map_eq_some_iff.1 h
    exact form?_of_typeRule (ends_of_match? found)
  | enumeration =>
    obtain ⟨m, found, _⟩ := Option.map_eq_some_iff.1 h
    exact form?_of_enumRule (ends_of_match? found)

/-- So what a line declares is known by its form. -/
theorem declared_eq (l : SourceLine) :
    l.declared = ((form? (Text.trimStart l.text)).bind l.declaration?).toList := by
  have others : ∀ f, form? (Text.trimStart l.text) ≠ some f → l.declaration? f = none := fun f other =>
    Option.eq_none_iff_forall_ne_some.2 fun _ found => other (form?_of_declaration? found)
  have listed : l.declared = [Form.function, .binding, .classType, .interface, .typeAlias,
      .enumeration].flatMap fun f => (l.declaration? f).toList := by
    simp [declared, declaration?]
  rw [listed]
  cases form : form? (Text.trimStart l.text) with
  | none => simp [others, form]
  | some f => cases f <;> simp [others, form]

/-- A line that reads as a method, without the word `function`, declares nothing else. -/
theorem declared_of_method {m : Match} (found : methodRule.match? l.text = some m)
    (free : functionWordRule.search? l.text = none) : l.declared = [] := by
  have noFunction : l.function? = none := by
    rw [function?, Option.map_eq_none_iff]
    exact Option.eq_none_iff_forall_ne_some.2 fun _ found =>
      functionWord_of_functionRule (ends_of_match? found) free
  rcases (methodText_of_match? found).form? with none | function
  · rw [declared_eq, none]
    rfl
  · rw [declared_eq, function]
    exact congrArg Option.toList noFunction

theorem declared_of_mem_methodWithin (h : s ∈ l.methodWithin n) : l.declared = [] := by
  rw [methodWithin] at h
  split at h
  · rename_i within
    rw [Bool.and_eq_true, Option.isNone_iff_eq_none] at within
    obtain ⟨m, found, _⟩ := Option.bind_eq_some_iff.1 (Option.mem_toList.1 h)
    exact declared_of_method found within.2
  · cases h

/-- A line has at most one symbol. -/
theorem length_symbols (l : SourceLine) (n : Nesting) :
    (l.declared ++ l.methodWithin n).length ≤ 1 := by
  have method : (l.methodWithin n).length ≤ 1 := by
    rw [methodWithin]
    split
    · exact Option.length_toList_le
    · exact Nat.zero_le 1
  cases found : l.methodWithin n with
  | nil =>
    rw [List.append_nil, declared_eq]
    exact Option.length_toList_le
  | cons s rest =>
    rw [declared_of_mem_methodWithin (found ▸ List.mem_cons_self), List.nil_append, ← found]
    exact method

theorem length_extract (l : SourceLine) (resolver : Resolver) (n : Nesting) :
    (l.extract resolver n).1.symbols.length ≤ 1 := by
  rw [extract]
  split
  · exact Nat.zero_le 1
  · exact l.length_symbols _

end SourceLine

/-- What it declares is that symbol, wherever it stands. -/
theorem SourceLine.symbols_extract_of_declared {l : SourceLine} {s : SymbolRecord} (mem : s ∈ l.declared)
    (code : l.isComment = false) (resolver : Resolver) (n : Nesting) :
    (l.extract resolver n).1.symbols = [s] := by
  rw [SourceLine.extract, code, if_neg Bool.false_ne_true]
  have short := l.length_symbols (l.nestingWithin n)
  have among : s ∈ l.declared ++ l.methodWithin (l.nestingWithin n) := List.mem_append_left _ mem
  obtain ⟨only, single⟩ := List.length_eq_one_iff.1
    (Nat.le_antisymm short (List.length_pos_of_mem among))
  simp only [single] at among ⊢
  rw [List.mem_singleton.1 among]

/-! ### All lines -/

variable {resolver : Resolver} {path : String}

/-- The lines of the symbols increase. -/
theorem increasing_extractLines (lines : List (List Char)) (number : Nat) (n : Nesting) :
    (extractLines resolver path number n lines).symbols.Pairwise fun a b => a.line < b.line := by
  induction lines generalizing number n with
  | nil => exact .nil
  | cons text rest ih =>
    rw [extractLines_cons]
    refine List.pairwise_append.2 ⟨?_, ih _ _, fun a here b later => ?_⟩
    · have short := SourceLine.length_extract ⟨path, number, text⟩ resolver n
      rcases Nat.le_one_iff_eq_zero_or_eq_one.1 short with none | one
      · rw [List.length_eq_zero_iff.1 none]
        exact .nil
      · obtain ⟨s, single⟩ := List.length_eq_one_iff.1 one
        rw [single]
        exact List.pairwise_singleton _ _
    · obtain ⟨before, line, _, _, mem⟩ := mem_symbols_extractLines.1 later
      have first := SourceLine.line_of_mem_extract here
      have second := SourceLine.line_of_mem_extract mem
      simp only at first second
      omega

/-- No two rules take the same line: wherever it stands, it has one symbol at most. So the symbols of a
text stand on increasing lines, and each of them is known by its line. -/
theorem symbol_of_line (resolver : Resolver) (content path : String) :
    (∀ (l : SourceLine) (n : Nesting), (l.declared ++ l.methodWithin n).length ≤ 1) ∧
      ((extract resolver content path).symbols.map (·.line)).Pairwise (· < ·) ∧
      ∀ a ∈ (extract resolver content path).symbols, ∀ b ∈ (extract resolver content path).symbols,
        a.line = b.line → a = b := by
  have increasing : ((extract resolver content path).symbols.map (·.line)).Pairwise (· < ·) :=
    List.pairwise_map.2 (increasing_extractLines _ _ _)
  exact ⟨SourceLine.length_symbols, increasing,
    List.inj_on_of_nodup_map (increasing.imp Nat.ne_of_lt)⟩

end Source

end SourceAtlas
