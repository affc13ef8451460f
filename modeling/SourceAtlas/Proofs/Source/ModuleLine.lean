import SourceAtlas.Proofs.Source.ModuleStatement
/-!
Lines that name modules. A call of `require` is found only where its `(` stands before a quote with
another quote behind it, so a statement has none, and in a list of calls each search ends behind the
call that it comes to. So a line has an edge for each module that it was made from, in their order, and
no other.
-/

namespace SourceAtlas.Source

open Pattern QuotedModule

variable {q : QuotedModule} {t rest : List Char}

/-! ### Calls -/

/-- Behind the word and a `(`, a call has two quotes. -/
theorem exists_quotes_of_requireRule {k e : Cursor} (h : requireRule.Ends k e) :
    ∃ before gap quote behind, k.after = before ++ '(' :: (gap ++ quote :: behind) ∧
      (∀ c ∈ gap, Text.isBlank c) ∧ isQuote quote ∧ ∃ c ∈ behind, isQuote c := by
  obtain ⟨_, ⟨_, rfl⟩, a, word, b, blank, d, paren, f, blank', _, ⟨g, ⟨quote, next, quoted⟩, i, name,
    ⟨quote', next', quoted'⟩⟩, _⟩ := h
  obtain ⟨space, _, front⟩ := blank.exists_run
  obtain ⟨gap, gapBlank, inner⟩ := blank'.exists_run
  refine ⟨"require".toList ++ space, gap, quote, g.after, ?_, gapBlank, quoted, quote', ?_, quoted'⟩
  · rw [word.after_literal, front, paren.after_char, inner, after_of_next? next, List.append_assoc]
  · have behind := name.after_oneOrMore.2
    rw [after_of_next? next'] at behind
    exact List.dropWhile_subset _ (behind ▸ List.mem_cons_self)

/-- Before the `(` stands the word alone. -/
theorem head_of_requireRule {k e : Cursor} (h : requireRule.Ends k e) :
    headWord k.after = "require".toList ∧ (behindWord k.after).head? = some '(' := by
  obtain ⟨_, ⟨_, rfl⟩, a, word, b, blank, d, paren, _⟩ := h
  have letters : "require".toList.all continuesIdentifier := by decide
  have mark : a.after.dropWhile Text.isBlank = '(' :: d.after := by
    rw [← blank.after_run, paren.after_char]
  cases text : a.after with
  | nil =>
    rw [text] at mark
    cases mark
  | cons c cs =>
    have stop : continuesIdentifier c = false := by
      rw [text, List.dropWhile_cons] at mark
      split at mark
      · rename_i blank
        exact not_continuesIdentifier_of_isBlank blank
      · rw [(List.cons.inj mark).1]
        decide
    rw [word.after_literal]
    constructor
    · exact headWord_append (List.all_eq_true.1 letters) (by rw [text]; rintro d ⟨⟩; exact stop)
    · rw [behindWord, List.dropWhile_append_of_pos (List.all_eq_true.1 letters), text,
        List.dropWhile_cons_of_neg (by simp [stop]), ← text, mark]
      rfl

theorem begins_of_requireRule {k e : Cursor} (h : requireRule.Ends k e) : k.after.head? = some 'r' := by
  obtain ⟨_, ⟨_, rfl⟩, a, word, _⟩ := h
  rw [word.after_literal]
  rfl

theorem requireRule_skips (other : 'r' ∉ t) (rest : List Char) : requireRule.Skips t rest :=
  skips_of_head? (fun _ _ ends => ⟨'r', begins_of_requireRule ends, other⟩) rest

theorem requireRule_filled : Filled requireRule :=
  (((filled_one _).both _).both _).behind_wordEdge

/-- The text before the first quote. -/
theorem takeWhile_unquoted {quote : Char} (unquoted : ∀ c ∈ t, isQuote c = false) (quoted : isQuote quote) :
    (t ++ quote :: rest).takeWhile (!isQuote ·) = t := by
  refine Text.takeWhile_append_stop (fun c mem => by simp [unquoted c mem]) ?_
  rintro c ⟨⟩
  simp [quoted]

theorem countP_isQuote (unquoted : ∀ c ∈ t, isQuote c = false) : t.countP isQuote = 0 :=
  List.countP_eq_zero.2 fun c mem => by simp [unquoted c mem]

/-- No call stands in a text whose two quotes stand behind something else than a `(`. -/
theorem requireRule_searchAll_eq_nil {front : List Char} {mark : Char} (h : q.Plain)
    (unquoted : ∀ c ∈ front, isQuote c = false) (last : front = t ++ [mark] ++ [' ']) (other : mark ≠ '(')
    (ink : Text.isBlank mark = false) : requireRule.searchAll (front ++ (q.text ++ [';'])) = [] := by
  refine searchAll_eq_nil (searchFrom?_eq_none (k := Cursor.start _) fun j e passes ends => other ?_)
  obtain ⟨before, gap, quote, behind, eq, blank, quoted, d, mem, quoted'⟩ :=
    exists_quotes_of_requireRule ends
  obtain ⟨skipped, whole⟩ := passes.suffix
  have parts : front ++ q.quote :: (q.name ++ [q.quote] ++ [';']) =
      (skipped ++ before ++ ['('] ++ gap) ++ quote :: behind := by
    rw [show front ++ q.quote :: (q.name ++ [q.quote] ++ [';']) = _ from whole.symm, eq]
    simp
  -- as two quotes are all there are, none stands before the `(`
  have unquoted' : ∀ c ∈ skipped ++ before ++ ['('] ++ gap, isQuote c = false := by
    have quotes := congrArg (List.countP isQuote) parts
    have later : 0 < behind.countP isQuote := List.countP_pos_iff.2 ⟨d, mem, quoted'⟩
    have closing : List.countP isQuote [q.quote] = 1 := by simp [h.quote]
    have ending : List.countP isQuote [';'] = 0 := rfl
    rw [List.countP_append, List.countP_append, List.countP_cons_of_pos h.quote,
      List.countP_cons_of_pos quoted, List.countP_append, List.countP_append, countP_isQuote unquoted,
      countP_isQuote h.unquoted, closing, ending] at quotes
    have zero : (skipped ++ before ++ ['('] ++ gap).countP isQuote = 0 := by omega
    exact fun c mem => by simpa using List.countP_eq_zero.1 zero c mem
  -- so what ends in it is all the text before the quotes
  have same : t ++ [mark] ++ [' '] = skipped ++ before ++ ['('] ++ gap := by
    rw [← last, ← takeWhile_unquoted unquoted h.quote, parts, takeWhile_unquoted unquoted' quoted]
  have trimmed := congrArg Text.trimEnd same
  rw [Text.trimEnd_concat_blanks ink Text.isBlank_of_mem_space,
    Text.trimEnd_concat_blanks (by decide) blank] at trimmed
  exact List.singleton_inj.1 (List.append_inj' trimmed rfl).2

/-! ### Lines of calls -/

/-- A name bound to the module that a call gives. -/
structure RequireCall where
  name : List Char
  module : QuotedModule
  deriving DecidableEq, Repr

namespace RequireCall

def text (r : RequireCall) : List Char :=
  r.name ++ " = ".toList ++ ("require(".toList ++ (r.module.text ++ [')']))

structure Plain (r : RequireCall) : Prop where
  name : IsName r.name
  module : r.module.Plain

variable {r : RequireCall}

/-- No call is read from the name on, even if it is the word itself: a `=` stands behind it. -/
theorem Plain.skips (h : r.Plain) (rest : List Char) :
    requireRule.Skips (r.name ++ " = ".toList) ("require(".toList ++ rest) := by
  refine Skips.append (fun b suffix filled k e front ends => ?_) (requireRule_skips (by decide) _)
  obtain ⟨_, mark⟩ := head_of_requireRule ends
  have letters : ∀ c ∈ b, continuesIdentifier c := fun c mem => h.name.2 c (suffix.mem mem)
  rw [front, behindWord, List.dropWhile_append_of_pos letters] at mark
  exact absurd (show some '=' = some '(' from mark) (by decide)

theorem exists_requireRule {k : Cursor} (h : q.Plain) (edge : k.last = some ' ')
    (front : k.after = "require(".toList ++ (q.text ++ ')' :: rest)) :
    ∃ m, requireRule.matchAt? k = some m ∧ m.group 1 = q.name ∧ m.rest = rest := by
  let start := Match.start k
  let a := start.moveTo (start.cursor.past "require".toList ('(' :: (q.text ++ ')' :: rest)))
  let b := a.moveTo (a.cursor.past ['('] (q.text ++ ')' :: rest))
  have word : (literal "require").Goes start a := goes_literal front
  have atEdge : wordEdge.Goes start start := by
    refine goes_wordEdge ?_
    rw [Cursor.atWordEdge, show start.cursor.last = some ' ' from edge,
      show start.cursor.after = _ from front]
    rfl
  have noSpace : blanks.Goes a a := goes_noRun (by rintro x ⟨⟩; decide)
  have opened : (char '(').Goes a b := goes_one rfl rfl
  have noSpace' : blanks.Goes b b := goes_noRun h.ink
  obtain ⟨c, named, restC, name⟩ := h.exists_goes (show b.rest = q.text ++ ')' :: rest from rfl)
  have noSpace'' : blanks.Goes c c := goes_noRun (by rw [restC]; rintro x ⟨⟩; decide)
  have closed : (char ')').Goes c (c.moveTo (c.cursor.past [')'] rest)) := goes_one restC rfl
  exact ⟨_, (atEdge.both (word.both (noSpace.both (opened.both (noSpace'.both (named.both
    (noSpace''.both closed))))))).matchAt?, name, rfl⟩

/-- A search from the name on comes to the call, and goes on behind it. -/
theorem Plain.matchesFrom (h : r.Plain) {k : Cursor} (front : k.after = r.text ++ rest) :
    ∃ m, requireRule.matchesFrom k = m :: requireRule.matchesFrom m.cursor ∧
      m.group 1 = r.module.name ∧ m.rest = rest := by
  let behind := "require(".toList ++ (r.module.text ++ ')' :: rest)
  have text : k.after = (r.name ++ " = ".toList) ++ behind := by
    rw [front, RequireCall.text]
    simp [behind]
  let i := k.past (r.name ++ " = ".toList) behind
  have edge : i.last = some ' ' := by
    have last : (r.name ++ " = ".toList).getLast? = some ' ' := by
      rw [List.getLast?_append]
      rfl
    exact congrArg (·.or k.last) last
  obtain ⟨m, found, name, stop⟩ := exists_requireRule h.module edge rfl
  refine ⟨m, ?_, name, stop⟩
  have here : requireRule.searchFrom? i.read i.last i.after = some m := searchFrom?_of_matchAt? found
  rw [matchesFrom_past requireRule_filled (h.skips _) text, matchesFrom_eq requireRule_filled i, here]

/-- The calls of a line, one after the other. -/
def listText (rs : List RequireCall) : List Char := List.intercalate ", ".toList (rs.map text) ++ [';']

theorem matchesFrom_listText {rs : List RequireCall} (h : ∀ r ∈ rs, r.Plain) {k : Cursor}
    (front : k.after = listText rs) :
    (requireRule.matchesFrom k).map (·.group 1) = rs.map (·.module.name) := by
  have nothing : ∀ {k : Cursor}, k.after = [';'] → requireRule.matchesFrom k = [] := by
    intro k front
    have none : requireRule.searchFrom? k.read k.last k.after = none := by
      refine searchFrom?_eq_none fun j e passes ends => ?_
      have mem := passes.suffix.mem (List.mem_of_mem_head? (begins_of_requireRule ends))
      rw [front] at mem
      exact absurd mem (by decide)
    rw [matchesFrom_eq requireRule_filled, none]
  induction rs generalizing k with
  | nil =>
    rw [nothing front]
    rfl
  | cons r rs ih =>
    have later := @ih fun r mem => h r (List.mem_cons_of_mem _ mem)
    cases rs with
    | nil =>
      have parts : k.after = r.text ++ [';'] := by
        rw [front, listText, List.map_singleton, List.intercalate_singleton]
      obtain ⟨m, all, name, stop⟩ := (h r List.mem_cons_self).matchesFrom parts
      rw [all, nothing stop, List.map_singleton, name]
      rfl
    | cons next rs =>
      have parts : k.after = r.text ++ (", ".toList ++ listText (next :: rs)) := by
        rw [front, listText, List.map_cons, List.map_cons, List.intercalate_cons_cons, listText,
          List.map_cons]
        simp
      obtain ⟨m, all, name, stop⟩ := (h r List.mem_cons_self).matchesFrom parts
      rw [all, List.map_cons, name, matchesFrom_past requireRule_filled (requireRule_skips (by decide) _) stop,
        later rfl]
      rfl

end RequireCall

/-! ### Lines -/

/-- A line that names modules: a statement, or a declaration of names bound to calls. -/
inductive ModuleLine where
  | statement (front : StatementFront) (module : QuotedModule)
  | calls (calls : List RequireCall)
  deriving DecidableEq, Repr

namespace ModuleLine

def text : ModuleLine → List Char
  | statement front module => front.text ++ (module.text ++ [';'])
  | calls rs => "const ".toList ++ RequireCall.listText rs

/-- The modules that are named. -/
def specifiers : ModuleLine → List (List Char)
  | statement _ module => [module.name]
  | calls rs => rs.map (·.module.name)

/-- The parts may stand where they do. -/
def Plain : ModuleLine → Prop
  | statement front module => front.Plain ∧ module.Plain
  | calls rs => ∀ r ∈ rs, r.Plain

variable {l : ModuleLine} {path : String} {number : Nat}

theorem text_statement (front : StatementFront) (module : QuotedModule) :
    (statement front module).text = front.text ++ (module.text ++ [';']) := rfl

theorem text_calls (rs : List RequireCall) :
    (calls rs).text = "const ".toList ++ RequireCall.listText rs := rfl

/-- The line names these modules and no others. -/
theorem Plain.specifiers_eq (h : l.Plain) :
    (⟨path, number, l.text⟩ : SourceLine).specifiers = l.specifiers := by
  cases l with
  | statement front module =>
    obtain ⟨m, found, name⟩ := h.1.exists_match h.2 [';']
    obtain ⟨t, mark, last, other, ink⟩ := front.exists_last
    have noCalls := requireRule_searchAll_eq_nil h.2 h.1.unquoted last other ink
    rw [SourceLine.specifiers, text_statement, noCalls, found]
    exact congrArg (fun s => [s]) name
  | calls rs =>
    have first : (Text.trimStart (calls rs).text).head? = some 'c' := rfl
    have none : [importRule, reexportRule, importTailRule].findSome? (·.match? (calls rs).text) = none := by
      rw [List.findSome?_cons, importRule_eq_none (by rw [first]; decide), List.findSome?_cons,
        reexportRule_eq_none (by rw [first]; decide), List.findSome?_cons,
        importTailRule_eq_none (by rw [first]; decide), List.findSome?_nil]
    have all : requireRule.searchAll (calls rs).text = requireRule.matchesFrom
        ((Cursor.start (calls rs).text).past "const ".toList (RequireCall.listText rs)) :=
      matchesFrom_past requireRule_filled (requireRule_skips (by decide) _) rfl
    rw [SourceLine.specifiers, none, all]
    exact RequireCall.matchesFrom_listText h rfl

/-- It is no comment. -/
theorem isComment_eq_false (l : ModuleLine) : (⟨path, number, l.text⟩ : SourceLine).isComment = false := by
  cases l with
  | statement front module => cases front <;> rfl
  | calls rs => rfl

theorem isLine_text (oneLine : '\n' ∉ l.text) : Text.IsLine l.text := by
  have last : l.text.getLast? = some ';' := by
    cases l with
    | statement front module =>
      rw [text_statement, ← List.append_assoc, List.getLast?_concat]
    | calls rs =>
      rw [text_calls, RequireCall.listText, ← List.append_assoc, List.getLast?_concat]
  exact ⟨oneLine, by rw [last]; decide⟩

/-- The edge to a module on a line of a file. -/
def edge (resolver : Resolver) (path : String) (number : Nat) (specifier : List Char) : DependencyEdge :=
  { source := path, specifier := .ofList specifier
    resolved := resolver.resolve? (.ofList specifier) path
    kind := .importing, filePath := path, line := number }

theorem Plain.dependencies_extract (h : l.Plain) (resolver : Resolver) (n : Nesting) :
    (SourceLine.extract ⟨path, number, l.text⟩ resolver n).1.dependencies =
      l.specifiers.map (edge resolver path number) := by
  rw [SourceLine.extract, l.isComment_eq_false, if_neg Bool.false_ne_true]
  simp only [SourceLine.dependencies, h.specifiers_eq]
  rfl

end ModuleLine

/-! ### Texts -/

/-- The edges of lines tell on which of them they were found. -/
theorem line_of_mem_dependencies {resolver : Resolver} {path : String} {lines : List (List Char)}
    {number : Nat} {n : Nesting} {e : DependencyEdge}
    (h : e ∈ (extractLines resolver path number n lines).dependencies) :
    number ≤ e.line ∧ e.line < number + lines.length := by
  induction lines generalizing number n with
  | nil => exact absurd h List.not_mem_nil
  | cons text lines ih =>
    rw [extractLines_cons] at h
    rw [List.length_cons]
    rcases List.mem_append.1 h with here | later
    · rw [SourceLine.extract] at here
      split at here
      · exact absurd here List.not_mem_nil
      · obtain ⟨s, _, rfl⟩ := List.mem_map.1 here
        simp only
        omega
    · have behind := ih later
      omega

/-- Wherever in a text a line names modules, the edges of that line are those to the modules it names, one
for each in their order. -/
theorem dependencies_of_moduleLine (resolver : Resolver) (path : String) {l : ModuleLine} (h : l.Plain)
    (oneLine : '\n' ∉ l.text) (before after : List (List Char))
    (others : ∀ line ∈ before ++ after, Text.IsLine line) {content : String}
    (has : Text.HasLines content.toList (before ++ l.text :: after)) :
    (extract resolver content path).dependencies.filter (·.line = before.length + 1) =
      l.specifiers.map (ModuleLine.edge resolver path (before.length + 1)) := by
  have plain : ∀ line ∈ before ++ l.text :: after, Text.IsLine line := by
    simp only [List.forall_mem_append, List.forall_mem_cons] at others ⊢
    exact ⟨others.1, ModuleLine.isLine_text oneLine, others.2⟩
  have none : ∀ {lines : List (List Char)} {number : Nat} {n : Nesting},
      (before.length + 1 < number ∨ number + lines.length ≤ before.length + 1) →
      (extractLines resolver path number n lines).dependencies.filter
        (·.line = before.length + 1) = [] := by
    intro lines number n apart
    refine List.filter_eq_nil_iff.2 fun e mem => ?_
    have here := line_of_mem_dependencies mem
    simp only [decide_eq_true_eq]
    omega
  have own : ∀ e ∈ l.specifiers.map (ModuleLine.edge resolver path (before.length + 1)),
      decide (e.line = before.length + 1) := by
    intro e mem
    obtain ⟨s, _, rfl⟩ := List.mem_map.1 mem
    exact decide_eq_true rfl
  rw [extract_of_hasLines plain has, extractLines_append, extractLines_cons, Nat.add_comm 1]
  simp only [Extraction.append, List.filter_append]
  rw [none (.inr (by omega)), none (.inl (by omega)), h.dependencies_extract, List.filter_eq_self.2 own,
    List.nil_append, List.append_nil]

/-- An import whose names are the words of the rules. -/
def wordyImport : ModuleLine :=
  .statement (.clause true "type, \x7b from, require \x7d".toList) ⟨'\x27', "require(".toList⟩

/-- Calls bound to names that are words of the rules. -/
def wordyCalls : ModuleLine :=
  .calls [⟨"require".toList, '"', "./a".toList⟩, ⟨"from".toList, '\x27', "b = require(".toList⟩]

theorem dependencies_of_wordyLines :
    let lines := [wordyImport.text, wordyCalls.text]
    let content := String.ofList (Text.ofLines lines)
    let found := (extract {} content "/a.ts").dependencies
    wordyImport.Plain ∧ wordyCalls.Plain ∧ '\n' ∉ wordyImport.text ∧ '\n' ∉ wordyCalls.text ∧
      (∀ line ∈ lines, Text.IsLine line) ∧ Text.HasLines content.toList lines ∧
      found.filter (·.line = 1) = wordyImport.specifiers.map (ModuleLine.edge {} "/a.ts" 1) ∧
      found.filter (·.line = 2) = wordyCalls.specifiers.map (ModuleLine.edge {} "/a.ts" 2) ∧
      found.map (·.specifier) = ["require(", "./a", "b = require("] := by
  intro lines content found
  have import_ : wordyImport.Plain := ⟨⟨by decide, by decide, by decide⟩, by decide, by decide, by decide⟩
  have calls : wordyCalls.Plain := by
    refine List.forall_mem_cons.2 ⟨⟨by decide, by decide, by decide, by decide⟩,
      List.forall_mem_singleton.2 ⟨by decide, by decide, by decide, by decide⟩⟩
  have first : '\n' ∉ wordyImport.text := by decide
  have second : '\n' ∉ wordyCalls.text := by decide
  have plain : ∀ line ∈ lines, Text.IsLine line := by decide
  have has : Text.HasLines content.toList lines := .inl String.toList_ofList
  exact ⟨import_, calls, first, second, plain, has,
    dependencies_of_moduleLine {} "/a.ts" import_ first [] [wordyCalls.text] (by decide) has,
    dependencies_of_moduleLine {} "/a.ts" calls second [wordyImport.text] [] (by decide) has,
    by decide +kernel⟩

end SourceAtlas.Source
