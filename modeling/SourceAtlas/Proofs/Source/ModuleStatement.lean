import SourceAtlas.Proofs.Pattern.Search
import SourceAtlas.Proofs.Source.FunctionLine
/-!
Import and export statements, as they are written. What stands before the module tells which of the
three rules takes the line: one rule alone does, and it goes over the clause or the names up to the
quotes and keeps the text between them.
-/

namespace SourceAtlas.Source

open Pattern

variable {m : Match} {c : Char} {t rest : List Char}

/-! ### Characters -/

theorem eq_of_isQuote (h : isQuote c) : c ∈ ['"', '\x27'] := by
  rw [isQuote, Bool.or_eq_true, beq_iff_eq, beq_iff_eq] at h
  rcases h with code | rfl
  · rw [Char.toNat_inj.1 (show c.toNat = '\x27'.toNat from code)]
    decide
  · decide

theorem not_isBlank_of_isQuote (h : isQuote c) : Text.isBlank c = false := by
  have marks : ∀ c ∈ ['"', '\x27'], Text.isBlank c = false := by decide
  exact marks c (eq_of_isQuote h)

theorem not_inClause_of_isQuote (h : isQuote c) : inClause c = false := by
  have marks : ∀ c ∈ ['"', '\x27'], inClause c = false := by decide
  exact marks c (eq_of_isQuote h)

theorem not_isQuote_of_inClause (h : inClause c) : isQuote c = false := by
  by_contra quoted
  rw [not_inClause_of_isQuote (Bool.not_eq_false _ ▸ quoted)] at h
  cases h

theorem inClause_of_continues (h : continuesIdentifier c) : inClause c := by
  simp [inClause, h]

/-! ### Modules in quotes -/

/-- A module as it is named. -/
structure QuotedModule where
  quote : Char
  name : List Char
  deriving DecidableEq, Repr

namespace QuotedModule

def text (q : QuotedModule) : List Char := q.quote :: (q.name ++ [q.quote])

/-- The name has a text without quotes. -/
structure Plain (q : QuotedModule) : Prop where
  quote : isQuote q.quote
  filled : q.name ≠ []
  unquoted : ∀ c ∈ q.name, isQuote c = false

variable {q : QuotedModule}

theorem Plain.ink (h : q.Plain) : ∀ c ∈ (q.text ++ rest).head?, Text.isBlank c = false := by
  rintro c ⟨⟩
  exact not_isBlank_of_isQuote h.quote

theorem Plain.headWord (h : q.Plain) : headWord (q.text ++ rest) = [] := by
  have other : continuesIdentifier q.quote = false := by
    by_contra letter
    rw [Bool.not_eq_false] at letter
    have quoted := h.quote
    rw [not_isQuote_of_inClause (inClause_of_continues letter)] at quoted
    cases quoted
  rw [Source.headWord, text, List.cons_append, List.takeWhile_cons_of_neg (by simp [other])]

/-- The rule for modules reads the name. -/
theorem Plain.exists_goes (h : q.Plain) (front : m.rest = q.text ++ rest) :
    ∃ e, moduleName.Goes m e ∧ e.rest = rest ∧ e.group 1 = q.name := by
  obtain ⟨quote, name⟩ := q
  obtain ⟨c, cs, rfl⟩ := List.exists_cons_of_ne_nil h.filled
  have letters : ∀ d ∈ c :: cs, !isQuote d := fun d mem => by simp [h.unquoted d mem]
  -- the places behind the first quote and behind the name
  let i := m.moveTo (m.cursor.past [quote] (c :: cs ++ quote :: rest))
  let j := i.moveTo (i.cursor.past (c :: cs) (quote :: rest))
  let k : Match := { j with groups := (1, i.cursor, j.cursor) :: j.groups }
  have opened : (one isQuote).Goes m i := by
    refine goes_one ?_ h.quote
    rw [front, text]
    simp
  have named : (group 1 (oneOrMore fun c => !isQuote c)).Goes i k :=
    (goes_one_run rfl (letters c List.mem_cons_self)
      (fun d mem => letters d (List.mem_cons_of_mem c mem)) (by
        rintro d ⟨⟩
        simpa using h.quote)).group 1
  have closed : (one isQuote).Goes k (k.moveTo (k.cursor.past [quote] rest)) := goes_one rfl h.quote
  exact ⟨_, opened.both (named.both closed), rfl, Cursor.upTo_past rfl⟩

end QuotedModule

open QuotedModule

variable {q : QuotedModule}

/-! ### Imports -/

/-- What an import may take from its module. -/
structure IsClauseText (t : List Char) : Prop where
  filled : t ≠ []
  trimmed : Text.trim t = t
  letters : ∀ c ∈ t, inClause c

theorem IsClauseText.behind_type (h : IsClauseText t) (onlyTypes : Bool) :
    IsClauseText (wordIf onlyTypes "type" ++ t) := by
  cases onlyTypes with
  | true =>
    refine ⟨List.append_ne_nil_of_right_ne_nil _ h.filled, ?_, fun c mem => ?_⟩
    · exact Text.trim_enclosed (by decide) h.trimmed (List.cons_ne_nil _ _) h.filled [' ']
    · rcases List.mem_append.1 mem with word | own
      · have letters : ∀ c ∈ wordIf true "type", inClause c := by decide
        exact letters c word
      · exact h.letters c own
  | false => exact h

/-- The text between the word `import` and the module is a clause. -/
theorem IsClauseText.isClause (h : IsClauseText t) :
    isClause ([' '] ++ (t ++ " from ".toList)) := by
  have whole : [' '] ++ (t ++ " from ".toList) = ([' '] ++ t ++ [' ']) ++ "from".toList ++ [' '] := by simp
  have trimmed : Text.trimEnd ([' '] ++ (t ++ " from ".toList)) = ([' '] ++ t ++ [' ']) ++ "from".toList := by
    rw [whole, Text.trimEnd_append_blanks Text.isBlank_of_mem_space, Text.trimEnd_eq_self_iff]
    rw [List.getLast?_append]
    rintro c ⟨⟩
    decide
  have long : 0 < t.length := List.length_pos_iff.2 h.filled
  have ends : ([' '] ++ t ++ [' '] ++ "from".toList ++ [' ']).getLast?.any Text.isBlank := by
    rw [List.getLast?_concat]
    rfl
  have front : ([' '] ++ t ++ [' ']).getLast?.any Text.isBlank := by
    rw [List.getLast?_concat]
    rfl
  have begins : ([' '] ++ t ++ [' ']).head?.any Text.isBlank := rfl
  rw [Source.isClause, trimmed, Text.stripSuffix?_eq_some_iff.2 rfl, whole]
  simp only [ends, front, begins]
  simp
  omega

/-- No module stands directly behind `import` or `import type` where a clause stands. -/
theorem IsClauseText.not_bare (h : IsClauseText t) (front : m.rest = [' '] ++ (t ++ " from ".toList ++ rest))
    (e : Cursor) : ¬(both (both gap (maybe "type")) moduleName).Ends m.cursor e := by
  rintro ⟨i, ⟨j, gap, typed⟩, _, ⟨d, next, quoted⟩, _⟩
  have plain : ∀ d ∈ t, isQuote d = false := fun d mem => not_isQuote_of_inClause (h.letters d mem)
  have start : j.after = t ++ ' ' :: ('f' :: ("rom ".toList ++ rest)) := by
    obtain ⟨c, cs, rfl⟩ := List.exists_cons_of_ne_nil h.filled
    have ink := (Text.trim_eq_self_iff.1 h.trimmed).1 c rfl
    rw [gap.after_oneOrMore.2, show m.cursor.after = _ from front, List.singleton_append,
      List.dropWhile_cons_of_pos rfl, List.cons_append, List.cons_append,
      List.dropWhile_cons_of_neg (by simp [ink])]
    simp
  -- whatever is passed over, some text of the clause or the word `from` is still to come
  have behind : ∃ t', (∀ d ∈ t', isQuote d = false) ∧ i.after = t' ++ 'f' :: ("rom ".toList ++ rest) := by
    rcases typed with word | rfl
    · refine ⟨(t.dropWhile continuesIdentifier ++ [' ']).dropWhile Text.isBlank, fun d mem => ?_, ?_⟩
      · rcases List.mem_append.1 (List.dropWhile_subset _ mem) with inner | blank
        · exact plain d (List.dropWhile_subset _ inner)
        · rw [List.mem_singleton.1 blank]
          decide
      · rw [(after_keyword (by decide) word).2, start, behindWord, Text.dropWhile_append_cons (by decide),
          List.append_cons _ ' ',
          Text.dropWhile_append_cons (by decide)]
    · refine ⟨t ++ [' '], fun d mem => ?_, by rw [start, List.append_cons _ ' ']⟩
      rcases List.mem_append.1 mem with inner | blank
      · exact plain d inner
      · rw [List.mem_singleton.1 blank]
        decide
  obtain ⟨t', unquoted, eq⟩ := behind
  rw [after_of_next? next] at eq
  cases t' with
  | nil =>
    obtain rfl := (List.cons.inj eq).1
    exact absurd quoted (by decide)
  | cons c cs =>
    obtain rfl := (List.cons.inj eq).1
    rw [unquoted d List.mem_cons_self] at quoted
    cases quoted

/-- The rule for imports keeps the module of an import without a clause, -/
theorem exists_importRule_bare (h : q.Plain) (onlyTypes : Bool) (rest : List Char) :
    ∃ m, importRule.match? ("import".toList ++ ([' '] ++ (wordIf onlyTypes "type" ++
        (q.text ++ rest)))) = some m ∧ m.group 1 = q.name := by
  let line := "import".toList ++ ([' '] ++ (wordIf onlyTypes "type" ++ (q.text ++ rest)))
  let i := Match.start (Cursor.start line)
  let j := i.moveTo (i.cursor.past "import".toList ([' '] ++ (wordIf onlyTypes "type" ++ (q.text ++ rest))))
  let k := j.moveTo (j.cursor.past [' '] (wordIf onlyTypes "type" ++ (q.text ++ rest)))
  have word : (literal "import").Goes i j := goes_literal rfl
  have space : gap.Goes j k := goes_gap rfl (ink_wordIf (by decide) h.ink)
  have other : headWord (q.text ++ rest) ≠ "type".toList := by
    rw [h.headWord]
    decide
  obtain ⟨e, typed, restE, _⟩ := exists_goes_maybe "type" onlyTypes (by decide)
    (show k.rest = wordIf onlyTypes "type" ++ (q.text ++ rest) from rfl) h.ink other
  obtain ⟨f, named, _, name⟩ := h.exists_goes restE
  have unclaused := ((space.both typed).either (only isClause (run inClause))).both named
  exact ⟨f, match?_of_goes (by rintro c ⟨⟩; decide) (word.both unclaused), name⟩

/-- and that of one with a clause. -/
theorem exists_importRule_clause (h : q.Plain) (clause : IsClauseText t) (rest : List Char) :
    ∃ m, importRule.match? ("import".toList ++ ([' '] ++ (t ++ " from ".toList ++
        (q.text ++ rest)))) = some m ∧ m.group 1 = q.name := by
  let behind := [' '] ++ (t ++ " from ".toList ++ (q.text ++ rest))
  let line := "import".toList ++ behind
  let i := Match.start (Cursor.start line)
  let j := i.moveTo (i.cursor.past "import".toList behind)
  let k := j.moveTo (j.cursor.past ([' '] ++ (t ++ " from ".toList)) (q.text ++ rest))
  have word : (literal "import").Goes i j := goes_literal rfl
  have front : j.rest = ([' '] ++ (t ++ " from ".toList)) ++ (q.text ++ rest) := by
    rw [List.append_assoc]
    rfl
  have read : (run inClause).Goes j k := by
    refine goes_run front (List.forall_mem_append.2 ⟨by decide, List.forall_mem_append.2
      ⟨clause.letters, by decide⟩⟩) ?_
    rintro c ⟨⟩
    exact not_inClause_of_isQuote h.quote
  have fit : Source.isClause (j.cursor.upTo k.cursor) := by
    have text : j.cursor.upTo k.cursor = [' '] ++ (t ++ " from ".toList) := Cursor.upTo_past front
    rw [text]
    exact clause.isClause
  obtain ⟨e, named, _, name⟩ := h.exists_goes (show k.rest = q.text ++ rest from rfl)
  have clauseGoes := ((read.only fit).both named).otherwise_both (clause.not_bare rfl)
  exact ⟨e, match?_of_goes (by rintro c ⟨⟩; decide) (word.both clauseGoes), name⟩

/-! ### Exports -/

theorem goes_fromWord (front : m.rest = " from".toList ++ rest) :
    fromWord.Goes m (m.moveTo (m.cursor.past " from".toList rest)) := by
  have blank : blanks.Goes m (m.moveTo (m.cursor.past [' '] ("from".toList ++ rest))) :=
    goes_run front Text.isBlank_of_mem_space (by rintro c ⟨⟩; decide)
  have whole := blank.both (goes_literal rfl)
  simp only [Match.moveTo, Cursor.past_past] at whole
  exact whole

/-- What an export tells of the names that it passes on. -/
def passedOn : Pattern :=
  either (both (char '*') (either renamedFrom fromWord)) (all [char '{', run (· != '}'), char '}', fromWord])

theorem exists_passedOn_everything (front : m.rest = '*' :: (" from".toList ++ rest)) :
    ∃ e, passedOn.Goes m e ∧ e.rest = rest := by
  let i := m.moveTo (m.cursor.past ['*'] (" from".toList ++ rest))
  have star : (char '*').Goes m i := goes_one front rfl
  have plain : ∀ e, ¬renamedFrom.Ends i.cursor e := by
    rintro e ⟨j, gap, _, word, _⟩
    have behind := gap.after_oneOrMore.2
    rw [word.after_literal] at behind
    exact absurd (List.cons.inj behind).1 (by decide)
  have word : (either renamedFrom fromWord).Goes i _ := (goes_fromWord rfl).otherwise plain
  exact ⟨_, (star.both word).either _, rfl⟩

theorem exists_passedOn_renamed {name : List Char} (named : IsName name)
    (front : m.rest = '*' :: (" as ".toList ++ (name ++ (" from".toList ++ rest)))) :
    ∃ e, passedOn.Goes m e ∧ e.rest = rest := by
  let i := m.moveTo (m.cursor.past ['*'] (" as ".toList ++ (name ++ (" from".toList ++ rest))))
  let j := i.moveTo (i.cursor.past [' '] ("as".toList ++ ([' '] ++ (name ++ (" from".toList ++ rest)))))
  let k := j.moveTo (j.cursor.past "as".toList ([' '] ++ (name ++ (" from".toList ++ rest))))
  let l := k.moveTo (k.cursor.past [' '] (name ++ (" from".toList ++ rest)))
  have star : (char '*').Goes m i := goes_one front rfl
  have space : gap.Goes i j := goes_gap rfl (by rintro c ⟨⟩; decide)
  have word : (literal "as").Goes j k := goes_literal rfl
  have space' : gap.Goes k l := goes_gap rfl named.ink
  have identified : identifier.Goes l _ := goes_identifier rfl named (by rintro d ⟨⟩; decide)
  have whole : renamedFrom.Goes i _ :=
    space.both (word.both (space'.both ((identified.both (goes_fromWord rfl)).either _)))
  exact ⟨_, (star.both (whole.either _)).either _, rfl⟩

theorem exists_passedOn_names {names : List Char} (plain : ∀ c ∈ names, c ≠ '\x7d')
    (front : m.rest = '\x7b' :: (names ++ ('\x7d' :: (" from".toList ++ rest)))) :
    ∃ e, passedOn.Goes m e ∧ e.rest = rest := by
  let i := m.moveTo (m.cursor.past ['\x7b'] (names ++ ('\x7d' :: (" from".toList ++ rest))))
  let j := i.moveTo (i.cursor.past names ('\x7d' :: (" from".toList ++ rest)))
  let k := j.moveTo (j.cursor.past ['\x7d'] (" from".toList ++ rest))
  have opened : (char '\x7b').Goes m i := goes_one front rfl
  have read : (run (· != '\x7d')).Goes i j :=
    goes_run rfl (fun c mem => by simpa using plain c mem) (by rintro c ⟨⟩; decide)
  have closed : (char '\x7d').Goes j k := goes_one rfl rfl
  have whole := opened.both (read.both (closed.both (goes_fromWord rfl)))
  exact ⟨_, whole.otherwise (not_char front (by decide)), rfl⟩

/-- The rule for exports keeps the module behind them. -/
theorem exists_reexportRule (h : q.Plain) (onlyTypes : Bool) (middle rest : List Char)
    (mark : middle.head?.any ['*', '\x7b'].contains)
    (passes : ∀ m : Match, m.rest = middle ++ ([' '] ++ (q.text ++ rest)) →
      ∃ e, passedOn.Goes m e ∧ e.rest = [' '] ++ (q.text ++ rest)) :
    ∃ m, reexportRule.match? ("export".toList ++ [' '] ++ (wordIf onlyTypes "type" ++
        (middle ++ ([' '] ++ (q.text ++ rest))))) = some m ∧ m.group 1 = q.name := by
  obtain ⟨c, cs, rfl⟩ : ∃ c cs, middle = c :: cs := by
    cases middle with
    | nil => cases mark
    | cons c cs => exact ⟨c, cs, rfl⟩
  let behind := c :: cs ++ ([' '] ++ (q.text ++ rest))
  let line := "export".toList ++ [' '] ++ (wordIf onlyTypes "type" ++ behind)
  have ink : ∀ d ∈ behind.head?, Text.isBlank d = false := by
    have marks : ∀ d ∈ ['*', '\x7b'], Text.isBlank d = false := by decide
    rintro d ⟨⟩
    exact marks c (by simpa using mark)
  have other : headWord behind ≠ "type".toList := by
    have none : headWord behind = [] := headWord_of_mark (by decide) mark
    rw [none]
    decide
  let i := Match.start (Cursor.start line)
  let j := i.moveTo (i.cursor.past ("export".toList ++ [' ']) (wordIf onlyTypes "type" ++ behind))
  have word : (keyword "export").Goes i j := goes_keyword rfl (ink_wordIf (by decide) ink)
  obtain ⟨k, typed, restK, _⟩ := exists_goes_maybe "type" onlyTypes (by decide)
    (show j.rest = wordIf onlyTypes "type" ++ behind from rfl) ink other
  obtain ⟨l, passed, restL⟩ := passes k restK
  let n := l.moveTo (l.cursor.past [' '] (q.text ++ rest))
  have space : gap.Goes l n := goes_gap restL h.ink
  obtain ⟨e, named, _, name⟩ := h.exists_goes (show n.rest = q.text ++ rest from rfl)
  have whole := word.both (typed.both (passed.both (space.both named)))
  exact ⟨e, match?_of_goes (by rintro c ⟨⟩; decide) whole, name⟩

/-- The rule for the end of an import keeps its module, too. -/
theorem exists_importTailRule (h : q.Plain) (rest : List Char) :
    ∃ m, importTailRule.match? ('\x7d' :: (" from".toList ++ ([' '] ++ (q.text ++ rest)))) = some m ∧
      m.group 1 = q.name := by
  let line := '\x7d' :: (" from".toList ++ ([' '] ++ (q.text ++ rest)))
  let i := Match.start (Cursor.start line)
  let j := i.moveTo (i.cursor.past ['\x7d'] (" from".toList ++ ([' '] ++ (q.text ++ rest))))
  let k := j.moveTo (j.cursor.past " from".toList ([' '] ++ (q.text ++ rest)))
  have closed : (char '\x7d').Goes i j := goes_one rfl rfl
  have word : fromWord.Goes j k := goes_fromWord rfl
  let l := k.moveTo (k.cursor.past [' '] (q.text ++ rest))
  have space : gap.Goes k l := goes_gap rfl h.ink
  obtain ⟨e, named, _, name⟩ := h.exists_goes (show l.rest = q.text ++ rest from rfl)
  have whole := closed.both (word.both (space.both named))
  exact ⟨e, match?_of_goes (by rintro c ⟨⟩; decide) whole, name⟩

/-! ### Rules that do not fit -/

section

variable {line : List Char}

/-- A rule for lines fails where behind the blanks stands another character than it begins with. -/
theorem match?_eq_none {p : Pattern} (begins : ∀ k e, p.Ends k e → k.after.head? = some c)
    (other : (Text.trimStart line).head? ≠ some c) : (both blanks p).match? line = none := by
  refine matchAt?_eq_none fun e ends => other ?_
  obtain ⟨i, blank, tail⟩ := ends
  rw [Text.trimStart, ← show i.after = line.dropWhile Text.isBlank from blank.after_run]
  exact begins i e tail

theorem importRule_eq_none (h : (Text.trimStart line).head? ≠ some 'i') : importRule.match? line = none := by
  refine match?_eq_none (fun k e ends => ?_) h
  obtain ⟨j, word, _⟩ := ends
  rw [word.after_literal]
  rfl

theorem reexportRule_eq_none (h : (Text.trimStart line).head? ≠ some 'e') :
    reexportRule.match? line = none := by
  refine match?_eq_none (fun k e ends => ?_) h
  obtain ⟨_, ⟨j, word, _⟩, _⟩ := ends
  rw [word.after_literal]
  rfl

theorem importTailRule_eq_none (h : (Text.trimStart line).head? ≠ some '\x7d') :
    importTailRule.match? line = none := by
  refine match?_eq_none (fun k e ends => ?_) h
  obtain ⟨j, mark, _⟩ := ends
  rw [mark.after_char]
  rfl

end

/-! ### Statements -/

/-- What stands in a statement before its module. Where a word `type` may stand, a flag tells whether
it does. -/
inductive StatementFront where
  | clause (onlyTypes : Bool) (clause : List Char)
  | bare (onlyTypes : Bool)
  | everything (onlyTypes : Bool)
  | renamed (onlyTypes : Bool) (name : List Char)
  | listed (onlyTypes : Bool) (names : List Char)
  | tail
  deriving DecidableEq, Repr

namespace StatementFront

def text : StatementFront → List Char
  | clause onlyTypes c => "import ".toList ++ (wordIf onlyTypes "type" ++ (c ++ " from ".toList))
  | bare onlyTypes => "import ".toList ++ wordIf onlyTypes "type"
  | everything onlyTypes => "export ".toList ++ (wordIf onlyTypes "type" ++ "* from ".toList)
  | renamed onlyTypes name =>
    "export ".toList ++ (wordIf onlyTypes "type" ++ ("* as ".toList ++ (name ++ " from ".toList)))
  | listed onlyTypes names =>
    "export ".toList ++ (wordIf onlyTypes "type" ++ ("\x7b ".toList ++ (names ++ " \x7d from ".toList)))
  | tail => "\x7d from ".toList

theorem text_clause (onlyTypes : Bool) (c : List Char) : (clause onlyTypes c).text =
    "import ".toList ++ (wordIf onlyTypes "type" ++ (c ++ " from ".toList)) := rfl

theorem text_bare (onlyTypes : Bool) :
    (bare onlyTypes).text = "import ".toList ++ wordIf onlyTypes "type" := rfl

theorem text_everything (onlyTypes : Bool) :
    (everything onlyTypes).text = "export ".toList ++ (wordIf onlyTypes "type" ++ "* from ".toList) := rfl

theorem text_renamed (onlyTypes : Bool) (name : List Char) : (renamed onlyTypes name).text =
    "export ".toList ++ (wordIf onlyTypes "type" ++ ("* as ".toList ++ (name ++ " from ".toList))) := rfl

theorem text_listed (onlyTypes : Bool) (names : List Char) : (listed onlyTypes names).text =
    "export ".toList ++ (wordIf onlyTypes "type" ++ ("\x7b ".toList ++ (names ++ " \x7d from ".toList))) :=
  rfl

/-- The parts may stand where they do. -/
def Plain : StatementFront → Prop
  | clause _ c => IsClauseText c
  | renamed _ name => IsName name
  | listed _ names => ∀ c ∈ names, c ≠ '\x7d' ∧ isQuote c = false
  | _ => True

variable {f : StatementFront}

theorem unquoted_wordIf (onlyTypes : Bool) : ∀ c ∈ wordIf onlyTypes "type", isQuote c = false := by
  cases onlyTypes <;> decide

theorem Plain.unquoted (h : f.Plain) : ∀ c ∈ f.text, isQuote c = false := by
  have opening : ∀ c ∈ "import ".toList, isQuote c = false := by decide
  have opening' : ∀ c ∈ "export ".toList, isQuote c = false := by decide
  have ending : ∀ c ∈ " from ".toList, isQuote c = false := by decide
  cases f with
  | clause onlyTypes c =>
    simp only [text_clause, List.forall_mem_append]
    exact ⟨opening, unquoted_wordIf _, fun d mem => not_isQuote_of_inClause (h.letters d mem), ending⟩
  | bare onlyTypes =>
    simp only [text_bare, List.forall_mem_append]
    exact ⟨opening, unquoted_wordIf _⟩
  | everything onlyTypes =>
    simp only [text_everything, List.forall_mem_append]
    exact ⟨opening', unquoted_wordIf _, by decide⟩
  | renamed onlyTypes name =>
    simp only [text_renamed, List.forall_mem_append]
    exact ⟨opening', unquoted_wordIf _, by decide,
      fun d mem => not_isQuote_of_inClause (inClause_of_continues (h.2 d mem)), ending⟩
  | listed onlyTypes names =>
    simp only [text_listed, List.forall_mem_append]
    exact ⟨opening', unquoted_wordIf _, by decide, fun d mem => (h d mem).2, by decide⟩
  | tail => exact (by decide : ∀ c ∈ "\x7d from ".toList, isQuote c = false)

/-- It ends in a word with a blank behind it. -/
theorem exists_last (f : StatementFront) :
    ∃ t mark, f.text = t ++ [mark] ++ [' '] ∧ mark ≠ '(' ∧ Text.isBlank mark = false := by
  have behind : ∀ t, ∃ t' mark, t ++ " from ".toList = t' ++ [mark] ++ [' '] ∧ mark ≠ '(' ∧
      Text.isBlank mark = false :=
    fun t => ⟨t ++ " fro".toList, 'm', by simp, by decide, by decide⟩
  cases f with
  | clause onlyTypes c =>
    have parts : (clause onlyTypes c).text = "import ".toList ++ (wordIf onlyTypes "type" ++ c) ++
        " from ".toList := by simp [text_clause]
    exact parts ▸ behind _
  | bare onlyTypes =>
    cases onlyTypes with
    | true => exact ⟨"import typ".toList, 'e', rfl, by decide, by decide⟩
    | false => exact ⟨"impor".toList, 't', rfl, by decide, by decide⟩
  | everything onlyTypes =>
    have parts : (everything onlyTypes).text = "export ".toList ++ (wordIf onlyTypes "type" ++ ['*']) ++
        " from ".toList := by simp [text_everything]
    exact parts ▸ behind _
  | renamed onlyTypes name =>
    have parts : (renamed onlyTypes name).text =
        "export ".toList ++ (wordIf onlyTypes "type" ++ ("* as ".toList ++ name)) ++ " from ".toList := by
      simp [text_renamed]
    exact parts ▸ behind _
  | listed onlyTypes names =>
    have parts : (listed onlyTypes names).text = "export ".toList ++ (wordIf onlyTypes "type" ++
        ("\x7b ".toList ++ (names ++ " \x7d".toList))) ++ " from ".toList := by simp [text_listed]
    exact parts ▸ behind _
  | tail => exact behind ['\x7d']

/-- One of the rules for statements keeps the module. -/
theorem Plain.exists_match (h : f.Plain) (named : q.Plain) (rest : List Char) :
    ∃ m, [importRule, reexportRule, importTailRule].findSome? (·.match? (f.text ++ (q.text ++ rest))) =
      some m ∧ m.group 1 = q.name := by
  have of_import : ∀ {line : List Char} {m : Match}, importRule.match? line = some m →
      [importRule, reexportRule, importTailRule].findSome? (·.match? line) = some m := by
    intro line m found
    rw [List.findSome?_cons, found]
  have of_export : ∀ {line : List Char} {m : Match}, (Text.trimStart line).head? = some 'e' →
      reexportRule.match? line = some m →
      [importRule, reexportRule, importTailRule].findSome? (·.match? line) = some m := by
    intro line m first found
    rw [List.findSome?_cons, importRule_eq_none (by rw [first]; decide), List.findSome?_cons, found]
  have of_tail : ∀ {line : List Char} {m : Match}, (Text.trimStart line).head? = some '\x7d' →
      importTailRule.match? line = some m →
      [importRule, reexportRule, importTailRule].findSome? (·.match? line) = some m := by
    intro line m first found
    rw [List.findSome?_cons, importRule_eq_none (by rw [first]; decide), List.findSome?_cons,
      reexportRule_eq_none (by rw [first]; decide), List.findSome?_cons, found]
  cases f with
  | clause onlyTypes c =>
    obtain ⟨m, found, name⟩ := exists_importRule_clause named (h.behind_type onlyTypes) rest
    refine ⟨m, of_import ?_, name⟩
    rw [← found, text_clause]
    simp
  | bare onlyTypes =>
    obtain ⟨m, found, name⟩ := exists_importRule_bare named onlyTypes rest
    refine ⟨m, of_import ?_, name⟩
    rw [← found, text_bare]
    simp
  | everything onlyTypes =>
    obtain ⟨m, found, name⟩ := exists_reexportRule named onlyTypes "* from".toList rest rfl
      fun m front => exists_passedOn_everything front
    refine ⟨m, of_export rfl ?_, name⟩
    rw [← found, text_everything]
    simp
  | renamed onlyTypes newName =>
    obtain ⟨m, found, name⟩ := exists_reexportRule named onlyTypes
      ("* as ".toList ++ (newName ++ " from".toList)) rest rfl
      fun m front => exists_passedOn_renamed h (by rw [front]; simp)
    refine ⟨m, of_export rfl ?_, name⟩
    rw [← found, text_renamed]
    simp
  | listed onlyTypes names =>
    have open_ : ∀ c ∈ [' '] ++ names ++ [' '], c ≠ '\x7d' := by
      simp only [List.forall_mem_append]
      exact ⟨⟨by decide, fun c mem => (h c mem).1⟩, by decide⟩
    obtain ⟨m, found, name⟩ := exists_reexportRule named onlyTypes
      ("\x7b ".toList ++ (names ++ " \x7d from".toList)) rest rfl
      fun m front => exists_passedOn_names open_ (by rw [front]; simp)
    refine ⟨m, of_export rfl ?_, name⟩
    rw [← found, text_listed]
    simp
  | tail =>
    obtain ⟨m, found, name⟩ := exists_importTailRule named rest
    exact ⟨m, of_tail rfl found, name⟩

end StatementFront

end SourceAtlas.Source
