import SourceAtlas.Proofs.Pattern.Forward
import SourceAtlas.Proofs.Source.Form
import SourceAtlas.Proofs.Source.TypeText
/-!
Function declarations as they are written. The rule for functions goes word by word to the `(` of the
parameters, the list ends at the `)` that closes it, as its brackets are balanced, and the annotation
behind it is a type. So a line made from a function has one symbol, which tells the function that it
was made from.
-/

namespace SourceAtlas.Source

open Pattern

/-! ### The words in front -/

variable {m : Match} {w : String} {rest : List Char} {present : Bool}

/-- The word with a blank behind it, or nothing. -/
def wordIf (present : Bool) (w : String) : List Char := if present then w.toList ++ [' '] else []

theorem headWord_wordIf (letters : w.toList.all continuesIdentifier) (rest : List Char) :
    headWord (wordIf present w ++ rest) = if present then w.toList else headWord rest := by
  cases present with
  | true =>
    rw [wordIf, if_pos rfl, List.append_assoc]
    exact headWord_append (List.all_eq_true.1 letters) (by rintro c ⟨⟩; decide)
  | false => rfl

/-- No blank stands in front of it if none stands behind. -/
theorem ink_wordIf (word : w.toList.head?.any (!Text.isBlank ·))
    (ink : ∀ c ∈ rest.head?, Text.isBlank c = false) :
    ∀ c ∈ (wordIf present w ++ rest).head?, Text.isBlank c = false := by
  cases present with
  | true =>
    rw [wordIf, if_pos rfl, List.append_assoc, List.head?_append]
    cases first : w.toList.head? with
    | none => simp [first] at word
    | some c =>
      rintro d ⟨⟩
      simpa [first] using word
  | false => exact ink

/-- One blank is all that is read where none follows it. -/
theorem goes_gap (h : m.rest = [' '] ++ rest) (ink : ∀ c ∈ rest.head?, Text.isBlank c = false) :
    gap.Goes m (m.moveTo (m.cursor.past [' '] rest)) :=
  goes_one_run h rfl (List.forall_mem_nil _) ink

theorem goes_keyword (h : m.rest = w.toList ++ [' '] ++ rest)
    (ink : ∀ c ∈ rest.head?, Text.isBlank c = false) :
    (keyword w).Goes m (m.moveTo (m.cursor.past (w.toList ++ [' ']) rest)) := by
  rw [List.append_assoc] at h
  have whole := (goes_literal h).both (goes_gap rfl ink)
  simp only [Match.moveTo, Cursor.past_past] at whole
  exact whole

/-- No keyword is read where another word stands. -/
theorem not_keyword (letters : w.toList.all continuesIdentifier) (other : headWord m.rest ≠ w.toList)
    (e : Cursor) : ¬(keyword w).Ends m.cursor e :=
  fun ends => other (after_keyword letters ends).1

/-- A keyword that may be missing is read where it stands, and nothing where another word does. -/
theorem exists_goes_maybe (w : String) (present : Bool) (letters : w.toList.all continuesIdentifier)
    (h : m.rest = wordIf present w ++ rest) (ink : ∀ c ∈ rest.head?, Text.isBlank c = false)
    (other : headWord rest ≠ w.toList) :
    ∃ e, (maybe w).Goes m e ∧ e.rest = rest ∧ e.groups = m.groups := by
  cases present with
  | true => exact ⟨_, (goes_keyword h ink).either _, rfl, rfl⟩
  | false =>
    rw [wordIf, if_neg Bool.false_ne_true, List.nil_append] at h
    exact ⟨m, goes_optional (not_keyword letters (h ▸ other)), h, rfl⟩

/-- A group that it is kept as tells whether it was read. -/
theorem exists_goes_group (index : Nat) (w : String) (present : Bool)
    (letters : w.toList.all continuesIdentifier) (h : m.rest = wordIf present w ++ rest)
    (ink : ∀ c ∈ rest.head?, Text.isBlank c = false) (other : headWord rest ≠ w.toList) :
    ∃ e, (optional (group index (keyword w))).Goes m e ∧ e.rest = rest ∧
      e.groups = if present then (index, m.cursor, e.cursor) :: m.groups else m.groups := by
  cases present with
  | true => exact ⟨_, ((goes_keyword h ink).group index).either _, rfl, rfl⟩
  | false =>
    rw [wordIf, if_neg Bool.false_ne_true, List.nil_append] at h
    exact ⟨m, goes_optional (not_keyword letters (h ▸ other)), h, rfl⟩

/-- A rule for lines reads the blanks first, and there are none where the line begins with ink. -/
theorem match?_of_goes {p : Pattern} {line : List Char} {e : Match}
    (ink : ∀ c ∈ line.head?, Text.isBlank c = false) (h : p.Goes (Match.start (Cursor.start line)) e) :
    (both blanks p).match? line = some e := by
  have blank : blanks.Goes (Match.start (Cursor.start line)) _ := goes_noRun ink
  exact (blank.both h).matchAt?

/-! ### The rule for functions -/

/-- No text is read that begins with another character. -/
theorem not_char {c d : Char} {p : Pattern} (h : m.rest = d :: rest) (other : d ≠ c) (e : Cursor) :
    ¬(both (char c) p).Ends m.cursor e := by
  rintro ⟨i, mark, _⟩
  have begins := mark.after_char
  rw [show m.cursor.after = d :: rest from h] at begins
  exact other (List.cons.inj begins).1

/-- A name begins with no blank. -/
theorem IsName.ink {name : List Char} (named : IsName name) :
    ∀ c ∈ (name ++ rest).head?, Text.isBlank c = false := by
  obtain ⟨c, cs, rfl⟩ := List.exists_cons_of_ne_nil named.ne_nil
  rintro d ⟨⟩
  exact not_isBlank_of_inLabel (by simp [inLabel, named.2 c List.mem_cons_self])

theorem goes_identifier {name : List Char} (h : m.rest = name ++ rest) (named : IsName name)
    (stop : ∀ c ∈ rest.head?, continuesIdentifier c = false) :
    identifier.Goes m (m.moveTo (m.cursor.past name rest)) := by
  obtain ⟨c, cs, rfl⟩ := List.exists_cons_of_ne_nil named.ne_nil
  exact goes_one_run h (by simpa [BeginsName] using named.1)
    (fun d mem => named.2 d (List.mem_cons_of_mem _ mem)) stop

/-- What the rule reads from the word `function` on. -/
def functionTail : Pattern :=
  all [literal "function", wordEdge, blanks, maybeMark '*', group 2 identifier, blanks, maybeAngles,
    char '(']

theorem exists_goes_functionTail {name : List Char} (named : IsName name)
    (h : m.rest = "function".toList ++ ' ' :: (name ++ '(' :: rest)) :
    ∃ e, functionTail.Goes m e ∧ e.rest = rest ∧ e.group 2 = name ∧ e.group? 1 = m.group? 1 := by
  obtain ⟨c, cs, eq⟩ := List.exists_cons_of_ne_nil named.ne_nil
  have starts : startsIdentifier c := by simpa [BeginsName, eq] using named.1
  have other : c ≠ '*' := by
    rintro rfl
    exact absurd starts (by decide)
  -- the places behind the word, the blank and the name
  let i := m.moveTo (m.cursor.past "function".toList (' ' :: (name ++ '(' :: rest)))
  let j := i.moveTo (i.cursor.past [' '] (name ++ '(' :: rest))
  let n := j.moveTo (j.cursor.past name ('(' :: rest))
  let k : Match := { n with groups := (2, j.cursor, n.cursor) :: n.groups }
  have word : (literal "function").Goes m i := goes_literal h
  have edge : wordEdge.Goes i i := goes_wordEdge rfl
  have space : blanks.Goes i j := goes_run rfl Text.isBlank_of_mem_space named.ink
  have star : (maybeMark '*').Goes j j :=
    goes_optional (not_char (show j.rest = c :: (cs ++ '(' :: rest) from congrArg (· ++ _) eq) other)
  have identified : (group 2 identifier).Goes j k :=
    (goes_identifier rfl named (by rintro d ⟨⟩; decide)).group 2
  have noSpace : blanks.Goes k k := goes_noRun (by rintro d ⟨⟩; decide)
  have angles : maybeAngles.Goes k k := goes_optional (not_char rfl (by decide))
  have mark : (char '(').Goes k (k.moveTo (k.cursor.past ['('] rest)) := goes_one rfl rfl
  refine ⟨_, word.both (edge.both (space.both (star.both (identified.both (noSpace.both
    (angles.both mark)))))), rfl, ?_, rfl⟩
  exact Cursor.upTo_past rfl

/-- The rule reads a function up to the `(` of its parameters. -/
theorem exists_functionRule (exported async : Bool) {name : List Char} (named : IsName name)
    (rest : List Char) :
    ∃ m, functionRule.match? (wordIf exported "export" ++ (wordIf async "async" ++
        ("function".toList ++ ' ' :: (name ++ '(' :: rest)))) = some m ∧
      (m.group? 1).isSome = async ∧ m.group 2 = name ∧ m.rest = rest := by
  -- the line from the word `function` on, from the word `async` on, and as a whole
  let behind := "function".toList ++ ' ' :: (name ++ '(' :: rest)
  let second := wordIf async "async" ++ behind
  let line := wordIf exported "export" ++ second
  have letters : "function".toList.all continuesIdentifier := by decide
  have word : headWord behind = "function".toList :=
    headWord_append (List.all_eq_true.1 letters) (by rintro c ⟨⟩; decide)
  have among : headWord second ∈ ["async".toList, "function".toList] := by
    rw [headWord_wordIf (by decide), word]
    split <;> decide
  have apart : ∀ w ∈ ["export", "default", "declare"],
      w.toList ∉ ["async".toList, "function".toList] := by decide
  have others : ∀ w ∈ ["export", "default", "declare"], headWord second ≠ w.toList :=
    fun w mem same => apart w mem (same ▸ among)
  have ink : ∀ c ∈ behind.head?, Text.isBlank c = false := by rintro c ⟨⟩; decide
  have ink' : ∀ c ∈ second.head?, Text.isBlank c = false := ink_wordIf (by decide) ink
  have ink'' : ∀ c ∈ line.head?, Text.isBlank c = false := ink_wordIf (by decide) ink'
  obtain ⟨a, ofExport, restA, groupsA⟩ := exists_goes_maybe "export" exported (by decide)
    (show (Match.start (Cursor.start line)).rest = wordIf exported "export" ++ second from rfl)
    ink' (others _ (by decide))
  obtain ⟨b, ofDefault, restB, groupsB⟩ := exists_goes_maybe "default" false (by decide)
    restA ink' (others _ (by decide))
  obtain ⟨c, ofDeclare, restC, groupsC⟩ := exists_goes_maybe "declare" false (by decide)
    restB ink' (others _ (by decide))
  obtain ⟨d, ofAsync, restD, groupsD⟩ := exists_goes_group 1 "async" async (by decide)
    restC ink (by rw [word]; decide)
  obtain ⟨e, tail, restE, ofName, group⟩ := exists_goes_functionTail named restD
  refine ⟨e, match?_of_goes ink'' (ofExport.both (ofDefault.both (ofDeclare.both
    (ofAsync.both tail)))), ?_, ofName, restE⟩
  have none : c.groups = [] := groupsC.trans (groupsB.trans groupsA)
  rw [group, Match.group?, groupsD, none]
  cases async <;> rfl

/-! ### Function declarations -/

/-- A function declaration. -/
structure FunctionText where
  isExported : Bool
  isAsync : Bool
  name : List Char
  parameters : List ParameterText
  returnType : Option (List Char)
  deriving DecidableEq, Repr

namespace FunctionText

variable {f : FunctionText} {ending : List Char}

/-- The annotation of the return type, if there is one. -/
def returnText (f : FunctionText) : List Char :=
  match f.returnType with
  | some t => [':', ' '] ++ t
  | none => []

/-- The line that begins with the declaration and goes on as given. -/
def line (f : FunctionText) (ending : List Char) : List Char :=
  wordIf f.isExported "export" ++ (wordIf f.isAsync "async" ++
    ("function".toList ++ ' ' :: (f.name ++ '(' ::
      (parameterList f.parameters ++ ')' :: (f.returnText ++ ending)))))

/-- The symbol of the declaration on a line. -/
def symbol (f : FunctionText) (l : SourceLine) : SymbolRecord :=
  { l.symbol f.name .function with
    parameters := some (f.parameters.map ParameterText.parameter)
    returnType := f.returnType.map .ofList
    isAsync := some f.isAsync }

/-- The parts of the declaration may stand where they do. -/
structure Plain (f : FunctionText) : Prop where
  name : IsName f.name
  parameters : ∀ p ∈ f.parameters, p.Plain
  named : ∀ p ∈ f.parameters, ¬IsModifier p.name
  returnType : ∀ t ∈ f.returnType, TypeText t

theorem splitReturnType_returnText (h : f.Plain) (ends : EndsSignature ending) :
    (splitReturnType (f.returnText ++ ending)).1 = f.returnType := by
  rw [returnText]
  split
  · rename_i t type
    rw [splitReturnType_of_typeText (h.returnType t type) ends, type]
  · rename_i type
    rw [List.nil_append, splitReturnType_of_endsSignature ends, type]

theorem function?_eq (h : f.Plain) (ends : EndsSignature ending) {l : SourceLine}
    (text : l.text = f.line ending) : l.function? = some (f.symbol l) := by
  obtain ⟨m, found, ofAsync, ofName, rest⟩ := exists_functionRule f.isExported f.isAsync h.name
    (parameterList f.parameters ++ ')' :: (f.returnText ++ ending))
  have balanced := balanced_parameterList h.parameters
  have read := parseParameters_parameterList h.parameters fun p mem loses => h.named p mem loses.1
  rw [SourceLine.function?, text, line, found, Option.map_some, rest,
    splitParameterList_append balanced]
  simp only [read, ofAsync, ofName, Option.bind_some, splitReturnType_returnText h ends]
  rfl

/-- The line is no comment. -/
theorem isComment_eq_false {l : SourceLine} (text : l.text = f.line ending) : l.isComment = false := by
  obtain ⟨isExported, isAsync, name, parameters, returnType⟩ := f
  rw [SourceLine.isComment, text]
  cases isExported <;> cases isAsync <;> rfl

/-- The line has one symbol, wherever it stands. -/
theorem symbols_extract (h : f.Plain) (ends : EndsSignature ending) {l : SourceLine}
    (text : l.text = f.line ending) (resolver : Resolver) (n : Nesting) :
    (l.extract resolver n).1.symbols = [f.symbol l] := by
  refine l.symbols_extract_of_declared ?_ (isComment_eq_false text) resolver n
  rw [SourceLine.declared, function?_eq h ends text]
  simp

theorem line_ne_nil (f : FunctionText) (ending : List Char) : f.line ending ≠ [] := by
  obtain ⟨isExported, isAsync, name, parameters, returnType⟩ := f
  cases isExported <;> cases isAsync <;> exact List.cons_ne_nil _ _

end FunctionText

open FunctionText

/-- A line that begins with a function declaration and goes on, if at all, with a body or behind a `;`
has one symbol, wherever it stands: the function as it was written. -/
theorem symbols_of_functionLine {f : FunctionText} (h : f.Plain) {ending : List Char}
    (ends : EndsSignature ending) (oneLine : '\n' ∉ f.line ending) (resolver : Resolver)
    (path : String) :
    (extract resolver (.ofList (f.line ending)) path).symbols = [f.symbol ⟨path, 1, f.line ending⟩] ∧
      ∀ number n, (SourceLine.extract ⟨path, number, f.line ending⟩ resolver n).1.symbols =
        [f.symbol ⟨path, number, f.line ending⟩] := by
  have line : ∀ number n, (SourceLine.extract ⟨path, number, f.line ending⟩ resolver n).1.symbols =
      [f.symbol ⟨path, number, f.line ending⟩] := fun number n => symbols_extract h ends rfl resolver n
  refine ⟨?_, line⟩
  rw [extract_singleLine oneLine (f.line_ne_nil ending)]
  exact line 1 {}

/-- A function whose type has braces in every kind of place where one may open an object type. -/
def loadFunction : FunctionText where
  isExported := true
  isAsync := true
  name := "load$1".toList
  parameters := nestedParameters
  returnType := some "Promise<[A.B, (C)]> | \x7b a: T; b: (x: \x7b y: U \x7d) => V[] \x7d".toList

theorem typeText_loadFunction : ∀ t ∈ loadFunction.returnType, TypeText t := by
  have blank := Text.isBlank_of_mem_space
  have nothing := List.forall_mem_nil fun c => Text.isBlank c = true
  have parentheses : TypeText (enclosed '(' ['C'] ')') := .parentheses (.name (by decide))
  have tuple : TypeText (enclosed '[' (List.intercalate [','] ["A.B".toList, " (C)".toList] ++ []) ']') :=
    .tuple (List.forall_mem_cons.2 ⟨.name (by decide), List.forall_mem_singleton.2 parentheses⟩) nothing
  have promise : TypeText ("Promise".toList ++ [] ++
      enclosed '<' (List.intercalate [','] ["[A.B, (C)]".toList]) '>') :=
    .generic (by decide) nothing (by decide) (List.forall_mem_singleton.2 tuple)
  have array : TypeText (['V'] ++ [] ++ enclosed '[' [] ']') := .array (.name (by decide)) nothing nothing
  have arrow : TypeText (enclosed '(' "x: \x7b y: U \x7d".toList ')' ++ [' '] ++ ['=', '>'] ++ [' '] ++
      "V[]".toList) := .arrow (by decide) blank blank array
  let members : List MemberText := [⟨" a".toList, " T".toList, some ';'⟩,
    ⟨" b".toList, " (x: \x7b y: U \x7d) => V[]".toList, none⟩]
  have object : TypeText (enclosed '\x7b' (members.flatMap MemberText.text ++ [' ']) '\x7d') :=
    .object (by decide) (List.forall_mem_cons.2 ⟨.name (by decide), List.forall_mem_singleton.2 arrow⟩)
      (by simp [members]) (by decide) blank
  have joined : TypeText ("Promise<[A.B, (C)]>".toList ++ [' '] ++ ['|'] ++ [' '] ++
      "\x7b a: T; b: (x: \x7b y: U \x7d) => V[] \x7d".toList) :=
    .joined (by decide) promise blank blank object
  rintro t ⟨⟩
  exact joined

theorem symbols_of_loadFunction :
    let ending := " \x7b return \x7b\x7d; \x7d".toList
    let line := loadFunction.line ending
    loadFunction.Plain ∧ EndsSignature ending ∧ '\n' ∉ line ∧
      (extract {} (.ofList line) "/a.ts").symbols = [loadFunction.symbol ⟨"/a.ts", 1, line⟩] := by
  intro ending line
  have plain : loadFunction.Plain :=
    ⟨by decide, plain_nestedParameters, named_nestedParameters, typeText_loadFunction⟩
  have ends : EndsSignature ending := by decide
  have oneLine : '\n' ∉ line := by decide +kernel
  exact ⟨plain, ends, oneLine, (symbols_of_functionLine plain ends oneLine {} "/a.ts").1⟩

end SourceAtlas.Source
