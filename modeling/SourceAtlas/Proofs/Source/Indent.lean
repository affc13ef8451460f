import SourceAtlas.Proofs.Pattern.Moved
import SourceAtlas.Proofs.Source.Form
import SourceAtlas.Proofs.Text.Trim
/-!
Indentation does not matter. Each rule for a line begins with a run of blanks or searches for something
that begins with no blank, so spaces and tabs in front of a line move its matches and change nothing
else. The comment test, the signature and the counting of braces do not see them either, and they go
into the column alone, with their bytes.
-/

namespace SourceAtlas

open Pattern

/-! ### Results of moved matches -/

section

variable {n : Nat} {β : Type} {f f' : Match → Option β} {x x' : Option Match} {l l' : List Match}

/-- What depends on nothing that is moved is the same of both matches, -/
theorem bind_of_rel (h : Option.Rel (Match.Moved n) x x') (same : ∀ m m', m.Moved n m' → f' m' = f m) :
    x'.bind f' = x.bind f := by
  cases h with
  | some moved => exact same _ _ moved
  | none => rfl

theorem isNone_of_rel (h : Option.Rel (Match.Moved n) x x') : x'.isNone = x.isNone := by
  cases h <;> rfl

theorem map_of_rel {g g' : Match → β} (h : Option.Rel (Match.Moved n) x x')
    (same : ∀ m m', m.Moved n m' → g' m' = g m) : x'.map g' = x.map g := by
  cases h with
  | some moved => exact congrArg some (same _ _ moved)
  | none => rfl

/-- and of all matches. -/
theorem filterMap_of_forall₂ (h : List.Forall₂ (Match.Moved n) l l')
    (same : ∀ m m', m.Moved n m' → f' m' = f m) : l'.filterMap f' = l.filterMap f := by
  induction h with
  | nil => rfl
  | cons moved _ ih => rw [List.filterMap_cons, List.filterMap_cons, same _ _ moved, ih]

theorem map_of_forall₂ {g g' : Match → β} (h : List.Forall₂ (Match.Moved n) l l')
    (same : ∀ m m', m.Moved n m' → g' m' = g m) : l'.map g' = l.map g := by
  rw [← List.filterMap_eq_map, ← List.filterMap_eq_map]
  exact filterMap_of_forall₂ h fun m m' moved => congrArg some (same m m' moved)

/-- The first of some patterns that matches a text is the first one that matches another text, if each
of them is moved. -/
theorem findSome?_of_rel {ps : List Pattern} {t t' : List Char}
    (h : ∀ p ∈ ps, Option.Rel (Match.Moved n) (p.match? t) (p.match? t')) :
    Option.Rel (Match.Moved n) (ps.findSome? (·.match? t)) (ps.findSome? (·.match? t')) := by
  induction ps with
  | nil => exact .none
  | cons p ps ih =>
    have first := h p List.mem_cons_self
    have later := ih fun q mem => h q (List.mem_cons_of_mem p mem)
    rw [List.findSome?_cons, List.findSome?_cons]
    generalize p.match? t = x, p.match? t' = x' at first
    cases first with
    | some moved => exact .some moved
    | none => exact later

end

/-- The symbol of a line that stands `n` bytes further to the right. -/
def SymbolRecord.moveRight (n : Nat) (s : SymbolRecord) : SymbolRecord := { s with column := s.column + n }

namespace Extraction

/-- The records of a text whose lines stand further to the right, each by as many bytes as given for
its number. -/
def moveRight (shift : Nat → Nat) (x : Extraction) : Extraction :=
  { x with symbols := x.symbols.map fun s => s.moveRight (shift s.line) }

theorem moveRight_append (shift : Nat → Nat) (x y : Extraction) :
    (x.append y).moveRight shift = (x.moveRight shift).append (y.moveRight shift) := by
  simp [append, moveRight]

theorem moveRight_congr {shift shift' : Nat → Nat} {x : Extraction}
    (h : ∀ s ∈ x.symbols, shift s.line = shift' s.line) : x.moveRight shift = x.moveRight shift' := by
  have symbols := List.map_congr_left fun s mem => congrArg (SymbolRecord.moveRight · s) (h s mem)
  rw [moveRight, moveRight, symbols]

end Extraction

namespace Source

/-- Spaces and tabs. -/
def IsIndent (t : List Char) : Prop := ∀ c ∈ t, c ∈ [' ', '\t']

instance {t : List Char} : Decidable (IsIndent t) := inferInstanceAs (Decidable (∀ c ∈ t, _))

variable {indent : List Char}

theorem IsIndent.of_marks (h : IsIndent indent) {holds : Char → Prop} (space : holds ' ')
    (tab : holds '\t') : ∀ c ∈ indent, holds c := by
  intro c mem
  rcases List.mem_cons.1 (h c mem) with rfl | other
  · exact space
  · rw [List.mem_singleton.1 other]
    exact tab

theorem IsIndent.isBlank (h : IsIndent indent) : ∀ c ∈ indent, Text.isBlank c := h.of_marks rfl rfl

theorem IsIndent.not_isWord (h : IsIndent indent) : ∀ c ∈ indent, Text.isWord c = false :=
  h.of_marks (by decide) (by decide)

/-! ### Texts -/

theorem byteLength_append (a b : List Char) :
    Text.byteLength (a ++ b) = Text.byteLength a + Text.byteLength b := by
  induction a with
  | nil => exact (Nat.zero_add _).symm
  | cons c a ih => rw [List.cons_append, Text.byteLength_cons, Text.byteLength_cons, ih, Nat.add_assoc]

theorem countBraces_indent (h : IsIndent indent) (t : List Char) :
    countBraces none (indent ++ t) = countBraces none t := by
  induction indent with
  | nil => rfl
  | cons c indent ih =>
    have later := ih fun d mem => h d (List.mem_cons_of_mem _ mem)
    rw [← later]
    rcases List.mem_cons.1 (h c List.mem_cons_self) with rfl | other
    · rfl
    · obtain rfl := List.mem_singleton.1 other
      rfl

theorem getLast?_trimEnd_indent (h : IsIndent indent) (t : List Char) :
    (Text.trimEnd (indent ++ t)).getLast? = (Text.trimEnd t).getLast? := by
  have blank : indent.reverse.dropWhile Text.isBlank = [] :=
    List.dropWhile_eq_nil_iff.2 fun c mem => h.isBlank c (List.mem_reverse.1 mem)
  rw [Text.trimEnd, Text.trimEnd, List.getLast?_reverse, List.getLast?_reverse, List.reverse_append,
    List.dropWhile_append, blank]
  split
  · rename_i nothing
    rw [List.isEmpty_iff.1 nothing]
  · rename_i something
    rw [List.head?_append_of_ne_nil _ (by simpa using something)]

theorem Nesting.advance_indent (h : IsIndent indent) (n : Nesting) (t : List Char) :
    n.advance (indent ++ t) = n.advance t := by
  rw [advance, advance, countBraces_indent h, getLast?_trimEnd_indent h]

/-! ### Rules -/

section

variable {t : List Char} (h : IsIndent indent)
include h

/-- A rule that begins with blanks passes over the indentation. -/
theorem matches_indented (q : Pattern) : Option.Rel (Match.Moved indent.length)
    ((both blanks q).match? t) ((both blanks q).match? (indent ++ t)) :=
  match?_moved h.isBlank h.not_isWord

theorem IsIndent.skips_char {c : Char} (other : c ∉ [' ', '\t']) (q : Pattern) :
    (both (char c) q).Skips indent t := by
  refine skips_of_head? ?_ t
  rintro k e ⟨i, mark, _⟩
  exact ⟨c, by rw [mark.after_char]; rfl, fun mem => other (h c mem)⟩

theorem IsIndent.skips_word {c : Char} (other : c ∉ [' ', '\t']) {cs : List Char} (q : Pattern) :
    (both wordEdge (both (all ((c :: cs).map char)) q)).Skips indent t := by
  refine skips_of_head? ?_ t
  rintro k e ⟨_, ⟨_, rfl⟩, i, word, _⟩
  exact ⟨c, by rw [word.after_chars]; rfl, fun mem => other (h c mem)⟩

end

/-! ### Lines -/

namespace SourceLine

/-- The line behind an indentation. -/
def indented (indent : List Char) (l : SourceLine) : SourceLine := { l with text := indent ++ l.text }

variable {l : SourceLine} (h : IsIndent indent)
include h

theorem symbol_indented (name : List Char) (kind : SymbolKind) :
    (l.indented indent).symbol name kind =
      (l.symbol name kind).moveRight (Text.byteLength indent) := by
  have column : (l.indented indent).column = l.column + Text.byteLength indent := by
    rw [SourceLine.column, SourceLine.column, indented, List.takeWhile_append_of_pos h.isBlank,
      byteLength_append]
    omega
  rw [symbol, symbol, column, indented, Text.trim_blanks_append h.isBlank]
  rfl

theorem isComment_indented : (l.indented indent).isComment = l.isComment := by
  have start : Text.trimStart (l.indented indent).text = Text.trimStart l.text :=
    List.dropWhile_append_of_pos h.isBlank
  rw [isComment, isComment, start]

theorem function?_indented : (l.indented indent).function? =
    l.function?.map (·.moveRight (Text.byteLength indent)) := by
  rw [function?, function?, Option.map_map]
  refine map_of_rel (matches_indented h _) fun m m' moved => ?_
  simp only [Function.comp_apply, moved.rest, moved.group, moved.group?, symbol_indented h]
  rfl

theorem arrowFunction?_indented : (l.indented indent).arrowFunction? =
    l.arrowFunction?.map (·.moveRight (Text.byteLength indent)) := by
  rw [arrowFunction?, arrowFunction?, Option.map_bind]
  refine bind_of_rel (matches_indented h _) fun m m' moved => ?_
  simp only [Function.comp_apply, Option.map_map, arrowSignature?, moved.rest, moved.group, moved.group?,
    symbol_indented h]
  rfl

theorem class?_indented : (l.indented indent).class? =
    l.class?.map (·.moveRight (Text.byteLength indent)) := by
  rw [class?, class?, Option.map_map]
  refine map_of_rel (matches_indented h _) fun m m' moved => ?_
  simp only [Function.comp_apply, moved.rest, moved.group, symbol_indented h]
  split <;> rfl

theorem interface?_indented : (l.indented indent).interface? =
    l.interface?.map (·.moveRight (Text.byteLength indent)) := by
  rw [interface?, interface?, Option.map_map]
  refine map_of_rel (matches_indented h _) fun m m' moved => ?_
  simp only [Function.comp_apply, moved.rest, moved.group, symbol_indented h]
  rfl

theorem typeAlias?_indented : (l.indented indent).typeAlias? =
    l.typeAlias?.map (·.moveRight (Text.byteLength indent)) := by
  rw [typeAlias?, typeAlias?, Option.map_map]
  refine map_of_rel (matches_indented h _) fun m m' moved => ?_
  simp only [Function.comp_apply, moved.group, symbol_indented h]

theorem enumeration?_indented : (l.indented indent).enumeration? =
    l.enumeration?.map (·.moveRight (Text.byteLength indent)) := by
  rw [enumeration?, enumeration?, Option.map_map]
  refine map_of_rel (matches_indented h _) fun m m' moved => ?_
  simp only [Function.comp_apply, moved.group, symbol_indented h]

theorem method?_indented : (l.indented indent).method? =
    l.method?.map (·.moveRight (Text.byteLength indent)) := by
  rw [method?, method?, Option.map_bind]
  refine bind_of_rel (matches_indented h _) fun m m' moved => ?_
  simp only [Function.comp_apply, moved.rest, moved.group, symbol_indented h]
  split <;> split <;> rfl

/-- The declarations of the line are moved. -/
theorem declared_indented : (l.indented indent).declared =
    l.declared.map (·.moveRight (Text.byteLength indent)) := by
  simp only [declared, function?_indented h, arrowFunction?_indented h, class?_indented h,
    interface?_indented h, typeAlias?_indented h, enumeration?_indented h, List.map_append,
    Option.toList_map]

/-- Routes do not tell where on the line they stand, -/
theorem routes_indented : (l.indented indent).routes = l.routes := by
  have handler : (routeHandlerRule.search? (indent ++ l.text)).map (String.ofList <| ·.group 1) =
      (routeHandlerRule.search? l.text).map (String.ofList <| ·.group 1) :=
    map_of_rel (search?_moved (h.skips_char (by decide) _) h.not_isWord) fun m m' moved => by
      rw [moved.group]
  have route : ∀ handler m m', m.Moved indent.length m' →
      (l.indented indent).route? handler m' = l.route? handler m := by
    intro handler m m' moved
    rw [route?, route?, moved.group, moved.group]
    rfl
  have calls : ∀ handler, (routeCallRule.searchAll (indent ++ l.text)).filterMap
      ((l.indented indent).route? handler) = (routeCallRule.searchAll l.text).filterMap _ :=
    fun handler => filterMap_of_forall₂ (searchAll_moved ((filled_one _).both _)
      (h.skips_char (by decide) _) h.not_isWord) (route handler)
  have decorators : ∀ handler, (routeDecoratorRule.searchAll (indent ++ l.text)).filterMap
      ((l.indented indent).route? handler) = (routeDecoratorRule.searchAll l.text).filterMap _ :=
    fun handler => filterMap_of_forall₂ (searchAll_moved ((filled_one _).both _)
      (h.skips_char (by decide) _) h.not_isWord) (route handler)
  rw [routes, routes, ← handler, ← calls, ← decorators]
  rfl

/-- and neither do the modules that are named. -/
theorem specifiers_indented : (l.indented indent).specifiers = l.specifiers := by
  have statement : Option.Rel (Match.Moved indent.length)
      ([importRule, reexportRule, importTailRule].findSome? (·.match? l.text))
      ([importRule, reexportRule, importTailRule].findSome? (·.match? (indent ++ l.text))) :=
    findSome?_of_rel (List.forall_mem_cons.2 ⟨matches_indented h _, List.forall_mem_cons.2
      ⟨matches_indented h _, List.forall_mem_singleton.2 (matches_indented h _)⟩⟩)
  have calls : List.Forall₂ (Match.Moved indent.length) (requireRule.searchAll l.text)
      (requireRule.searchAll (indent ++ l.text)) :=
    searchAll_moved (((filled_one _).both _).both _).behind_wordEdge (h.skips_word (by decide) _)
      h.not_isWord
  rw [specifiers, specifiers, List.map_append, List.map_append, ← Option.toList_map, ← Option.toList_map]
  exact congrArg₂ _ (congrArg _ (map_of_rel statement fun m m' moved => moved.group 1))
    (map_of_forall₂ calls fun m m' moved => moved.group 1)

theorem dependencies_indented (resolver : Resolver) :
    (l.indented indent).dependencies resolver = l.dependencies resolver := by
  rw [dependencies, dependencies, specifiers_indented h]
  rfl

/-! ### The records of a line -/

theorem nestingWithin_indented (n : Nesting) :
    (l.indented indent).nestingWithin n = l.nestingWithin n := by
  rw [nestingWithin, nestingWithin, class?_indented h, declared_indented h, Option.isSome_map,
    List.isEmpty_map]

theorem methodWithin_indented (n : Nesting) : (l.indented indent).methodWithin n =
    (l.methodWithin n).map (·.moveRight (Text.byteLength indent)) := by
  have word : (functionWordRule.search? (indent ++ l.text)).isNone =
      (functionWordRule.search? l.text).isNone :=
    isNone_of_rel (search?_moved (h.skips_word (by decide) _) h.not_isWord)
  have text : (l.indented indent).text = indent ++ l.text := rfl
  rw [methodWithin, methodWithin, method?_indented h, text, word]
  split
  · exact Option.toList_map
  · rfl

/-- The records of the line are the same but for the columns of its symbols. -/
theorem fst_extract_indented (resolver : Resolver) (n : Nesting) :
    ((l.indented indent).extract resolver n).1 =
      (l.extract resolver n).1.moveRight fun _ => Text.byteLength indent := by
  rw [extract, extract, isComment_indented h]
  split
  · rfl
  · simp only [nestingWithin_indented h, methodWithin_indented h, declared_indented h, routes_indented h,
      dependencies_indented h, Extraction.moveRight, List.map_append]

/-- The nesting behind it is the same. -/
theorem snd_extract_indented (resolver : Resolver) (n : Nesting) :
    ((l.indented indent).extract resolver n).2 = (l.extract resolver n).2 := by
  rw [extract, extract, isComment_indented h]
  split
  · rfl
  · simp only [nestingWithin_indented h]
    exact Nesting.advance_indent h _ _

end SourceLine

/-! ### The records of a text -/

/-- A line and the indentation that is put in front of it. -/
structure IndentedLine where
  indent : List Char
  text : List Char
  isIndent : IsIndent indent
  isLine : Text.IsLine text

namespace IndentedLine

/-- The line behind its indentation. -/
def whole (l : IndentedLine) : List Char := l.indent ++ l.text

theorem isLine_whole (l : IndentedLine) : Text.IsLine l.whole := by
  refine ⟨fun mem => ?_, fun last => ?_⟩
  · rcases List.mem_append.1 mem with front | back
    · exact absurd (l.isIndent _ front) (by decide)
    · exact l.isLine.1 back
  · rw [whole, List.getLast?_append] at last
    cases back : l.text.getLast? with
    | none =>
      rw [back, Option.none_or] at last
      exact absurd (l.isIndent _ (List.mem_of_getLast? last)) (by decide)
    | some c =>
      rw [back, Option.some_or] at last
      exact l.isLine.2 (back.trans last)

/-- The bytes that stand before the line of a number, where the lines are numbered from `first`. -/
def shift (lines : List IndentedLine) (first number : Nat) : Nat :=
  (lines[number - first]?).elim 0 fun l => Text.byteLength l.indent

theorem shift_first (l : IndentedLine) (lines : List IndentedLine) (first : Nat) :
    shift (l :: lines) first first = Text.byteLength l.indent := by
  simp [shift]

theorem shift_later (l : IndentedLine) (lines : List IndentedLine) {first number : Nat}
    (h : first < number) : shift (l :: lines) first number = shift lines (first + 1) number := by
  have next : number - first = number - (first + 1) + 1 := by omega
  rw [shift, shift, next, List.getElem?_cons_succ]

end IndentedLine

variable {resolver : Resolver} {path : String}

/-- Each symbol stands on one of the lines. -/
theorem line_of_mem_extractLines {lines : List (List Char)} {number : Nat} {n : Nesting}
    {s : SymbolRecord} (h : s ∈ (extractLines resolver path number n lines).symbols) :
    number ≤ s.line ∧ s.line < number + lines.length := by
  obtain ⟨before, text, after, rfl, mem⟩ := mem_symbols_extractLines.1 h
  have line := SourceLine.line_of_mem_extract mem
  simp only at line
  rw [List.length_append, List.length_cons]
  omega

theorem extractLines_indented (lines : List IndentedLine) (number : Nat) (n : Nesting) :
    extractLines resolver path number n (lines.map (·.whole)) =
      (extractLines resolver path number n (lines.map (·.text))).moveRight
        (IndentedLine.shift lines number) := by
  induction lines generalizing number n with
  | nil => rfl
  | cons l lines ih =>
    let line : SourceLine := ⟨path, number, l.text⟩
    have nesting : n.behind l.whole = n.behind l.text := by
      have same := line.snd_extract_indented l.isIndent resolver n
      rw [SourceLine.snd_extract, SourceLine.snd_extract] at same
      exact same
    have here : (SourceLine.extract ⟨path, number, l.whole⟩ resolver n).1 =
        (line.extract resolver n).1.moveRight (IndentedLine.shift (l :: lines) number) := by
      refine (line.fst_extract_indented l.isIndent resolver n).trans
        (Extraction.moveRight_congr fun s mem => ?_)
      rw [SourceLine.line_of_mem_extract mem, IndentedLine.shift_first]
    have later := Extraction.moveRight_congr (x := extractLines resolver path (number + 1)
      (n.behind l.text) (lines.map (·.text))) fun s mem =>
        IndentedLine.shift_later l lines (line_of_mem_extractLines mem).1
    rw [List.map_cons, List.map_cons, extractLines_cons, extractLines_cons, Extraction.moveRight_append,
      nesting, ih, here, later]

/-- Spaces and tabs in front of lines change nothing but columns: the text with them has the records of
the text without, each symbol as many bytes further to the right as were put in front of its line. -/
theorem extract_indented (resolver : Resolver) (path : String) (lines : List IndentedLine)
    {content indented : String} (plain : Text.HasLines content.toList (lines.map (·.text)))
    (moved : Text.HasLines indented.toList (lines.map (·.whole))) :
    let found := extract resolver content path
    (∀ s ∈ found.symbols, 0 < s.line ∧ s.line ≤ lines.length) ∧
      extract resolver indented path = found.moveRight fun line =>
        (lines[line - 1]?).elim 0 fun l => Text.byteLength l.indent := by
  intro found
  have text : found = extractLines resolver path 1 {} (lines.map (·.text)) :=
    extract_of_hasLines (List.forall_mem_map.2 fun l _ => l.isLine) plain
  have whole : extract resolver indented path = extractLines resolver path 1 {} (lines.map (·.whole)) :=
    extract_of_hasLines (List.forall_mem_map.2 fun l _ => l.isLine_whole) moved
  refine ⟨fun s mem => ?_, ?_⟩
  · rw [text] at mem
    obtain ⟨first, last⟩ := line_of_mem_extractLines mem
    rw [List.length_map] at last
    omega
  · rw [whole, text, extractLines_indented]
    rfl

/-- Lines of every kind of record, with indentations of their own. -/
def unevenLines : List IndentedLine :=
  [⟨"\t ".toList, "import \x7b f \x7d from './f';".toList, by decide, by decide⟩,
    ⟨[], "  export class A \x7b".toList, by decide, by decide⟩,
    ⟨"\t\t".toList, "m() \x7b router.get('/m', f);".toList, by decide, by decide⟩,
    ⟨"   ".toList, "\x7d \x7d".toList, by decide, by decide⟩]

theorem extract_unevenLines :
    let content := String.ofList (Text.join '\n' (unevenLines.map (·.text)))
    let indented := String.ofList (Text.ofLines (unevenLines.map (·.whole)))
    let found := extract {} indented "/a.ts"
    Text.HasLines content.toList (unevenLines.map (·.text)) ∧
      Text.HasLines indented.toList (unevenLines.map (·.whole)) ∧
      found = (extract {} content "/a.ts").moveRight (fun line =>
        (unevenLines[line - 1]?).elim 0 fun l => Text.byteLength l.indent) ∧
      found.symbols.map (fun s => (s.name, s.line, s.column)) = [("A", 2, 3), ("m", 3, 3)] ∧
      found.routes.map (·.path) = ["/m"] ∧ found.dependencies.map (·.specifier) = ["./f"] := by
  intro content indented found
  have plain : Text.HasLines content.toList (unevenLines.map (·.text)) := .inr String.toList_ofList
  have moved : Text.HasLines indented.toList (unevenLines.map (·.whole)) := .inl String.toList_ofList
  exact ⟨plain, moved, (extract_indented {} "/a.ts" unevenLines plain moved).2, by decide +kernel⟩

end Source

end SourceAtlas
