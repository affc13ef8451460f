import SourceAtlas.Proofs.Source.Extraction
/-!
Extraction line by line. The nesting that is carried from line to line decides about methods alone,
and where a line stands goes into its records as a number alone. So the records of a text in two parts
are those of the first part and, further down, those of the second one: the methods apart, or all of
them where the first part leaves no class and no brace open.
-/

namespace SourceAtlas

/-! ### Texts of lines -/

namespace Text

variable {line : List Char} {lines : List (List Char)}

/-- What stands in a line ends no line. -/
def IsLine (line : List Char) : Prop := '\n' ∉ line ∧ line.getLast? ≠ some '\r'

instance : Decidable (IsLine line) := inferInstanceAs (Decidable (_ ∧ _))

/-- The text in which each of the lines is ended. -/
def ofLines (lines : List (List Char)) : List Char := lines.flatMap (· ++ ['\n'])

/-- The text consists of the lines. Each of them is ended, or all but the last. -/
def HasLines (t : List Char) (lines : List (List Char)) : Prop :=
  t = ofLines lines ∨ t = join '\n' lines

theorem dropReturn_eq (h : line.getLast? ≠ some '\r') : dropReturn line = line := by
  rw [dropReturn]
  cases stripped : stripSuffix? ['\r'] line with
  | none => rfl
  | some rest => simp [stripSuffix?_eq_some_iff.1 stripped] at h

theorem join_ofLines (lines : List (List Char)) : join '\n' (lines ++ [[]]) = ofLines lines := by
  induction lines with
  | nil => rfl
  | cons line rest ih =>
    obtain ⟨next, others, eq⟩ := List.exists_cons_of_ne_nil (List.append_ne_nil_of_right_ne_nil rest
      (List.cons_ne_nil [] []))
    rw [ofLines, List.flatMap_cons, ← ofLines, ← ih, List.cons_append, eq, join_cons_cons]
    simp

theorem map_dropReturn (plain : ∀ line ∈ lines, IsLine line) : lines.map dropReturn = lines := by
  have same := List.map_congr_left fun line mem => dropReturn_eq (plain line mem).2
  rw [same, List.map_id']

/-- The lines of a text are what it was made from. -/
theorem lines_ofLines (plain : ∀ line ∈ lines, IsLine line) : Text.lines (ofLines lines) = lines := by
  have pieces : split '\n' (ofLines lines) = lines ++ [[]] := by
    rw [← join_ofLines]
    refine split_join (by simp) fun piece mem => ?_
    rcases List.mem_append.1 mem with mem | mem
    · exact (plain piece mem).1
    · rw [List.mem_singleton.1 mem]
      exact List.not_mem_nil
  rw [Text.lines, pieces]
  simp [map_dropReturn plain]

/-- Without the end of the last line, nothing is lost but a last line without text. -/
theorem lines_join (plain : ∀ line ∈ lines, IsLine line) :
    Text.lines (join '\n' lines) = lines ∨ Text.lines (join '\n' lines) ++ [[]] = lines := by
  rcases List.eq_nil_or_concat lines with rfl | ⟨front, last, rfl⟩
  · exact .inl rfl
  · rw [List.concat_eq_append] at plain ⊢
    have pieces : split '\n' (join '\n' (front ++ [last])) = front ++ [last] :=
      split_join (by simp) fun piece mem => (plain piece mem).1
    have kept := map_dropReturn fun line mem => plain line (List.mem_append_left _ mem)
    rw [Text.lines, pieces]
    cases last with
    | nil => exact .inr (by simp [kept])
    | cons c cs => exact .inl (by simp [kept])

end Text

/-! ### Records further down -/

/-- The symbol of a line that stands `n` lines further down. -/
def SymbolRecord.moveDown (n : Nat) (s : SymbolRecord) : SymbolRecord := { s with line := s.line + n }

/-- The route of a line that stands `n` lines further down. -/
def RouteRecord.moveDown (n : Nat) (r : RouteRecord) : RouteRecord := { r with line := r.line + n }

/-- The edge of a line that stands `n` lines further down. -/
def DependencyEdge.moveDown (n : Nat) (e : DependencyEdge) : DependencyEdge :=
  { e with line := e.line + n }

namespace Extraction

/-- The records of a text that stands `n` lines further down. -/
def moveDown (n : Nat) (x : Extraction) : Extraction :=
  ⟨x.symbols.map (·.moveDown n), x.routes.map (·.moveDown n), x.dependencies.map (·.moveDown n)⟩

/-- The records without the methods. -/
def withoutMethods (x : Extraction) : Extraction :=
  { x with symbols := x.symbols.filter (·.kind ≠ .method) }

theorem append_empty (x : Extraction) : x.append {} = x := by
  simp [append]

theorem empty_append (x : Extraction) : append {} x = x := by
  simp [append]

theorem append_assoc (x y z : Extraction) : (x.append y).append z = x.append (y.append z) := by
  simp [append]

theorem moveDown_append (n : Nat) (x y : Extraction) :
    (x.append y).moveDown n = (x.moveDown n).append (y.moveDown n) := by
  simp [append, moveDown]

theorem withoutMethods_append (x y : Extraction) :
    (x.append y).withoutMethods = x.withoutMethods.append y.withoutMethods := by
  simp [append, withoutMethods]

theorem withoutMethods_moveDown (n : Nat) (x : Extraction) :
    (x.moveDown n).withoutMethods = x.withoutMethods.moveDown n := by
  simp only [moveDown, withoutMethods, List.filter_map]
  rfl

end Extraction

namespace Source

namespace SourceLine

/-! ### One line -/

variable {l : SourceLine} {s : SymbolRecord} {n : Nesting}

/-- The line further down. -/
def moveDown (k : Nat) (l : SourceLine) : SourceLine := { l with number := l.number + k }

theorem kind_declared (h : s ∈ l.declared) : s.kind ≠ .method := by
  obtain ⟨r, rule, declares⟩ := exists_rule_of_mem_declared h
  have others : ∀ r ∈ declarationRules, r.kind ≠ .method := by simp [declarationRules]
  rw [declares.kind]
  exact others r rule

theorem kind_methodWithin (h : s ∈ l.methodWithin n) : s.kind = .method :=
  (declares_of_mem_methodWithin h).kind

theorem declared_moveDown (k : Nat) (l : SourceLine) :
    (l.moveDown k).declared = l.declared.map (·.moveDown k) := by
  have function : (l.moveDown k).function? = l.function?.map (·.moveDown k) := by
    rw [function?, function?, Option.map_map]
    rfl
  have arrow : (l.moveDown k).arrowFunction? = l.arrowFunction?.map (·.moveDown k) := by
    rw [arrowFunction?, arrowFunction?, Option.map_bind]
    refine congrArg _ (funext fun m => ?_)
    rw [Function.comp_apply, Option.map_map]
    rfl
  have ofClass : (l.moveDown k).class? = l.class?.map (·.moveDown k) := by
    rw [class?, class?, Option.map_map]
    refine congrArg (Option.map · _) (funext fun m => ?_)
    simp only [Function.comp_apply]
    split <;> rfl
  have interface : (l.moveDown k).interface? = l.interface?.map (·.moveDown k) := by
    rw [interface?, interface?, Option.map_map]
    rfl
  have typeAlias : (l.moveDown k).typeAlias? = l.typeAlias?.map (·.moveDown k) := by
    rw [typeAlias?, typeAlias?, Option.map_map]
    rfl
  have enumeration : (l.moveDown k).enumeration? = l.enumeration?.map (·.moveDown k) := by
    rw [enumeration?, enumeration?, Option.map_map]
    rfl
  simp only [declared, function, arrow, ofClass, interface, typeAlias, enumeration, List.map_append,
    Option.toList_map]

theorem method?_moveDown (k : Nat) (l : SourceLine) :
    (l.moveDown k).method? = l.method?.map (·.moveDown k) := by
  rw [method?, method?, Option.map_bind]
  refine congrArg _ (funext fun m => ?_)
  simp only [Function.comp_apply]
  split <;> split <;> rfl

theorem routes_moveDown (k : Nat) (l : SourceLine) :
    (l.moveDown k).routes = l.routes.map (·.moveDown k) := by
  have one : ∀ handler : Option String,
      (l.moveDown k).route? handler = fun m => (l.route? handler m).map (·.moveDown k) := by
    intro handler
    funext m
    rw [route?, route?, Option.map_map]
    rfl
  simp only [routes, one, List.map_append, List.map_filterMap]
  rfl

theorem dependencies_moveDown (k : Nat) (l : SourceLine) (resolver : Resolver) :
    (l.moveDown k).dependencies resolver = (l.dependencies resolver).map (·.moveDown k) := by
  simp [dependencies, moveDown, specifiers, DependencyEdge.moveDown, Function.comp_def]

/-- Whether a line declares anything does not depend on where it stands. -/
theorem declared_isEmpty (l : SourceLine) (path : String) (number : Nat) :
    l.declared.isEmpty = (⟨path, number, l.text⟩ : SourceLine).declared.isEmpty := by
  rw [Bool.eq_iff_iff, List.isEmpty_iff, List.isEmpty_iff]
  simp only [declared, List.append_eq_nil_iff, Option.toList_eq_nil_iff, function?, arrowFunction?,
    class?, interface?, typeAlias?, enumeration?, Option.map_eq_none_iff, Option.bind_eq_none_iff]

end SourceLine

/-! ### The nesting behind lines -/

namespace Nesting

/-- The nesting behind a line with a text. -/
def behind (n : Nesting) (text : List Char) : Nesting :=
  let l : SourceLine := ⟨"", 0, text⟩
  if l.isComment then n else (l.nestingWithin n).advance text

/-- The nesting behind lines. -/
def behindLines (n : Nesting) (lines : List (List Char)) : Nesting := lines.foldl behind n

end Nesting

theorem SourceLine.nestingWithin_eq (l : SourceLine) (n : Nesting) :
    l.nestingWithin n = (⟨"", 0, l.text⟩ : SourceLine).nestingWithin n := by
  rw [nestingWithin, nestingWithin, l.declared_isEmpty "" 0, class?, class?, Option.isSome_map,
    Option.isSome_map]

/-- The nesting behind a line depends on its text alone. -/
theorem SourceLine.snd_extract (l : SourceLine) (resolver : Resolver) (n : Nesting) :
    (l.extract resolver n).2 = n.behind l.text := by
  rw [extract, Nesting.behind]
  have comment : l.isComment = (⟨"", 0, l.text⟩ : SourceLine).isComment := rfl
  rw [comment]
  split
  · rfl
  · simp only [l.nestingWithin_eq]

/-! ### Lines one after the other -/

variable {resolver : Resolver} {path : String}

theorem extractLines_cons (text : List Char) (rest : List (List Char)) (number : Nat) (n : Nesting) :
    extractLines resolver path number n (text :: rest) =
      (SourceLine.extract ⟨path, number, text⟩ resolver n).1.append
        (extractLines resolver path (number + 1) (n.behind text) rest) := by
  rw [extractLines]
  simp only [SourceLine.snd_extract]

/-- What stands in front of a text moves its records down and gives them their nesting. -/
theorem extractLines_append (first second : List (List Char)) (number : Nat) (n : Nesting) :
    extractLines resolver path number n (first ++ second) =
      (extractLines resolver path number n first).append
        (extractLines resolver path (number + first.length) (n.behindLines first) second) := by
  induction first generalizing number n with
  | nil => exact (Extraction.empty_append _).symm
  | cons text first ih =>
    rw [List.cons_append, extractLines_cons, extractLines_cons, ih, Extraction.append_assoc,
      List.length_cons, Nat.add_assoc, Nat.add_comm 1]
    rfl

/-- The symbols of a line stand on it. -/
theorem SourceLine.line_of_mem_extract {l : SourceLine} {n : Nesting} {s : SymbolRecord}
    (h : s ∈ (l.extract resolver n).1.symbols) : s.line = l.number := by
  rw [extract] at h
  split at h
  · cases h
  · rcases List.mem_append.1 h with declared | method
    · exact (places_declared declared).2.1
    · exact (places_methodWithin method).2.1

/-- Each record of a text is one of a line, read in the nesting behind the lines before it. -/
theorem mem_extractLines {α : Type} {records : Extraction → List α} (none : records {} = [])
    (both : ∀ x y : Extraction, records (x.append y) = records x ++ records y)
    {lines : List (List Char)} {number : Nat} {n : Nesting} {a : α} :
    a ∈ records (extractLines resolver path number n lines) ↔
      ∃ before text after, lines = before ++ text :: after ∧
        a ∈ records (SourceLine.extract ⟨path, number + before.length, text⟩ resolver
          (n.behindLines before)).1 := by
  constructor
  · induction lines generalizing number n with
    | nil =>
      intro h
      rw [extractLines, none] at h
      cases h
    | cons text rest ih =>
      intro h
      rw [extractLines_cons, both] at h
      rcases List.mem_append.1 h with here | later
      · exact ⟨[], text, rest, rfl, here⟩
      · obtain ⟨before, line, after, rfl, mem⟩ := ih later
        refine ⟨text :: before, line, after, rfl, ?_⟩
        rw [List.length_cons, Nat.add_comm before.length, ← Nat.add_assoc]
        exact mem
  · rintro ⟨before, text, after, rfl, mem⟩
    rw [extractLines_append, extractLines_cons, both, both]
    exact List.mem_append_right _ (List.mem_append_left _ mem)

theorem mem_symbols_extractLines {lines : List (List Char)} {number : Nat} {n : Nesting}
    {s : SymbolRecord} :
    s ∈ (extractLines resolver path number n lines).symbols ↔
      ∃ before text after, lines = before ++ text :: after ∧
        s ∈ (SourceLine.extract ⟨path, number + before.length, text⟩ resolver
          (n.behindLines before)).1.symbols :=
  mem_extractLines rfl fun _ _ => rfl

theorem SourceLine.extract_moveDown (k : Nat) (l : SourceLine) (n : Nesting) :
    ((l.moveDown k).extract resolver n).1 = (l.extract resolver n).1.moveDown k := by
  have comment : (l.moveDown k).isComment = l.isComment := rfl
  have within : (l.moveDown k).nestingWithin n = l.nestingWithin n := by
    rw [nestingWithin_eq, l.nestingWithin_eq]
    rfl
  have method : (l.moveDown k).methodWithin (l.nestingWithin n) =
      (l.methodWithin (l.nestingWithin n)).map (·.moveDown k) := by
    have text : (l.moveDown k).text = l.text := rfl
    rw [methodWithin, methodWithin, method?_moveDown, text]
    split
    · rw [Option.toList_map]
    · rfl
  rw [extract, extract, comment]
  split
  · rfl
  · simp only [within, method, declared_moveDown, routes_moveDown, dependencies_moveDown,
      Extraction.moveDown, List.map_append]

theorem extractLines_moveDown (k : Nat) (lines : List (List Char)) (number : Nat) (n : Nesting) :
    extractLines resolver path (number + k) n lines =
      (extractLines resolver path number n lines).moveDown k := by
  induction lines generalizing number n with
  | nil => rfl
  | cons text lines ih =>
    rw [extractLines_cons, extractLines_cons, Extraction.moveDown_append, ← ih,
      ← SourceLine.extract_moveDown, Nat.add_right_comm]
    rfl

/-- The records of a line that do not depend on its nesting. -/
def SourceLine.freeRecords (l : SourceLine) (resolver : Resolver) : Extraction :=
  if l.isComment then {} else ⟨l.declared, l.routes, l.dependencies resolver⟩

theorem SourceLine.withoutMethods_extract (l : SourceLine) (resolver : Resolver) (n : Nesting) :
    (l.extract resolver n).1.withoutMethods = l.freeRecords resolver := by
  rw [extract, freeRecords]
  split
  · rfl
  · have own : ∀ s ∈ l.declared, decide (s.kind ≠ .method) = true := by
      intro s mem
      simpa using kind_declared mem
    have other : ∀ s ∈ l.methodWithin (l.nestingWithin n), ¬decide (s.kind ≠ .method) = true := by
      intro s mem
      simpa using kind_methodWithin mem
    simp only [Extraction.withoutMethods]
    rw [List.filter_append, List.filter_eq_self.2 own, List.filter_eq_nil_iff.2 other,
      List.append_nil]

/-- Methods apart, the nesting in which a text stands plays no part. -/
theorem withoutMethods_extractLines (lines : List (List Char)) (number : Nat) (n m : Nesting) :
    (extractLines resolver path number n lines).withoutMethods =
      (extractLines resolver path number m lines).withoutMethods := by
  induction lines generalizing number n m with
  | nil => rfl
  | cons text lines ih =>
    rw [extractLines_cons, extractLines_cons, Extraction.withoutMethods_append,
      Extraction.withoutMethods_append, SourceLine.withoutMethods_extract,
      SourceLine.withoutMethods_extract, ih]

/-- A line without text has no records. -/
theorem SourceLine.extract_nil (path : String) (number : Nat) (resolver : Resolver) (n : Nesting) :
    ((⟨path, number, []⟩ : SourceLine).extract resolver n).1 = {} := by
  have declared : (⟨path, number, []⟩ : SourceLine).declared = [] := by rfl
  have method : (⟨path, number, []⟩ : SourceLine).method? = none := by rfl
  have routes : (⟨path, number, []⟩ : SourceLine).routes = [] := by rfl
  have specifiers : (⟨path, number, []⟩ : SourceLine).specifiers = [] := by rfl
  have comment : (⟨path, number, []⟩ : SourceLine).isComment = false := by rfl
  rw [extract, comment]
  simp [declared, routes, methodWithin, method, dependencies, specifiers]

/-- The records of a text are those of the lines it was made from. -/
theorem extract_of_hasLines {content : String} {lines : List (List Char)}
    (plain : ∀ line ∈ lines, Text.IsLine line) (has : Text.HasLines content.toList lines) :
    extract resolver content path = extractLines resolver path 1 {} lines := by
  rw [extract]
  rcases has with ended | open_
  · rw [ended, Text.lines_ofLines plain]
  · rw [open_]
    rcases Text.lines_join plain with same | less
    · rw [same]
    · conv => rhs; rw [← less]
      rw [extractLines_append, extractLines_cons, SourceLine.extract_nil]
      simp [extractLines, Extraction.append_empty]

/-- So a text of one line has those of the line. -/
theorem extract_singleLine {line : List Char} (oneLine : '\n' ∉ line) (filled : line ≠ [])
    (resolver : Resolver) (path : String) : extract resolver (.ofList line) path =
      (SourceLine.extract ⟨path, 1, line⟩ resolver {}).1 := by
  have lines : Text.lines line = [line] := by
    have filled' : line.isEmpty = false := by simpa using filled
    rw [Text.lines, Text.split_of_not_mem oneLine]
    simp [filled']
  rw [extract, String.toList_ofList, lines, extractLines_cons]
  exact Extraction.append_empty _

/-- A text in two parts has the records of its first part followed by those of its second part, which
stand as many lines further down as the first part has. That holds for all records but the methods;
and where the first part leaves every brace closed and no class behind, for the methods too. -/
theorem extract_append (resolver : Resolver) (path : String) {first second : List (List Char)}
    (plain : ∀ line ∈ first ++ second, Text.IsLine line) {a b whole : String}
    (ha : Text.HasLines a.toList first) (hb : Text.HasLines b.toList second)
    (both : Text.HasLines whole.toList (first ++ second)) :
    (extract resolver whole path).withoutMethods =
        (extract resolver a path).withoutMethods.append
          ((extract resolver b path).withoutMethods.moveDown first.length) ∧
      (Nesting.behindLines {} first = {} →
        extract resolver whole path =
          (extract resolver a path).append ((extract resolver b path).moveDown first.length)) := by
  have front : extract resolver a path = extractLines resolver path 1 {} first :=
    extract_of_hasLines (fun line mem => plain line (List.mem_append_left _ mem)) ha
  have back : extract resolver b path = extractLines resolver path 1 {} second :=
    extract_of_hasLines (fun line mem => plain line (List.mem_append_right _ mem)) hb
  rw [extract_of_hasLines plain both, front, back, extractLines_append, extractLines_moveDown]
  refine ⟨?_, fun closed => ?_⟩
  · rw [Extraction.withoutMethods_append, Extraction.withoutMethods_moveDown,
      withoutMethods_extractLines second 1 _ {}]
  · rw [closed]

/-- A class that is closed again. -/
def closedClass : List (List Char) :=
  ["class A \x7b".toList, "  m() \x7b\x7d".toList, "\x7d".toList]

/-- A function in one line. -/
def oneFunction : List (List Char) := ["function f() \x7b\x7d".toList]

theorem extract_append_sample :
    let front := String.ofList (Text.ofLines closedClass)
    let back := String.ofList (Text.join '\n' oneFunction)
    let whole := String.ofList (Text.join '\n' (closedClass ++ oneFunction))
    (∀ line ∈ closedClass ++ oneFunction, Text.IsLine line) ∧
      Text.HasLines front.toList closedClass ∧ Text.HasLines back.toList oneFunction ∧
      Text.HasLines whole.toList (closedClass ++ oneFunction) ∧
      Nesting.behindLines {} closedClass = {} ∧
      extract {} whole "/a.ts" =
        (extract {} front "/a.ts").append ((extract {} back "/a.ts").moveDown 3) ∧
      (extract {} whole "/a.ts").symbols.map (fun s => (s.name, s.line)) =
        [("A", 1), ("m", 2), ("f", 4)] := by
  intro front back whole
  have plain : ∀ line ∈ closedClass ++ oneFunction, Text.IsLine line := by decide
  have ha : Text.HasLines front.toList closedClass := .inl String.toList_ofList
  have hb : Text.HasLines back.toList oneFunction := .inr String.toList_ofList
  have both : Text.HasLines whole.toList (closedClass ++ oneFunction) := .inr String.toList_ofList
  have closed : Nesting.behindLines {} closedClass = {} := by decide +kernel
  exact ⟨plain, ha, hb, both, closed, (extract_append {} "/a.ts" plain ha hb both).2 closed,
    by decide +kernel⟩

end Source

end SourceAtlas
