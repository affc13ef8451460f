import SourceAtlas.Proofs.Pattern.Groups
import SourceAtlas.Proofs.Source.Lines
/-!
The records of a text are anchored in its lines. Whatever a record says of where it stands and what it
is called can be seen in one line of the text, a line that is no comment: names and modules are groups
of a rule that was read there, and the rest is copied from the line. So it is for each line, whatever
nesting it stands in, and a text has the records of its lines one after the other.
-/

namespace SourceAtlas

open Source

/-! ### What a record and its line have in common -/

/-- The name of the symbol stands in the line, and the symbol has the line's place and text. -/
structure SymbolRecord.Anchored (path : String) (text : List Char) (s : SymbolRecord) : Prop where
  filePath : s.filePath = path
  signature : s.signature = .ofList (Text.trim text)
  column : s.column = Text.byteLength (text.takeWhile Text.isBlank) + 1
  named : s.name ≠ ""
  name : s.name.toList <:+: text

/-- The path of the route stands in the line. -/
structure RouteRecord.Anchored (path : String) (text : List Char) (r : RouteRecord) : Prop where
  filePath : r.filePath = path
  path : r.path.toList <:+: text

/-- The module that the edge names stands in the line, and the edge leads to where it is resolved. -/
structure DependencyEdge.Anchored (resolver : Resolver) (path : String) (text : List Char)
    (e : DependencyEdge) : Prop where
  source : e.source = path
  filePath : e.filePath = path
  kind : e.kind = .importing
  resolved : e.resolved = resolver.resolve? e.specifier path
  named : e.specifier ≠ ""
  unquoted : ∀ c ∈ e.specifier.toList, isQuote c = false
  specifier : e.specifier.toList <:+: text

/-- The line of a text with a number, counted from 1, if it does not begin like a comment. -/
structure Source.CodeLine (content : String) (number : Nat) (text : List Char) : Prop where
  counted : 1 ≤ number
  line : (Text.lines content.toList)[number - 1]? = some text
  code : ∀ mark ∈ ["//", "/*", "*"], ¬mark.toList <+: Text.trimStart text

namespace Source

open Pattern

/-! ### What the rules keep -/

theorem filled_identifier : Filled identifier := (filled_one _).both _

/-- Each rule for symbols keeps a name that is not empty. -/
theorem keeps_symbolRule {r : SymbolRule} (h : r ∈ methodForm :: declarationRules) :
    ∃ q, r.rule.Keeps r.name q ∧ q.Filled := by
  simp only [declarationRules, List.mem_cons, List.not_mem_nil, or_false] at h
  rcases h with rfl | declaration
  · exact ⟨both (optional (char '#')) identifier, ⟨rfl, rfl⟩, filled_identifier.behind _⟩
  · refine ⟨identifier, ?_, filled_identifier⟩
    rcases declaration with rfl | rfl | rfl | rfl | rfl | rfl <;> exact ⟨rfl, rfl⟩

/-- Each rule for statements that name a module keeps the module. -/
theorem keeps_moduleRule {p : Pattern}
    (h : p ∈ [importRule, reexportRule, importTailRule, requireRule]) :
    p.Keeps 1 (oneOrMore fun c => !isQuote c) := by
  simp only [List.mem_cons, List.not_mem_nil, or_false] at h
  rcases h with rfl | rfl | rfl | rfl <;> exact ⟨rfl, rfl⟩

/-- Each rule for routes keeps the route. -/
theorem keeps_routeRule {p : Pattern} (h : p ∈ [routeCallRule, routeDecoratorRule]) :
    p.Keeps 2 (run fun c => !isRouteQuote c) := by
  simp only [List.mem_cons, List.not_mem_nil, or_false] at h
  rcases h with rfl | rfl <;> exact ⟨rfl, rfl⟩

namespace SourceLine

variable {l : SourceLine} {s : SymbolRecord} {resolver : Resolver}

/-! ### Records of a line -/

theorem Declares.anchored {r : SymbolRule} (h : l.Declares r s)
    (rule : r ∈ methodForm :: declarationRules) : s.Anchored l.filePath l.text := by
  obtain ⟨q, keeps, filled⟩ := keeps_symbolRule rule
  obtain ⟨m, found, name⟩ := h.read
  refine ⟨h.filePath, h.signature, h.column, fun empty => ?_, ?_⟩
  · exact keeps.group_ne_nil filled found (String.ofList_eq_empty_iff.1 (name.symm.trans empty))
  · rw [name, String.toList_ofList]
    exact keeps.group_within (.here _) found

theorem anchored_symbols {n : Nesting} (h : s ∈ l.declared ++ l.methodWithin n) :
    s.Anchored l.filePath l.text := by
  rcases List.mem_append.1 h with declared | method
  · obtain ⟨r, rule, declares⟩ := exists_rule_of_mem_declared declared
    exact declares.anchored (List.mem_cons_of_mem _ rule)
  · exact (declares_of_mem_methodWithin method).anchored List.mem_cons_self

theorem anchored_routes {r : RouteRecord} (h : r ∈ l.routes) : r.Anchored l.filePath l.text := by
  have one : ∀ {p : Pattern} {handler : Option String}, p ∈ [routeCallRule, routeDecoratorRule] →
      r ∈ (p.searchAll l.text).filterMap (l.route? handler) → r.Anchored l.filePath l.text := by
    intro p handler rule mem
    obtain ⟨m, match_, found⟩ := List.mem_filterMap.1 mem
    obtain ⟨k, inside, here⟩ := matchAt?_of_mem_searchAll match_
    obtain ⟨method, _, rfl⟩ := Option.map_eq_some_iff.1 found
    refine ⟨rfl, ?_⟩
    rw [String.toList_ofList]
    exact (keeps_routeRule rule).group_within inside here
  rcases List.mem_append.1 h with call | decorator
  · exact one (by simp) call
  · exact one (by simp) decorator

/-- A module that the line names is what one of the rules keeps of the line. -/
theorem exists_rule_of_mem_specifiers {text : List Char} (h : text ∈ l.specifiers) :
    ∃ p ∈ [importRule, reexportRule, importTailRule, requireRule], ∃ k m,
      (Cursor.start l.text).Passes (fun _ => true) k ∧ p.matchAt? k = some m ∧ m.group 1 = text := by
  obtain ⟨m, mem, rfl⟩ := List.mem_map.1 h
  rcases List.mem_append.1 mem with statement | call
  · obtain ⟨p, rule, found⟩ := List.exists_of_findSome?_eq_some (Option.mem_toList.1 statement)
    refine ⟨p, ?_, _, m, .here _, found, rfl⟩
    simp only [List.mem_cons, List.not_mem_nil, or_false] at rule ⊢
    rcases rule with rule | rule | rule <;> simp [rule]
  · obtain ⟨k, inside, found⟩ := matchAt?_of_mem_searchAll call
    exact ⟨requireRule, by simp, k, m, inside, found, rfl⟩

theorem anchored_dependencies {e : DependencyEdge} (h : e ∈ l.dependencies resolver) :
    e.Anchored resolver l.filePath l.text := by
  obtain ⟨text, mem, rfl⟩ := List.mem_map.1 h
  obtain ⟨p, rule, k, m, inside, found, rfl⟩ := exists_rule_of_mem_specifiers mem
  have keeps := keeps_moduleRule rule
  refine ⟨rfl, rfl, rfl, rfl, fun empty => ?_, ?_, ?_⟩
  · exact keeps.group_ne_nil ((filled_one _).both _) found (String.ofList_eq_empty_iff.1 empty)
  · intro c mem
    rw [String.toList_ofList] at mem
    simpa using keeps.group_oneOrMore found c mem
  · rw [String.toList_ofList]
    exact keeps.group_within inside found

/-! ### Lines of a text -/

/-- A line that is no comment begins with none of the marks of one. -/
theorem not_prefix_of_isComment (h : l.isComment = false) :
    ∀ mark ∈ ["//", "/*", "*"], ¬mark.toList <+: Text.trimStart l.text := by
  intro mark mem begins
  obtain ⟨rest, eq⟩ := begins
  rw [isComment, ← eq] at h
  simp only [List.mem_cons, List.not_mem_nil, or_false] at mem
  rcases mem with rfl | rfl | rfl <;> cases h

/-- The records of a line in its nesting are some of those that can be read in it. -/
structure Among (l : SourceLine) (resolver : Resolver) (n : Nesting) (x : Extraction) : Prop where
  symbols : ∀ s ∈ x.symbols, s ∈ l.declared ++ l.methodWithin n
  routes : ∀ r ∈ x.routes, r ∈ l.routes
  dependencies : ∀ e ∈ x.dependencies, e ∈ l.dependencies resolver

theorem mem_extract (l : SourceLine) (resolver : Resolver) (n : Nesting) :
    l.Among resolver (l.nestingWithin n) (l.extract resolver n).1 := by
  rw [extract]
  split
  · exact ⟨fun _ mem => absurd mem List.not_mem_nil, fun _ mem => absurd mem List.not_mem_nil,
      fun _ mem => absurd mem List.not_mem_nil⟩
  · exact ⟨fun _ mem => mem, fun _ mem => mem, fun _ mem => mem⟩

/-- A line that has records is no comment. -/
theorem isComment_of_mem {α : Type} {records : Extraction → List α} (none : records {} = [])
    {n : Nesting} {a : α} (h : a ∈ records (l.extract resolver n).1) : l.isComment = false := by
  cases comment : l.isComment with
  | false => rfl
  | true =>
    rw [extract, comment, if_pos rfl, none] at h
    cases h

end SourceLine

variable {resolver : Resolver} {path content : String} {α : Type} {records : Extraction → List α}
  {line : α → Nat} {Good : List Char → α → Prop}

/-- What holds of the records of each line holds of the records of a text, each with the line on which
it stands. -/
theorem codeLine_of_mem_extract (none : records {} = [])
    (both : ∀ x y : Extraction, records (x.append y) = records x ++ records y)
    (own : ∀ (l : SourceLine) n, ∀ a ∈ records (l.extract resolver n).1, line a = l.number)
    (good : ∀ (l : SourceLine) n, l.filePath = path → ∀ a ∈ records (l.extract resolver n).1,
      Good l.text a) {a : α} (h : a ∈ records (extract resolver content path)) :
    ∃ text, CodeLine content (line a) text ∧ Good text a := by
  obtain ⟨before, text, after, whole, mem⟩ := (mem_extractLines none both).1 h
  have number := own _ _ a mem
  refine ⟨text, ⟨?_, ?_, ?_⟩, good _ _ rfl a mem⟩
  · rw [number]
    simp only
    omega
  · rw [whole, number]
    simp
  · exact SourceLine.not_prefix_of_isComment (SourceLine.isComment_of_mem none mem)

/-- The records of lines stand one behind the other. -/
theorem pairwise_extractLines (none : records {} = [])
    (both : ∀ x y : Extraction, records (x.append y) = records x ++ records y)
    (own : ∀ (l : SourceLine) n, ∀ a ∈ records (l.extract resolver n).1, line a = l.number)
    (lines : List (List Char)) (number : Nat) (n : Nesting) :
    (records (extractLines resolver path number n lines)).Pairwise (line · ≤ line ·) := by
  induction lines generalizing number n with
  | nil =>
    rw [extractLines, none]
    exact .nil
  | cons text lines ih =>
    rw [extractLines_cons, both]
    refine List.pairwise_append.2 ⟨?_, ih _ _, fun a ha b hb => ?_⟩
    · refine List.pairwise_of_forall_mem_list fun a ha b hb => ?_
      rw [own _ _ a ha, own _ _ b hb]
    · obtain ⟨before, _, _, _, mem⟩ := (mem_extractLines none both).1 hb
      rw [own _ _ a ha, own _ _ b mem]
      simp only
      omega

/-- Every record of a text is anchored in the line on which it stands, and that line is no comment.
Routes come in the order of their lines, and so do edges. -/
theorem extract_anchored (resolver : Resolver) (content path : String) :
    let found := extract resolver content path
    (∀ s ∈ found.symbols, ∃ text, CodeLine content s.line text ∧ s.Anchored path text) ∧
      (∀ r ∈ found.routes, ∃ text, CodeLine content r.line text ∧ r.Anchored path text) ∧
      (∀ e ∈ found.dependencies, ∃ text, CodeLine content e.line text ∧
        e.Anchored resolver path text) ∧
      found.routes.Pairwise (·.line ≤ ·.line) ∧ found.dependencies.Pairwise (·.line ≤ ·.line) := by
  have routeLine : ∀ (l : SourceLine) n, ∀ r ∈ (l.extract resolver n).1.routes, r.line = l.number :=
    fun l n r mem => (SourceLine.mem_routes ((l.mem_extract resolver n).routes r mem)).2
  have edgeLine : ∀ (l : SourceLine) n, ∀ e ∈ (l.extract resolver n).1.dependencies,
      e.line = l.number := by
    intro l n e mem
    obtain ⟨text, _, rfl⟩ := List.mem_map.1 ((l.mem_extract resolver n).dependencies e mem)
    rfl
  refine ⟨fun s mem => ?_, fun r mem => ?_, fun e mem => ?_, ?_, ?_⟩
  · refine codeLine_of_mem_extract rfl (fun _ _ => rfl) (fun _ _ _ => SourceLine.line_of_mem_extract)
      (fun l n same s mem => ?_) mem
    exact same ▸ SourceLine.anchored_symbols ((l.mem_extract resolver n).symbols s mem)
  · refine codeLine_of_mem_extract rfl (fun _ _ => rfl) routeLine (fun l n same r mem => ?_) mem
    exact same ▸ SourceLine.anchored_routes ((l.mem_extract resolver n).routes r mem)
  · refine codeLine_of_mem_extract rfl (fun _ _ => rfl) edgeLine (fun l n same e mem => ?_) mem
    exact same ▸ SourceLine.anchored_dependencies ((l.mem_extract resolver n).dependencies e mem)
  · exact pairwise_extractLines rfl (fun _ _ => rfl) routeLine _ 1 {}
  · exact pairwise_extractLines rfl (fun _ _ => rfl) edgeLine _ 1 {}

end Source

end SourceAtlas
