import SourceAtlas.Proofs.Import.Rooted
import SourceAtlas.Proofs.Text.Trim
import SourceAtlas.Source.Extraction
/-!
Where the records of a source text stand. Each names the file it was found in, on a line and at a
column that lie within the text, and each edge leads to nothing known or to an absolute path.
-/

namespace SourceAtlas

/-! ### Lengths of texts -/

namespace Text

/-- The bytes of a character are counted apart from those that follow. -/
theorem byteLength_cons (c : Char) (cs : List Char) :
    byteLength (c :: cs) = c.utf8Size + byteLength cs := by
  have shift : ∀ n, cs.foldl (fun n c => n + c.utf8Size) n = n + byteLength cs := by
    rw [byteLength]
    induction cs with
    | nil => simp
    | cons d ds ih =>
      intro n
      rw [List.foldl_cons, List.foldl_cons, ih, ih (0 + d.utf8Size)]
      omega
  rw [byteLength, List.foldl_cons, shift, Nat.zero_add]

theorem byteLength_le_of_sublist {a b : List Char} (h : a.Sublist b) :
    byteLength a ≤ byteLength b := by
  induction h with
  | slnil => exact Nat.le_refl _
  | cons c _ ih =>
    rw [byteLength_cons]
    omega
  | cons_cons c _ ih =>
    rw [byteLength_cons, byteLength_cons]
    omega

theorem length_le_byteLength (t : List Char) : t.length ≤ byteLength t := by
  induction t with
  | nil => exact Nat.le_refl _
  | cons c cs ih =>
    have filled := c.utf8Size_pos
    rw [List.length_cons, byteLength_cons]
    omega

/-- The bytes of a text are those of its characters. -/
theorem byteLength_toList (s : String) : byteLength s.toList = s.toUTF8.size := by
  have encode : ∀ l : List Char, (String.ofList l).toUTF8.size = byteLength l := by
    intro l
    rw [String.toUTF8_eq_toByteArray, String.toByteArray_ofList]
    induction l with
    | nil => rfl
    | cons c cs ih =>
      rw [List.utf8Encode_cons, ByteArray.size_append, ih, List.utf8Encode_singleton, byteLength_cons]
      simp
  rw [← encode, String.ofList_toList]

theorem sublist_of_mem_split {sep : Char} {t piece : List Char} (h : piece ∈ split sep t) :
    piece.Sublist t := by
  induction t generalizing piece with
  | nil => simp_all [split]
  | cons c cs ih =>
    by_cases same : c = sep
    · rw [split, if_pos same] at h
      rcases List.mem_cons.1 h with rfl | h
      · exact List.nil_sublist _
      · exact (ih h).cons c
    · obtain ⟨first, others, eq⟩ := List.exists_cons_of_ne_nil (split_ne_nil sep cs)
      rw [split_cons_of_ne same eq] at h
      rcases List.mem_cons.1 h with rfl | h
      · exact (ih (eq ▸ List.mem_cons_self)).cons_cons c
      · exact (ih (eq ▸ List.mem_cons_of_mem _ h)).cons c

theorem length_split (sep : Char) : ∀ t : List Char, (split sep t).length ≤ t.length + 1
  | [] => Nat.le_refl _
  | c :: cs => by
    have rest := length_split sep cs
    by_cases same : c = sep
    · rw [split, if_pos same, List.length_cons, List.length_cons]
      omega
    · obtain ⟨first, others, eq⟩ := List.exists_cons_of_ne_nil (split_ne_nil sep cs)
      rw [eq] at rest
      rw [split_cons_of_ne same eq]
      simp only [List.length_cons] at rest ⊢
      omega

theorem dropReturn_sublist (line : List Char) : (dropReturn line).Sublist line := by
  rw [dropReturn]
  cases stripped : stripSuffix? ['\r'] line with
  | none => exact List.Sublist.refl _
  | some rest =>
    rw [stripSuffix?_eq_some_iff.1 stripped]
    exact List.sublist_append_left _ _

theorem sublist_of_mem_lines {t line : List Char} (h : line ∈ lines t) : line.Sublist t := by
  rw [lines] at h
  rcases List.mem_append.1 h with h | h
  · obtain ⟨piece, mem, rfl⟩ := List.mem_map.1 h
    exact (dropReturn_sublist piece).trans (sublist_of_mem_split (List.dropLast_subset _ mem))
  · split at h
    · cases h
    · obtain rfl := List.mem_singleton.1 h
      obtain ⟨last, eq⟩ : ∃ last, (split '\n' t).getLast? = some last := by
        cases eq : (split '\n' t).getLast? with
        | none => exact absurd (List.getLast?_eq_none_iff.1 eq) (split_ne_nil _ _)
        | some last => exact ⟨last, rfl⟩
      rw [eq]
      exact sublist_of_mem_split (List.mem_of_getLast? eq)

theorem length_lines (t : List Char) : (lines t).length ≤ t.length + 1 := by
  have pieces := length_split '\n' t
  have filled := List.length_pos_iff.2 (split_ne_nil '\n' t)
  rw [lines, List.length_append, List.length_map, List.length_dropLast]
  split
  · simp only [List.length_nil]
    omega
  · simp only [List.length_singleton]
    omega

end Text

/-! ### Records of a line -/

namespace Source

/-- How a form of declaration is told: the rule, the group of it that is the name, and the kind. -/
structure SymbolRule where
  rule : Pattern
  name : Nat
  kind : SymbolKind

/-- The forms that are declared wherever a line stands, in their order. -/
def declarationRules : List SymbolRule :=
  [⟨functionRule, 2, .function⟩, ⟨arrowRule, 1, .function⟩, ⟨classRule, 1, .classType⟩,
    ⟨interfaceRule, 1, .interface⟩, ⟨typeRule, 1, .typeAlias⟩, ⟨enumRule, 1, .enumeration⟩]

/-- The form of a method. -/
def methodForm : SymbolRule := ⟨methodRule, 2, .method⟩

end Source

namespace Source.SourceLine

variable {l : SourceLine} {s : SymbolRecord} {r : SymbolRule}

/-- The symbol has its name from a match of the rule in the line, its kind from the rule, and its place
and signature from the line. -/
structure Declares (l : SourceLine) (r : SymbolRule) (s : SymbolRecord) : Prop where
  read : ∃ m, r.rule.match? l.text = some m ∧ s.name = .ofList (m.group r.name)
  kind : s.kind = r.kind
  filePath : s.filePath = l.filePath
  line : s.line = l.number
  column : s.column = l.column
  signature : s.signature = .ofList (Text.trim l.text)

theorem declares_symbol {m : Match} (found : r.rule.match? l.text = some m) :
    l.Declares r (l.symbol (m.group r.name) r.kind) :=
  ⟨⟨m, found, rfl⟩, rfl, rfl, rfl, rfl, rfl⟩

/-- What else is known of a symbol does not matter. -/
theorem Declares.of_eq {d : SymbolRecord} (h : l.Declares r d)
    (same : (s.name, s.kind, s.filePath, s.line, s.column, s.signature) =
      (d.name, d.kind, d.filePath, d.line, d.column, d.signature)) : l.Declares r s := by
  obtain ⟨name, kind, filePath, line, column, signature⟩ := by simpa only [Prod.mk.injEq] using same
  exact ⟨name ▸ h.read, kind.trans h.kind, filePath.trans h.filePath, line.trans h.line,
    column.trans h.column, signature.trans h.signature⟩

/-- Each symbol that a line declares is told by one of the rules. -/
theorem exists_rule_of_mem_declared (h : s ∈ l.declared) : ∃ r ∈ declarationRules, l.Declares r s := by
  simp only [declared, List.mem_append, Option.mem_toList, or_assoc] at h
  rcases h with function | arrow | ofClass | interface | typeAlias | enumeration
  · obtain ⟨m, found, rfl⟩ := Option.map_eq_some_iff.1 function
    exact ⟨⟨functionRule, 2, .function⟩, by simp [declarationRules], (declares_symbol found).of_eq rfl⟩
  · obtain ⟨m, found, arrow⟩ := Option.bind_eq_some_iff.1 arrow
    obtain ⟨signature, _, rfl⟩ := Option.map_eq_some_iff.1 arrow
    exact ⟨⟨arrowRule, 1, .function⟩, by simp [declarationRules], (declares_symbol found).of_eq rfl⟩
  · obtain ⟨m, found, rfl⟩ := Option.map_eq_some_iff.1 ofClass
    refine ⟨⟨classRule, 1, .classType⟩, by simp [declarationRules], ?_⟩
    simp only
    split
    · exact (declares_symbol found).of_eq rfl
    · exact declares_symbol found
  · obtain ⟨m, found, rfl⟩ := Option.map_eq_some_iff.1 interface
    exact ⟨⟨interfaceRule, 1, .interface⟩, by simp [declarationRules], (declares_symbol found).of_eq rfl⟩
  · obtain ⟨m, found, rfl⟩ := Option.map_eq_some_iff.1 typeAlias
    exact ⟨⟨typeRule, 1, .typeAlias⟩, by simp [declarationRules], declares_symbol found⟩
  · obtain ⟨m, found, rfl⟩ := Option.map_eq_some_iff.1 enumeration
    exact ⟨⟨enumRule, 1, .enumeration⟩, by simp [declarationRules], declares_symbol found⟩

theorem declares_of_mem_methodWithin {n : Nesting} (h : s ∈ l.methodWithin n) :
    l.Declares methodForm s := by
  rw [methodWithin] at h
  split at h
  · obtain ⟨m, found, method⟩ := Option.bind_eq_some_iff.1 (Option.mem_toList.1 h)
    simp only [Option.ite_none_left_eq_some] at method
    obtain rfl := Option.some.inj method.2
    exact (declares_symbol (r := methodForm) found).of_eq rfl
  · cases h

/-- The symbol stands on the line. -/
def Places (l : SourceLine) (s : SymbolRecord) : Prop :=
  s.filePath = l.filePath ∧ s.line = l.number ∧ s.column = l.column

theorem Declares.places (h : l.Declares r s) : l.Places s := ⟨h.filePath, h.line, h.column⟩

theorem places_declared (h : s ∈ l.declared) : l.Places s := by
  obtain ⟨r, _, declares⟩ := exists_rule_of_mem_declared h
  exact declares.places

theorem places_methodWithin {n : Nesting} (h : s ∈ l.methodWithin n) : l.Places s :=
  (declares_of_mem_methodWithin h).places

theorem mem_routes {r : RouteRecord} (h : r ∈ l.routes) :
    r.filePath = l.filePath ∧ r.line = l.number := by
  have one : ∀ {handler : Option String} {m : Match}, l.route? handler m = some r →
      r.filePath = l.filePath ∧ r.line = l.number := by
    intro handler m found
    obtain ⟨method, _, rfl⟩ := Option.map_eq_some_iff.1 found
    exact ⟨rfl, rfl⟩
  rcases List.mem_append.1 h with h | h
  · obtain ⟨m, _, found⟩ := List.mem_filterMap.1 h
    exact one found
  · obtain ⟨m, _, found⟩ := List.mem_filterMap.1 h
    exact one found

end Source.SourceLine

/-! ### Records of a text -/

/-- The records are those of the file at a path, on lines and at columns up to a bound. -/
structure Extraction.Sound (path : String) (bound : Nat) (x : Extraction) : Prop where
  symbols : ∀ s ∈ x.symbols, s.filePath = path ∧ s.line ≤ bound ∧ s.column ≤ bound
  routes : ∀ r ∈ x.routes, r.filePath = path ∧ r.line ≤ bound
  dependencies : ∀ e ∈ x.dependencies, e.source = path ∧ e.filePath = path ∧ e.kind = .importing ∧
    e.line ≤ bound ∧ ∀ q ∈ e.resolved, Path.isAbsolute q.toList

theorem Extraction.Sound.append {path : String} {bound : Nat} {x y : Extraction}
    (hx : x.Sound path bound) (hy : y.Sound path bound) : (x.append y).Sound path bound :=
  ⟨List.forall_mem_append.2 ⟨hx.symbols, hy.symbols⟩,
    List.forall_mem_append.2 ⟨hx.routes, hy.routes⟩,
    List.forall_mem_append.2 ⟨hx.dependencies, hy.dependencies⟩⟩

theorem Extraction.sound_empty (path : String) (bound : Nat) : ({} : Extraction).Sound path bound :=
  ⟨fun _ h => absurd h List.not_mem_nil, fun _ h => absurd h List.not_mem_nil,
    fun _ h => absurd h List.not_mem_nil⟩

namespace Source

variable {resolver : Resolver} {path : String} {bound : Nat}

theorem SourceLine.sound_extract (rooted : resolver.Rooted) {l : SourceLine}
    (absolute : Path.isAbsolute l.filePath.toList) (number : l.number ≤ bound)
    (column : l.column ≤ bound) (n : Nesting) :
    (l.extract resolver n).1.Sound l.filePath bound := by
  rw [SourceLine.extract]
  split
  · exact Extraction.sound_empty _ _
  · refine ⟨fun s hs => ?_, fun r hr => ?_, fun e he => ?_⟩
    · have placed : l.Places s := by
        rcases List.mem_append.1 hs with hs | hs
        · exact places_declared hs
        · exact places_methodWithin hs
      exact ⟨placed.1, placed.2.1 ▸ number, placed.2.2 ▸ column⟩
    · exact ⟨(mem_routes hr).1, (mem_routes hr).2 ▸ number⟩
    · obtain ⟨specifier, _, rfl⟩ := List.mem_map.1 he
      exact ⟨rfl, rfl, rfl, number, fun q hq => rooted.resolve? absolute hq⟩

theorem sound_extractLines (rooted : resolver.Rooted) (absolute : Path.isAbsolute path.toList)
    (lines : List (List Char)) (number : Nat) (n : Nesting) (room : number + lines.length ≤ bound + 1)
    (short : ∀ text ∈ lines, Text.byteLength text + 1 ≤ bound) :
    (extractLines resolver path number n lines).Sound path bound := by
  induction lines generalizing number n with
  | nil => exact Extraction.sound_empty _ _
  | cons text lines ih =>
    rw [List.length_cons] at room
    -- a column counts the blank bytes in front of a line, so the line's length bounds it
    have column : SourceLine.column ⟨path, number, text⟩ ≤ bound := by
      have blank : Text.byteLength (text.takeWhile Text.isBlank) ≤ Text.byteLength text :=
        Text.byteLength_le_of_sublist (List.takeWhile_sublist _)
      have whole := short text List.mem_cons_self
      simp only [SourceLine.column]
      omega
    have first := SourceLine.sound_extract rooted (l := ⟨path, number, text⟩) absolute
      (by simp only; omega) column n
    exact first.append (ih (number + 1) _ (by omega) fun t ht => short t (List.mem_cons_of_mem _ ht))

/-- The records of a text are those of its file, on lines and at columns within it. -/
theorem sound_extract (rooted : resolver.Rooted) (absolute : Path.isAbsolute path.toList)
    (content : String) :
    (extract resolver content path).Sound path (content.toUTF8.size + 1) := by
  have size := Text.byteLength_toList content
  have chars := Text.length_le_byteLength content.toList
  have count := Text.length_lines content.toList
  refine sound_extractLines rooted absolute _ 1 {} (by omega) fun text mem => ?_
  have short := Text.byteLength_le_of_sublist (Text.sublist_of_mem_lines mem)
  omega

end Source

end SourceAtlas
