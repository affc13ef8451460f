import SourceAtlas.Proofs.Query.Reachability
import SourceAtlas.Proofs.StableSort
import SourceAtlas.Query.Usage
/-!
What a search for usages lists. Two conditions on edges say what is looked for: that an edge imports
the file, and that it mentions a name. The list has the key of every edge that meets one of them,
none twice, and is in order; a search for both kinds lists the imports and behind them, before
sorting, the mentions that are no imports.
-/

namespace SourceAtlas

/-! ### The first item of each key -/

section
variable {α κ : Type} [BEq κ] [LawfulBEq κ] {key : α → κ} {seen other : List κ} {l m : List α}

/-- Only which keys are taken matters, not in what order. -/
theorem firstByKey_congr (same : ∀ k, k ∈ seen ↔ k ∈ other) :
    firstByKey key seen l = firstByKey key other l := by
  induction l generalizing seen other with
  | nil => rfl
  | cons a l ih =>
    have more : ∀ k, k ∈ key a :: seen ↔ k ∈ key a :: other := by
      intro k
      rw [List.mem_cons, List.mem_cons, same k]
    simp only [firstByKey, List.contains_iff_mem, same (key a)]
    rw [ih same, ih more]

theorem firstByKey_append : firstByKey key seen (l ++ m) =
    firstByKey key seen l ++ firstByKey key (l.map key ++ seen) m := by
  induction l generalizing seen with
  | nil => rfl
  | cons a l ih =>
    simp only [List.cons_append, firstByKey, List.map_cons]
    split
    · rename_i taken
      rw [ih]
      refine congrArg _ (firstByKey_congr fun k => ?_)
      rw [List.contains_iff_mem] at taken
      simp only [List.mem_cons, List.mem_append]
      constructor
      · exact .inr
      · rintro (rfl | known)
        · exact .inr taken
        · exact known
    · rw [ih, List.cons_append]
      refine congrArg _ (congrArg _ (firstByKey_congr fun k => ?_))
      simp only [List.mem_cons, List.mem_append]
      exact or_left_comm

/-- More keys that are taken are a filter on the items. -/
theorem firstByKey_append_seen : firstByKey key (other ++ seen) l =
    (firstByKey key seen l).filter fun a => !other.contains (key a) := by
  induction l generalizing seen with
  | nil => rfl
  | cons a l ih =>
    simp only [firstByKey]
    by_cases known : key a ∈ seen
    · rw [if_pos (by simp [known]), if_pos (by simp [known]), ih]
    · by_cases taken : key a ∈ other
      · rw [if_pos (by simp [taken]), if_neg (by simp [known]), List.filter_cons_of_neg (by simp [taken]),
          ← ih]
        refine firstByKey_congr fun k => ?_
        simp only [List.mem_append, List.mem_cons]
        constructor
        · exact Or.imp_right .inr
        · rintro (old | rfl | old)
          · exact .inl old
          · exact .inl taken
          · exact .inr old
      · rw [if_neg (by simp [known, taken]), if_neg (by simp [known]),
          List.filter_cons_of_pos (by simp [taken]), ← ih]
        refine congrArg _ (firstByKey_congr fun k => ?_)
        simp only [List.mem_append, List.mem_cons]
        exact or_left_comm

omit [LawfulBEq κ] in
theorem firstByKey_sublist : (firstByKey key seen l).Sublist l := by
  induction l generalizing seen with
  | nil => exact List.Sublist.refl _
  | cons a l ih =>
    rw [firstByKey]
    split
    · exact ih.cons a
    · exact ih.cons_cons a

theorem mem_keys_firstByKey {k : κ} :
    k ∈ (firstByKey key seen l).map key ↔ k ∈ l.map key ∧ k ∉ seen := by
  induction l generalizing seen with
  | nil => simp [firstByKey]
  | cons a l ih =>
    rw [firstByKey]
    split
    · rename_i taken
      rw [List.contains_iff_mem] at taken
      rw [ih, List.map_cons, List.mem_cons]
      refine ⟨fun h => ⟨.inr h.1, h.2⟩, ?_⟩
      rintro ⟨rfl | later, new⟩
      · exact absurd taken new
      · exact ⟨later, new⟩
    · rename_i free
      rw [List.contains_iff_mem] at free
      rw [List.map_cons, List.mem_cons, ih, List.map_cons, List.mem_cons, List.mem_cons]
      by_cases own : k = key a
      · simp [own, free]
      · simp [own]

theorem nodup_keys_firstByKey : ((firstByKey key seen l).map key).Nodup := by
  induction l generalizing seen with
  | nil => exact List.nodup_nil
  | cons a l ih =>
    rw [firstByKey]
    split
    · exact ih
    · rw [List.map_cons, List.nodup_cons]
      refine ⟨fun again => ?_, ih⟩
      exact (mem_keys_firstByKey.1 again).2 List.mem_cons_self

end

/-! ### The order of usages -/

namespace UsageRecord

variable {u v : UsageRecord}

theorem before_iff : u.before v ↔ u.file < v.file ∨ u.file = v.file ∧ u.line ≤ v.line := by
  rw [before]
  by_cases same : u.file = v.file
  · simp [same]
  · simp [same]

theorem before_trans (u v w : UsageRecord) (uv : u.before v) (vw : v.before w) : u.before w := by
  rw [before_iff] at uv vw ⊢
  rcases uv with lt | ⟨same, le⟩
  · rcases vw with lt' | ⟨same', _⟩
    · exact .inl (String.lt_trans lt lt')
    · exact .inl (same' ▸ lt)
  · rcases vw with lt' | ⟨same', le'⟩
    · exact .inl (same ▸ lt')
    · exact .inr ⟨same.trans same', le.trans le'⟩

theorem before_total (u v : UsageRecord) : u.before v || v.before u := by
  rw [Bool.or_eq_true, before_iff, before_iff]
  by_cases same : u.file = v.file
  · simp only [same, String.lt_irrefl, true_and, false_or]
    exact Nat.le_total _ _
  · rcases String.le_total u.file v.file with le | le
    · exact .inl (.inl (String.not_le.1 fun ge => same (String.le_antisymm le ge)))
    · exact .inr (.inl (String.not_le.1 fun ge => same (String.le_antisymm ge le)))

end UsageRecord

/-! ### What is looked for -/

namespace UsageQuery

/-- The query asks for imports of a file, and the edge is one. -/
def Imports (q : UsageQuery) (a : Atlas) (e : DependencyEdge) : Prop :=
  q.scope ≠ .usages ∧ ∃ path ∈ q.filePath, e.kind = .importing ∧ a.leadsTo (a.absolute path) e

/-- The query asks for mentions of a name, and the name is a part of one end of the edge. -/
def Mentions (q : UsageQuery) (e : DependencyEdge) : Prop :=
  q.scope ≠ .imports ∧ ∃ name, (name ∈ q.methodName ∨ name ∈ q.className) ∧
    (name.toList <:+: e.specifier.toList ∨ name.toList <:+: e.source.toList)

/-- The query gives something to look for. -/
def Asks (q : UsageQuery) : Prop := q.filePath.isSome ∨ q.methodName.isSome ∨ q.className.isSome

end UsageQuery

/-- The key that the usages of an edge have. -/
def DependencyEdge.usageKey (e : DependencyEdge) : String × Nat × String :=
  (e.source, e.line, e.specifier)

namespace Atlas

variable {a : Atlas} {q : UsageQuery} {u : UsageRecord}

theorem mem_wantedImports : u ∈ a.wantedImports q ↔
    ∃ e ∈ a.catalog.allDependencies, q.Imports a e ∧ a.usage .importing e = u := by
  rw [wantedImports]
  split
  · rename_i scope
    refine ⟨fun none => absurd none List.not_mem_nil, ?_⟩
    rintro ⟨e, _, ⟨asked, _⟩, _⟩
    exact absurd (by simpa using scope) asked
  · rename_i scope
    simp only [List.mem_flatMap, Option.mem_toList, importsOf, List.mem_map, List.mem_filter,
      Bool.and_eq_true, beq_iff_eq]
    constructor
    · rintro ⟨path, given, e, ⟨stored, kind, leads⟩, rfl⟩
      exact ⟨e, stored, ⟨by simpa using scope, path, given, kind, leads⟩, rfl⟩
    · rintro ⟨e, stored, ⟨_, path, given, kind, leads⟩, rfl⟩
      exact ⟨path, given, e, ⟨stored, kind, leads⟩, rfl⟩

theorem mem_wantedMentions : u ∈ a.wantedMentions q ↔
    ∃ e ∈ a.catalog.allDependencies, q.Mentions e ∧ a.usage .mentioning e = u := by
  rw [wantedMentions]
  split
  · rename_i scope
    refine ⟨fun none => absurd none List.not_mem_nil, ?_⟩
    rintro ⟨e, _, ⟨asked, _⟩, _⟩
    exact absurd (by simpa using scope) asked
  · rename_i scope
    simp only [List.mem_flatMap, List.mem_append, Option.mem_toList, mentioning, List.mem_map,
      List.mem_filter, DependencyEdge.mentions, Bool.or_eq_true, Text.within, Text.occursIn_iff]
    constructor
    · rintro ⟨name, given, e, ⟨stored, part⟩, rfl⟩
      exact ⟨e, stored, ⟨by simpa using scope, name, given, part⟩, rfl⟩
    · rintro ⟨e, stored, ⟨_, name, given, part⟩, rfl⟩
      exact ⟨name, given, e, ⟨stored, part⟩, rfl⟩

/-- The usages that are listed, before they are sorted. -/
def foundUsages (a : Atlas) (q : UsageQuery) : List UsageRecord :=
  firstByKey UsageRecord.key [] (a.wantedImports q ++ a.wantedMentions q)

theorem usages_eq (asks : q.Asks) :
    a.usages q = .ok ((a.foundUsages q).mergeSort UsageRecord.before) := by
  rw [usages, if_neg, foundUsages]
  rcases asks with h | h | h
  · simp [Option.isNone_eq_false_iff.2 h]
  · simp [Option.isNone_eq_false_iff.2 h]
  · simp [Option.isNone_eq_false_iff.2 h]

/-- What is listed is an import where the key is that of an import, and a mention elsewhere. -/
theorem foundUsages_eq : a.foundUsages q =
    firstByKey UsageRecord.key [] (a.wantedImports q) ++
      (firstByKey UsageRecord.key [] (a.wantedMentions q)).filter fun u =>
        !((a.wantedImports q).map (·.key)).contains u.key := by
  rw [foundUsages, firstByKey_append, firstByKey_append_seen]

/-- An edge is listed as an import exactly if it is one that is asked for. -/
theorem listed_as_import_iff {key : String × Nat × String} :
    (∃ u ∈ a.foundUsages q, u.kind = .importing ∧ u.key = key) ↔
      ∃ e ∈ a.catalog.allDependencies, e.usageKey = key ∧ q.Imports a e := by
  rw [foundUsages_eq]
  constructor
  · rintro ⟨u, mem, kind, rfl⟩
    rcases List.mem_append.1 mem with first | later
    · obtain ⟨e, stored, asked, rfl⟩ := mem_wantedImports.1 (firstByKey_sublist.subset first)
      exact ⟨e, stored, rfl, asked⟩
    · have mention := firstByKey_sublist.subset (List.mem_filter.1 later).1
      obtain ⟨e, _, _, rfl⟩ := mem_wantedMentions.1 mention
      cases kind
  · rintro ⟨e, stored, rfl, asked⟩
    have wanted := mem_wantedImports.2 ⟨e, stored, asked, rfl⟩
    have kept : e.usageKey ∈ (firstByKey UsageRecord.key [] (a.wantedImports q)).map (·.key) :=
      mem_keys_firstByKey.2 ⟨List.mem_map_of_mem wanted, List.not_mem_nil⟩
    obtain ⟨u, mem, same⟩ := List.mem_map.1 kept
    obtain ⟨d, _, _, rfl⟩ := mem_wantedImports.1 (firstByKey_sublist.subset mem)
    exact ⟨_, List.mem_append_left _ mem, rfl, same⟩

/-- The records are usages of edges, and list what a query looks for: each key once, and in order. -/
structure Lists (a : Atlas) (q : UsageQuery) (records : List UsageRecord) : Prop where
  stored : ∀ u ∈ records, ∃ e ∈ a.catalog.allDependencies, u = a.usage u.kind e
  keys : ∀ key, key ∈ records.map (·.key) ↔
    ∃ e ∈ a.catalog.allDependencies, e.usageKey = key ∧ (q.Imports a e ∨ q.Mentions e)
  once : (records.map (·.key)).Nodup
  ordered : records.Pairwise fun u v => u.file < v.file ∨ u.file = v.file ∧ u.line ≤ v.line

theorem lists_foundUsages (a : Atlas) (q : UsageQuery) :
    a.Lists q ((a.foundUsages q).mergeSort UsageRecord.before) := by
  have perm := List.mergeSort_perm (a.foundUsages q) UsageRecord.before
  refine ⟨fun u mem => ?_, fun key => ?_, ?_, ?_⟩
  · rcases List.mem_append.1 (firstByKey_sublist.subset (perm.mem_iff.1 mem)) with wanted | wanted
    · obtain ⟨e, stored, _, rfl⟩ := mem_wantedImports.1 wanted
      exact ⟨e, stored, rfl⟩
    · obtain ⟨e, stored, _, rfl⟩ := mem_wantedMentions.1 wanted
      exact ⟨e, stored, rfl⟩
  · rw [(perm.map _).mem_iff, foundUsages, mem_keys_firstByKey, List.map_append, List.mem_append]
    simp only [List.not_mem_nil, not_false_iff, and_true, List.mem_map, mem_wantedImports,
      mem_wantedMentions]
    constructor
    · rintro (⟨_, ⟨e, stored, asked, rfl⟩, rfl⟩ | ⟨_, ⟨e, stored, asked, rfl⟩, rfl⟩)
      · exact ⟨e, stored, rfl, .inl asked⟩
      · exact ⟨e, stored, rfl, .inr asked⟩
    · rintro ⟨e, stored, rfl, asked | asked⟩
      · exact .inl ⟨_, ⟨e, stored, asked, rfl⟩, rfl⟩
      · exact .inr ⟨_, ⟨e, stored, asked, rfl⟩, rfl⟩
  · exact (perm.map _).nodup_iff.2 nodup_keys_firstByKey
  · have sorted := List.pairwise_mergeSort UsageRecord.before_trans UsageRecord.before_total
      (a.foundUsages q)
    exact sorted.imp UsageRecord.before_iff.1

/-! ### Searches by scope -/

theorem foundUsages_imports :
    a.foundUsages { q with scope := .imports } =
      firstByKey UsageRecord.key [] (a.wantedImports { q with scope := .both }) := by
  have nothing : a.wantedMentions { q with scope := .imports } = [] := rfl
  rw [foundUsages, nothing, List.append_nil]
  rfl

theorem foundUsages_usages :
    a.foundUsages { q with scope := .usages } =
      firstByKey UsageRecord.key [] (a.wantedMentions { q with scope := .both }) := by
  have nothing : a.wantedImports { q with scope := .usages } = [] := rfl
  rw [foundUsages, nothing, List.nil_append]
  rfl

/-- The keys of the imports are those of the sorted list of imports. -/
theorem mem_keys_imports {key : String × Nat × String} :
    key ∈ (a.wantedImports { q with scope := .both }).map (·.key) ↔
      key ∈ ((a.foundUsages { q with scope := .imports }).mergeSort UsageRecord.before).map (·.key) := by
  rw [((List.mergeSort_perm _ _).map _).mem_iff, foundUsages_imports, mem_keys_firstByKey]
  simp

/-- A search for both kinds gives the imports and the mentions that are no imports, sorted
together. -/
theorem both_eq_imports_append :
    (a.foundUsages { q with scope := .both }).mergeSort UsageRecord.before =
      ((a.foundUsages { q with scope := .imports }).mergeSort UsageRecord.before ++
        ((a.foundUsages { q with scope := .usages }).mergeSort UsageRecord.before).filter fun u =>
          u.key ∉ ((a.foundUsages { q with scope := .imports }).mergeSort UsageRecord.before).map
            (·.key)).mergeSort UsageRecord.before := by
  have new : (fun u : UsageRecord => decide (u.key ∉
      ((a.foundUsages { q with scope := .imports }).mergeSort UsageRecord.before).map (·.key))) =
      fun u => !((a.wantedImports { q with scope := .both }).map (·.key)).contains u.key := by
    funext u
    rw [Bool.eq_iff_iff]
    simp only [decide_eq_true_eq, Bool.not_eq_true', ← Bool.not_eq_true, List.contains_iff_mem,
      mem_keys_imports]
  rw [new, filter_mergeSort UsageRecord.before_trans UsageRecord.before_total,
    mergeSort_append_mergeSort UsageRecord.before_trans UsageRecord.before_total, foundUsages_imports,
    foundUsages_usages, ← foundUsages_eq]

/-- A query that gives something to look for is answered with a list of the edges it looks for. The
answer for both scopes is made from the answers for each of them, and calls an edge an import exactly
if that of the imports has its key. -/
theorem usages_exact (a : Atlas) (q : UsageQuery) (asks : q.Asks) :
    (∃ records, a.usages q = .ok records ∧ a.Lists q records) ∧
    ∃ imports mentions both,
      a.usages { q with scope := .imports } = .ok imports ∧
      a.usages { q with scope := .usages } = .ok mentions ∧
      a.usages { q with scope := .both } = .ok both ∧
      both = (imports ++ mentions.filter fun u => u.key ∉ imports.map (·.key)).mergeSort
        UsageRecord.before ∧
      ∀ u ∈ both, u.kind = .importing ↔ u.key ∈ imports.map (·.key) := by
  refine ⟨⟨_, usages_eq asks, a.lists_foundUsages q⟩, _, _, _, usages_eq asks, usages_eq asks,
    usages_eq asks, both_eq_imports_append, fun u mem => ?_⟩
  rw [← mem_keys_imports]
  have found := (List.mergeSort_perm _ _).mem_iff.1 mem
  rw [foundUsages_eq] at found
  rcases List.mem_append.1 found with first | later
  · have wanted := firstByKey_sublist.subset first
    obtain ⟨e, _, _, rfl⟩ := mem_wantedImports.1 wanted
    exact ⟨fun _ => List.mem_map_of_mem wanted, fun _ => rfl⟩
  · obtain ⟨mention, new⟩ := List.mem_filter.1 later
    obtain ⟨e, _, _, rfl⟩ := mem_wantedMentions.1 (firstByKey_sublist.subset mention)
    simp only [Bool.not_eq_true', ← Bool.not_eq_true, List.contains_iff_mem] at new
    refine ⟨fun kind => ?_, fun known => absurd known new⟩
    cases kind

/-- A file that imports another, and then something outside with the same name in it. -/
def sampleAtlas : Atlas :=
  ⟨{ dependencies := .ofList [("/p/a.ts",
      [⟨"/p/a.ts", "./b", some "/p/b.ts", .importing, "/p/a.ts", 1⟩,
        ⟨"/p/a.ts", "lib/b", none, .importing, "/p/a.ts", 2⟩])] }, {}, "/p"⟩

/-- The imported file and a name that both edges mention. -/
def sampleUsageQuery : UsageQuery := { filePath := some "b.ts", className := some "b" }

theorem usages_exact_sample : sampleUsageQuery.Asks ∧
    ∃ both, sampleAtlas.usages sampleUsageQuery = .ok both ∧ sampleAtlas.Lists sampleUsageQuery both ∧
      both.map (fun u => (u.file, u.line, u.kind)) =
        [("a.ts", 1, .importing), ("a.ts", 2, .mentioning)] := by
  have asks : sampleUsageQuery.Asks := .inl rfl
  obtain ⟨⟨both, answer, lists⟩, _⟩ := usages_exact sampleAtlas sampleUsageQuery asks
  have same := (usages_eq asks).symm.trans answer
  refine ⟨asks, both, answer, lists, ?_⟩
  rw [← Except.ok.inj same]
  have found : (sampleAtlas.foundUsages sampleUsageQuery).Pairwise fun u v => u.before v := by
    decide +kernel
  rw [List.mergeSort_of_pairwise found]
  decide +kernel

end Atlas

end SourceAtlas
