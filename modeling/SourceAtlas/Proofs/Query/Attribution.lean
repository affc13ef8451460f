import SourceAtlas.Proofs.Analysis.Survey
import SourceAtlas.Proofs.Query.Usage
import SourceAtlas.Proofs.Source.Lines
/-!
To which files an import is attributed. Where the rules in force are those that the catalog was made
with, resolving an import again gives what it was resolved to before, so that there remain two ways to
report it: the file is the one that it was resolved to, or the names on the resolved path are the last
ones on the path of the file. The second way takes in other files, as soon as names repeat.
-/

namespace SourceAtlas

/-! ### Catalogs and their rules -/

/-- The catalog was made from files, and their imports were resolved by the rules. -/
def Catalog.MadeWith (c : Catalog) (r : Resolver) : Prop :=
  ∃ t root batchSize files now,
    c = { (Survey.ofFiles t r root batchSize files).catalog with lastIndexed := now }

/-- An analysis that builds its catalog makes it with the rules that it leaves in force. -/
theorem Workspace.madeWith_analyze {w : Workspace} {t : FileTree} {now : Int} {o : AnalyzeOptions}
    {a : Analysis} (ok : w.analyze t now o = .ok a) (built : a.summary.fromCache = false) :
    a.workspace.catalog.MadeWith a.workspace.resolver := by
  obtain ⟨s, _, rfl⟩ := analyze_eq_ok ok
  rcases w.analyzeRoot_cases t now s o.force with
    ⟨catalog, cache, u, _, result⟩ | ⟨cache, u, _, result⟩
  · rw [result] at built
    cases built
  · rw [result]
    exact ⟨_, _, _, _, _, rfl⟩

variable {resolver : Resolver} {path : String} {e : DependencyEdge}

theorem Source.resolved_of_mem_extractLines {lines : List (List Char)} {number : Nat} {n : Nesting}
    (mem : e ∈ (extractLines resolver path number n lines).dependencies) :
    e.resolved = resolver.resolve? e.specifier e.source := by
  induction lines generalizing number n with
  | nil => cases mem
  | cons text lines ih =>
    rw [extractLines_cons] at mem
    rcases List.mem_append.1 mem with here | later
    · rw [SourceLine.extract] at here
      split at here
      · cases here
      · obtain ⟨specifier, _, rfl⟩ := List.mem_map.1 here
        rfl
    · exact ih later

namespace Catalog

variable {c : Catalog}

theorem mem_allDependencies {k : String} {l : List DependencyEdge}
    (found : c.dependencies.get? k = some l) (mem : e ∈ l) : e ∈ c.allDependencies :=
  List.mem_flatten.2 ⟨l, List.mem_map.2 ⟨(k, l), mem_of_lookup found, rfl⟩, mem⟩

theorem exists_of_mem_allDependencies (mem : e ∈ c.allDependencies) :
    ∃ k l, c.dependencies.get? k = some l ∧ e ∈ l := by
  obtain ⟨l, values, mem⟩ := List.mem_flatten.1 mem
  obtain ⟨entry, listed, rfl⟩ := List.mem_map.1 values
  exact ⟨_, _, TextMap.get?_of_mem_entries listed, mem⟩

/-- Resolving an import again gives what it was resolved to. -/
theorem MadeWith.resolved (made : c.MadeWith resolver) (stored : e ∈ c.allDependencies) :
    e.resolved = resolver.resolve? e.specifier e.source := by
  obtain ⟨t, root, batchSize, files, now, rfl⟩ := made
  obtain ⟨k, l, found, mem⟩ := exists_of_mem_allDependencies stored
  have held := (Survey.covers_ofFiles t resolver root batchSize files k).2.2.2
  obtain ⟨x, extraction, rfl⟩ := Option.map_eq_some_iff.1 (held.symm.trans found)
  obtain ⟨p, outcome, taken⟩ := Option.bind_eq_some_iff.1 extraction
  rw [Survey.outcome?] at outcome
  split at outcome
  · rw [processFile] at outcome
    split at outcome
    · cases outcome
    · split at outcome
      · obtain ⟨text, _, rfl⟩ := Option.map_eq_some_iff.1 outcome
        obtain rfl := Option.some.inj taken
        exact Source.resolved_of_mem_extractLines mem
      · obtain rfl := Option.some.inj outcome
        cases taken
  · cases outcome

end Catalog

/-! ### Paths that end alike -/

/-- The names on a path that say where a file is, its extension apart. -/
def namesOn (p : List Char) : List (List Char) :=
  (Text.split '/' (withoutExtension p)).filter (!isVague ·)

/-- There are names on the first path, and they are the last segments of the second one. -/
def Trails (p target : List Char) : Prop :=
  namesOn p ≠ [] ∧ namesOn p <:+ Text.split '/' (withoutExtension target)

theorem trails_of_endsPath {target candidate : List Char} (h : endsPath target candidate) :
    Trails candidate target := by
  rw [endsPath, Bool.and_eq_true, Bool.and_eq_true, List.isSuffixOf_iff_suffix] at h
  exact ⟨by simpa [namesOn] using h.1.2, h.2⟩

theorem endsPath_of_trails {target candidate : List Char} (absolute : Path.isAbsolute candidate)
    (h : Trails candidate target) : endsPath target candidate := by
  rw [endsPath, Bool.and_eq_true, Bool.and_eq_true, List.isSuffixOf_iff_suffix]
  rw [Path.isAbsolute] at absolute
  refine ⟨⟨by simp [absolute], ?_⟩, h.2⟩
  simpa [namesOn] using h.1

namespace Atlas

variable {a : Atlas} {r t : String}

/-- A path that is given in full is looked for in its normal form. -/
theorem absolute_eq (absolute : Path.isAbsolute t.toList) : a.absolute t = Path.normalized t := by
  rw [Atlas.absolute, Path.join, if_pos absolute, Path.normalized]

/-- To resolve an import again is no third way of leading to a file. -/
theorem leadsTo_iff (made : a.catalog.MadeWith a.resolver) (stored : e ∈ a.catalog.allDependencies)
    (resolved : e.resolved = some r) (target : String) :
    a.leadsTo target e ↔ r = target ∨ endsPath target.toList r.toList := by
  rw [leadsTo, ← made.resolved stored, DependencyEdge.target, resolved]
  simp

end Atlas

/-- An import that was resolved to `r` is reported for a path only if the two are equal without their
extensions, or the names on `r` are the last ones on that path. If `r` is a full path and imports are
asked for, it is reported for that path, and for every path of which its names are the last ones. -/
theorem reported_for_path {w : Workspace} {a : Atlas} (analyzed : w.atlas = .ok a)
    (made : w.catalog.MadeWith w.resolver) {r t : String}
    (stored : e ∈ w.catalog.allDependencies) (importing : e.kind = .importing)
    (resolved : e.resolved = some r) (absolute : Path.isAbsolute t.toList) {q : UsageQuery}
    (asked : q.filePath = some t) :
    ∃ records, a.usages q = .ok records ∧
      ((∃ u ∈ records, u.kind = .importing ∧ u.key = e.usageKey) →
        withoutExtension r.toList = withoutExtension (Path.normalize t.toList) ∨
          Trails r.toList (Path.normalize t.toList)) ∧
      (Path.isAbsolute r.toList → q.scope ≠ .usages →
        r.toList = Path.normalize t.toList ∨ Trails r.toList (Path.normalize t.toList) →
        ∃ u ∈ records, u.kind = .importing ∧ u.key = e.usageKey) := by
  obtain ⟨root, rfl⟩ : ∃ root, a = ⟨w.catalog, w.resolver, root⟩ := by
    rw [Workspace.atlas] at analyzed
    split at analyzed
    · exact ⟨_, (Except.ok.inj analyzed).symm⟩
    · cases analyzed
  have target : (Path.normalized t).toList = Path.normalize t.toList := String.toList_ofList
  refine ⟨_, Atlas.usages_eq (.inl (by rw [asked]; rfl)), fun reported => ?_, fun full scope same => ?_⟩
  · obtain ⟨u, mem, kind, key⟩ := reported
    have found := (List.mergeSort_perm _ _).mem_iff.1 mem
    obtain ⟨d, other, alike, _, path, given, _, leads⟩ :=
      Atlas.listed_as_import_iff.1 ⟨u, found, kind, key⟩
    -- the edge that was found has the same text in the same file, so it leads to the same path
    obtain ⟨source, rest⟩ := Prod.mk.inj alike
    have again : d.resolved = some r := by
      rw [made.resolved other, source, (Prod.mk.inj rest).2, ← made.resolved stored, resolved]
    obtain rfl : t = path := Option.some.inj (asked.symm.trans given)
    rw [Atlas.absolute_eq absolute, Atlas.leadsTo_iff made other again, target] at leads
    rcases leads with rfl | ends
    · exact .inl (by rw [target])
    · exact .inr (trails_of_endsPath ends)
  · have leads : (⟨w.catalog, w.resolver, root⟩ : Atlas).leadsTo (Path.normalized t) e := by
      rw [Atlas.leadsTo_iff made stored resolved, target]
      exact same.imp (fun eq => String.toList_inj.1 (eq.trans target.symm)) (endsPath_of_trails full)
    rw [← Atlas.absolute_eq absolute] at leads
    obtain ⟨u, found, kind, key⟩ := Atlas.listed_as_import_iff.2
      ⟨e, stored, rfl, scope, t, asked, importing, leads⟩
    exact ⟨u, (List.mergeSort_perm _ _).mem_iff.2 found, kind, key⟩

/-! ### A project whose names repeat -/

/-- A project of one file, which imports the file beside it. -/
def importProject : FileTree :=
  ⟨[([['p']], .directory),
    ([['p'], "a.ts".toList], .file (String.ofList ("import \"./b.ts\"".toList)).toUTF8 1)], []⟩

/-- The edge from the one file to the other. -/
def importEdge : DependencyEdge :=
  ⟨"/p/a.ts", "./b.ts", some "/p/b.ts", .importing, "/p/a.ts", 1⟩

theorem paths_importProject : Workspace.sampleSubject.paths importProject = ["/p/a.ts".toList] := by
  have home : importProject.place? Workspace.sampleSubject.root.toList = some [['p']] := by rfl
  have here : importProject.node? [['p']] = some .directory := rfl
  have names : importProject.names [['p']] = ["a.ts".toList] := by
    rw [FileTree.names]
    exact List.mergeSort_of_pairwise (by decide)
  rw [Subject.paths, Discovery.files, home]
  show Discovery.Terrain.filesFrom _ 16 _ _ = _
  rw [Discovery.Terrain.filesFrom]
  simp only [here, names]
  decide +kernel

/-- A workspace that keeps no catalogs analyzes the project and holds the edge. -/
theorem analyze_importProject : ∃ analysis,
    (Workspace.create { cache := { enabled := false } } "/c").analyze importProject 0
        (Workspace.sampleOptions false) = .ok analysis ∧
      analysis.workspace.atlas = .ok ⟨analysis.workspace.catalog, analysis.workspace.resolver, "/p"⟩ ∧
      analysis.workspace.catalog.MadeWith analysis.workspace.resolver ∧
      importEdge ∈ analysis.workspace.catalog.allDependencies := by
  have directory : importProject.isDirectory "/p".toList = true := by decide +kernel
  have subject := (Workspace.create { cache := { enabled := false } } "/c").subject_sampleOptions
    false directory
  have ok := (Workspace.create { cache := { enabled := false } } "/c").analyze_eq importProject 0
    (Workspace.sampleOptions false)
  rw [subject, Except.map] at ok
  have consulted : (Workspace.create { cache := { enabled := false } } "/c").consult importProject 0
      Workspace.sampleSubject.key false =
        (none, (Workspace.create { cache := { enabled := false } } "/c").cache, importProject) := by
    rw [Workspace.consult_unforced]
    rfl
  rw [show (Workspace.sampleOptions false).force = false from rfl,
    Workspace.analyzeRoot_built consulted] at ok
  have exact := Survey.exact_ofFiles (t := importProject) (by decide)
    (Resolver.load importProject "/p".toList) "/p".toList Workspace.sampleSubject.filter
    ({} : Config).indexing.batchSize
  have text : importProject.readText? "/p/a.ts".toList = some "import \"./b.ts\"" := by
    decide +kernel
  have mem : "/p/a.ts".toList ∈ Workspace.sampleSubject.paths importProject := by
    rw [paths_importProject]
    decide
  obtain ⟨_, _, _, _, held⟩ := exact.1 "/p/a.ts" mem
  have rules : Resolver.load importProject "/p".toList = { root := "/p".toList } := by decide +kernel
  have edges : (Source.extract (Resolver.load importProject "/p".toList) "import \"./b.ts\""
      "/p/a.ts").dependencies = [importEdge] := by
    rw [rules]
    decide +kernel
  have stored := (held (by decide +kernel) _ text).2.2.2.trans (congrArg some edges)
  exact ⟨_, ok, rfl, Workspace.madeWith_analyze ok rfl,
    Catalog.mem_allDependencies stored (List.mem_singleton_self _)⟩

/-- The imports of a file. -/
def importsQuery (path : String) : UsageQuery := { filePath := some path, scope := .imports }

/-- The import is reported for another file than the one it was resolved to: the names on `/p/b.ts`
are the last ones on `/p/p/b.ts`. -/
theorem reported_for_other_file : ∃ analysis a records,
    (Workspace.create { cache := { enabled := false } } "/c").analyze importProject 0
        (Workspace.sampleOptions false) = .ok analysis ∧
      analysis.workspace.atlas = .ok a ∧
      analysis.workspace.catalog.MadeWith analysis.workspace.resolver ∧
      importEdge ∈ analysis.workspace.catalog.allDependencies ∧
      importEdge.kind = .importing ∧ importEdge.resolved = some "/p/b.ts" ∧
      Path.isAbsolute "/p/p/b.ts".toList ∧ a.usages (importsQuery "/p/p/b.ts") = .ok records ∧
      (∃ u ∈ records, u.kind = .importing ∧ u.key = importEdge.usageKey) ∧
      withoutExtension "/p/b.ts".toList ≠ withoutExtension "/p/p/b.ts".toList := by
  obtain ⟨analysis, ok, atlas, made, stored⟩ := analyze_importProject
  have absolute : Path.isAbsolute "/p/p/b.ts".toList := by decide
  have normal : Path.normalized "/p/p/b.ts" = "/p/p/b.ts" := by decide +kernel
  have ends : endsPath "/p/p/b.ts".toList "/p/b.ts".toList = true := by decide +kernel
  have leads : Atlas.leadsTo ⟨analysis.workspace.catalog, analysis.workspace.resolver, "/p"⟩
      "/p/p/b.ts" importEdge := (Atlas.leadsTo_iff made stored rfl _).2 (.inr ends)
  rw [← normal, ← Atlas.absolute_eq absolute] at leads
  obtain ⟨u, found, kind, key⟩ := (Atlas.listed_as_import_iff (q := importsQuery "/p/p/b.ts")).2
    ⟨importEdge, stored, rfl, by decide, "/p/p/b.ts", rfl, rfl, leads⟩
  exact ⟨analysis, _, _, ok, atlas, made, stored, rfl, rfl, absolute,
    Atlas.usages_eq (q := importsQuery "/p/p/b.ts") (.inl rfl),
    ⟨u, (List.mergeSort_perm _ _).mem_iff.2 found, kind, key⟩, by decide +kernel⟩

theorem reported_for_path_sample : ∃ analysis a,
    (Workspace.create { cache := { enabled := false } } "/c").analyze importProject 0
        (Workspace.sampleOptions false) = .ok analysis ∧
      analysis.workspace.atlas = .ok a ∧
      (∃ records, a.usages (importsQuery "/p/b.ts") = .ok records ∧
        ∃ u ∈ records, u.kind = .importing ∧ u.key = importEdge.usageKey) ∧
      ∃ records, a.usages (importsQuery "/b.ts") = .ok records ∧
        ¬∃ u ∈ records, u.kind = .importing ∧ u.key = importEdge.usageKey := by
  obtain ⟨analysis, ok, atlas, made, stored⟩ := analyze_importProject
  refine ⟨analysis, _, ok, atlas, ?_, ?_⟩
  · obtain ⟨records, answer, _, reported⟩ := reported_for_path atlas made (r := "/p/b.ts") stored rfl
      rfl (t := "/p/b.ts") (by decide) (q := importsQuery "/p/b.ts") rfl
    exact ⟨records, answer, reported (by decide) (by decide) (.inl (by decide +kernel))⟩
  · obtain ⟨records, answer, only, _⟩ := reported_for_path atlas made (r := "/p/b.ts") stored rfl
      rfl (t := "/b.ts") (by decide) (q := importsQuery "/b.ts") rfl
    have other : ¬(withoutExtension "/p/b.ts".toList = withoutExtension (Path.normalize "/b.ts".toList) ∨
        Trails "/p/b.ts".toList (Path.normalize "/b.ts".toList)) := by
      simp only [Trails]
      decide +kernel
    exact ⟨records, answer, fun found => other (only found)⟩

end SourceAtlas
