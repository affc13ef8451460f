import SourceAtlas.Proofs.Path.Relative
import SourceAtlas.Proofs.Query.Attribution
import SourceAtlas.Proofs.Site.Invariant
import SourceAtlas.Query.Listing
/-!
Files are found under every spelling of their paths. A catalog has its files under the paths of a walk,
which goes down by plain names from a root in normal form; a query looks under the normal form of what
its text leads to from the root. So the keys are their own normal forms, and the text by which a file
is seen from the root leads back to its key, unless a backslash was replaced in it.
-/

namespace SourceAtlas

/-! ### Where records stand -/

/-- What a survey records under a path is the record of a discovered file. -/
theorem Catalog.Surveyed.exists_names {c : Catalog} {root : String} (h : c.Surveyed root) {k : String}
    {f : FileRecord} (found : c.file? k = some f) :
    f.path = k ∧ f.relativePath = Path.relative root k ∧
      ∃ names, (∀ name ∈ names, Path.isPlainName name) ∧ k.toList = Path.descend root.toList names := by
  obtain ⟨t, resolver, filter, batchSize, now, wf, _, _, _, rfl⟩ := h.made
  have held := (Survey.covers_ofFiles t resolver root.toList batchSize
    (Discovery.files t root.toList filter) k).1
  obtain ⟨p, outcome, rfl⟩ := Option.map_eq_some_iff.1 (held.symm.trans found)
  rw [Survey.outcome?] at outcome
  split at outcome
  · rename_i mem
    have record := record?_of_processFile outcome
    refine ⟨?_, ?_, Discovery.exists_names_of_mem_files wf mem⟩
    · rw [Discovery.path_of_record? record, String.ofList_toList]
    · rw [Discovery.relativePath_of_record? record, String.ofList_toList, String.ofList_toList]
  · cases outcome

/-! ### Spellings -/

/-- A text spells a path in a project: it is absolute and has the path as its normal form, or it is
relative and leads there from the root. -/
def Path.Spells (root path text : List Char) : Prop :=
  isAbsolute text ∧ normalize text = path ∨ isAbsolute text = false ∧ normalize (join root text) = path

theorem Atlas.absolute_of_spells {a : Atlas} {k text : String}
    (h : Path.Spells a.root.toList k.toList text.toList) : a.absolute text = k := by
  rcases h with ⟨absolute, normal⟩ | ⟨_, normal⟩
  · rw [Atlas.absolute_eq absolute, Path.normalized, normal, String.ofList_toList]
  · rw [Atlas.absolute, normal, String.ofList_toList]

/-- The path of a record spells itself, and so does the path as seen from the root if it has no
backslash. -/
theorem Catalog.Surveyed.spells {c : Catalog} {root : String} (h : c.Surveyed root) {k : String}
    {f : FileRecord} (found : c.file? k = some f) :
    Path.Spells root.toList k.toList k.toList ∧
      ('\\' ∉ (Path.relativeTo? root.toList k.toList).getD k.toList →
        Path.Spells root.toList k.toList f.relativePath.toList) := by
  obtain ⟨_, relative, names, plain, path⟩ := h.exists_names found
  have filled : root.toList ≠ [] := fun empty => by simpa [empty, Path.isAbsolute] using h.absolute
  have seen := Path.relativeTo?_descend filled plain
  rw [← path] at seen
  have shown : '\\' ∉ (Path.relativeTo? root.toList k.toList).getD k.toList →
      f.relativePath.toList = Text.join '/' names := by
    intro clean
    rw [seen, Option.getD_some] at clean
    rw [relative, Path.relative, String.toList_ofList, seen, Option.getD_some,
      Text.replaceChar_of_not_mem clean]
  refine ⟨.inl ⟨?_, ?_⟩, fun clean => .inr ?_⟩
  · rw [path, Path.isAbsolute_descend plain]
    exact h.absolute
  · rw [path, Path.normalize_descend h.absolute h.normal plain]
  · rw [shown clean, path, Path.normalize_join_names h.absolute h.normal plain]
    exact ⟨Path.isAbsolute_ofSteps false fun x mem => Path.isStep_of_isPlainName (plain x mem), rfl⟩

/-! ### Answers -/

/-- Under a text the atlas answers for a file: the outline is the record with what the catalog holds
under the path of the file, and that is all it holds that comes from the file; the usages of the file
are those that are found under its path. -/
structure Atlas.AnswersFor (a : Atlas) (f : FileRecord) (text : String) : Prop where
  outline : a.outline? text = some ⟨f, a.catalog.symbolsIn f.path, a.catalog.routesIn f.path,
    a.catalog.dependenciesIn f.path⟩
  symbols : a.catalog.symbolsIn f.path = a.catalog.allSymbols.filter (·.filePath == f.path)
  routes : a.catalog.routesIn f.path = a.catalog.allRoutes.filter (·.filePath == f.path)
  dependencies : a.catalog.dependenciesIn f.path =
    a.catalog.allDependencies.filter (·.filePath == f.path)
  usages (q : UsageQuery) :
    a.usages { q with filePath := some text } = a.usages { q with filePath := some f.path }

/-- Texts that mean the same path have the same usages. -/
theorem Atlas.usages_congr {a : Atlas} {text other : String} (same : a.absolute text = a.absolute other)
    (q : UsageQuery) :
    a.usages { q with filePath := some text } = a.usages { q with filePath := some other } := by
  have imports : a.importsOf text = a.importsOf other := by rw [importsOf, importsOf, same]
  simp only [usages, wantedImports, wantedMentions, Option.toList_some, List.flatMap_singleton, imports]
  rfl

/-- The atlas of a survey answers for a file under all its spellings. -/
theorem Catalog.Surveyed.answersFor {a : Atlas} (h : a.catalog.Surveyed a.root) {f : FileRecord}
    {k text : String} (found : a.catalog.file? k = some f)
    (spells : Path.Spells a.root.toList k.toList text.toList) : a.AnswersFor f text := by
  obtain ⟨rfl, _⟩ := h.exists_names found
  obtain ⟨sound, _⟩ := h.sound
  have here := Atlas.absolute_of_spells spells
  have itself := Atlas.absolute_of_spells (h.spells found).1
  refine ⟨?_, ?_, ?_, ?_, Atlas.usages_congr (here.trans itself.symm)⟩
  · simp only [Atlas.outline?, here, found, Option.map_some]
  · exact (TextMap.filter_flatten_values sound.symbols f.path).symm
  · exact (TextMap.filter_flatten_values sound.routes f.path).symm
  · refine (TextMap.filter_flatten_values (fun k l there e he => ?_) f.path).symm
    exact (sound.dependencies k l there e he).2.1

/-! ### Runs -/

/-- The atlas of a surveyed workspace is one of a survey. -/
theorem Workspace.Surveyed.atlas {w : Workspace} (h : w.Surveyed) {a : Atlas} (ok : w.atlas = .ok a) :
    a.catalog.Surveyed a.root := by
  rw [Workspace.atlas] at ok
  rw [Workspace.Surveyed] at h
  cases root : w.root with
  | none =>
    rw [root] at ok
    cases ok
  | some root =>
    simp only [root] at ok h
    obtain rfl := Except.ok.inj ok
    exact h

/-- Whatever happened on a site whose cache directory was unused at first, each workspace with an
analyzed project answers for every file it has recorded under all spellings of the file's path. Among
these are the path itself and, if it has no backslash, the path by which the record shows the file
from the root. It is assumed that different subjects of the run have different digests. -/
theorem Site.found_under_every_spelling {dir : String} {t : FileTree} {events : List SiteEvent}
    (wf : t.WellFormed) (unused : ∀ name, Cache.isReserved name → t.held? dir.toList name = none)
    (allowed : Site.Allowed dir ⟨t, []⟩ events)
    (apart : ∀ r ∈ Site.subjects dir ⟨t, []⟩ events, ∀ s ∈ Site.subjects dir ⟨t, []⟩ events,
      r.digest = s.digest → r = s)
    {w : Workspace} (here : w ∈ (Site.run dir ⟨t, []⟩ events).workspaces) {a : Atlas}
    (ok : w.atlas = .ok a) {k : String} {f : FileRecord} (found : a.catalog.file? k = some f) :
    f.path = k ∧
      (∀ text : String, Path.Spells a.root.toList k.toList text.toList → a.AnswersFor f text) ∧
      Path.Spells a.root.toList k.toList k.toList ∧
      ('\\' ∉ (Path.relativeTo? a.root.toList k.toList).getD k.toList →
        Path.Spells a.root.toList k.toList f.relativePath.toList) := by
  have surveyed := (Site.surveyed_run wf unused allowed apart w here).atlas ok
  exact ⟨(surveyed.exists_names found).1, fun text => surveyed.answersFor found,
    surveyed.spells found⟩

/-! ### A run on a project of one file -/

/-- A workspace without a cache analyzes the project. -/
def importEvents : List SiteEvent :=
  [.create { cache := { enabled := false } }, .analyze 0 0 (Workspace.sampleOptions false)]

theorem importProject_unused (name : List Char) : importProject.held? "/c".toList name = none := by
  have made : importProject.makeDirectories "/c".toList =
      some ⟨([['c']], .directory) :: importProject.nodes, []⟩ := by rfl
  have place : FileTree.place? ⟨([['c']], .directory) :: importProject.nodes, []⟩ "/c".toList =
      some [['c']] := by rfl
  rw [FileTree.held?, made, Option.bind_some,
    FileTree.standing?_of_seat? (FileTree.seat?_of_place? place rfl)]
  simp [FileTree.node?, importProject, lookup_cons_ite]

/-- An edge is stored only for a file that is recorded. -/
theorem Catalog.Sound.file?_isSome {c : Catalog} {root : String} (sound : c.Sound root)
    {e : DependencyEdge} (stored : e ∈ c.allDependencies) : (c.file? e.filePath).isSome := by
  obtain ⟨k, l, listed, mem⟩ := Catalog.exists_of_mem_allDependencies stored
  have key : k ∈ c.dependencies.keys :=
    (TextMap.mem_keys_iff _ _).2 (Option.isSome_of_eq_some listed)
  rw [(sound.dependencies k l listed e mem).2.1]
  exact (TextMap.mem_keys_iff _ _).1 (sound.fileKeys k ((sound.dependencyKeys k).1 key))

/-- After these events there is one workspace, which has the edge of the project; they can happen, and
they are about one subject. -/
theorem Site.run_importEvents : ∃ w catalog resolver,
    (Site.run "/c" ⟨importProject, []⟩ importEvents).workspaces = [w] ∧
      w.atlas = .ok ⟨catalog, resolver, "/p"⟩ ∧ importEdge ∈ catalog.allDependencies ∧
      Site.Allowed "/c" ⟨importProject, []⟩ importEvents ∧
      Site.subjects "/c" ⟨importProject, []⟩ importEvents = [Workspace.sampleSubject] := by
  obtain ⟨analysis, ok, atlas, _, stored⟩ := analyze_importProject
  have directory : importProject.isDirectory "/p".toList = true := by decide +kernel
  have subject := (Workspace.create { cache := { enabled := false } } "/c").subject_sampleOptions
    false directory
  have created : Site.step "/c" ⟨importProject, []⟩ (.create { cache := { enabled := false } }) =
      ⟨importProject, [.create { cache := { enabled := false } } "/c"]⟩ := rfl
  have built : Site.step "/c" ⟨importProject, [.create { cache := { enabled := false } } "/c"]⟩
      (.analyze 0 0 (Workspace.sampleOptions false)) = ⟨analysis.tree, [analysis.workspace]⟩ :=
    Site.step_analyze "/c" rfl ok
  refine ⟨analysis.workspace, _, _, ?_, atlas, stored, ?_, ?_⟩
  · simp only [Site.run, importEvents, List.foldl]
    rw [created, built]
  · have measured : importProject.Measured := by decide +kernel
    simp only [importEvents, Site.Allowed]
    rw [created]
    exact ⟨⟨rfl, by decide⟩, ⟨by decide, measured⟩, trivial⟩
  · simp only [importEvents, Site.subjects]
    rw [created, SiteEvent.subject?_analyze rfl subject]
    rfl

/-- The file of the project is found under its path and under two others, one of them relative, and
under its path as seen from the root. -/
theorem Site.found_under_spellings_importProject : ∃ w a f,
    (Site.run "/c" ⟨importProject, []⟩ importEvents).workspaces = [w] ∧ w.atlas = .ok a ∧
      a.catalog.file? "/p/a.ts" = some f ∧ a.AnswersFor f "/p/a.ts" ∧
      a.AnswersFor f "/p//b/../a.ts" ∧ a.AnswersFor f "x/.././a.ts" ∧
      a.AnswersFor f f.relativePath := by
  obtain ⟨w, catalog, resolver, only, atlas, stored, allowed, about⟩ := Site.run_importEvents
  have wf : importProject.WellFormed := by decide
  have unused : ∀ name, Cache.isReserved name → importProject.held? "/c".toList name = none :=
    fun name _ => importProject_unused name
  have apart : ∀ r ∈ Site.subjects "/c" ⟨importProject, []⟩ importEvents,
      ∀ s ∈ Site.subjects "/c" ⟨importProject, []⟩ importEvents, r.digest = s.digest → r = s := by
    simp [about]
  have here : w ∈ (Site.run "/c" ⟨importProject, []⟩ importEvents).workspaces := by simp [only]
  have surveyed := (Site.surveyed_run wf unused allowed apart w here).atlas atlas
  obtain ⟨f, found⟩ := Option.isSome_iff_exists.1 (surveyed.sound.1.file?_isSome stored)
  obtain ⟨_, answers, itself, relative⟩ :=
    Site.found_under_every_spelling wf unused allowed apart here atlas found
  have folded : Path.Spells "/p".toList "/p/a.ts".toList "x/.././a.ts".toList := .inr (by decide)
  have clean : '\\' ∉ (Path.relativeTo? "/p".toList "/p/a.ts".toList).getD "/p/a.ts".toList := by
    decide
  exact ⟨w, _, f, only, atlas, found, answers _ itself, answers _ (.inl (by decide)),
    answers _ folded, answers _ (relative clean)⟩

end SourceAtlas
