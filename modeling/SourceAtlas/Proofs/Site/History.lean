import SourceAtlas.Proofs.Discovery.View
import SourceAtlas.Proofs.Site.Restore
/-!
A forced analysis does not depend on what came before it. Two workspaces with the same settings, each
with a past of its own in memory and in its cache directory, give the same result for the same
project: the entry of the subject is gone from memory and file before anything is read, and what is
read of the tree is what the two have in common. Afterwards each cache holds the new catalog, or has
nothing under the key if it is not in use.
-/

namespace SourceAtlas

/-! ### What two analyses have in common -/

/-- A catalog apart from the time of its making. -/
def Catalog.undated (c : Catalog) : Catalog := { c with lastIndexed := 0 }

/-- Two analyses with the same outcome. The time of the catalogs may differ, and what their caches
hold under other keys. -/
structure Analysis.Agrees (a b : Analysis) : Prop where
  summary : b.summary = a.summary
  progress : b.progress = a.progress
  catalog : b.workspace.catalog.undated = a.workspace.catalog.undated
  resolver : b.workspace.resolver = a.workspace.resolver
  root : b.workspace.root = a.workspace.root

/-- A tree that loses a file outside of a root is the same below the root. -/
theorem FileTree.Becomes.sameBelow {t u : FileTree} {p : Place} (h : t.Becomes u p none)
    {root : List Char} (outside : ∀ home, t.place? root = some home → ¬ home <+: p) :
    t.SameBelow u root := by
  have node : ∀ home, t.place? root = some home → ∀ q, home <+: q → u.node? q = t.node? q := by
    rintro home base q inside
    refine h.node?_other ?_
    rintro rfl
    exact outside home base inside
  have way : ∀ home, t.place? root = some home → ∀ path q, home <+: q →
      (u.place? path = some q ↔ t.place? path = some q) := by
    intro home base path q inside
    refine ⟨h.partOf.place?, fun found => h.keeps.place? found fun n there => ?_⟩
    rw [node home base q inside, there]
  refine ⟨?_, node, fun home base names _ q inside => way home base _ q inside⟩
  cases base : t.place? root with
  | none =>
    cases found : u.place? root with
    | none => rfl
    | some home =>
      rw [h.partOf.place? found] at base
      cases base
  | some home => exact (way home base root home (List.prefix_refl home)).2 base

namespace Workspace

variable {v w : Workspace} {t u : FileTree} {s : Subject} {now now' : Int} {o : AnalyzeOptions}

/-- What the analysis of a subject asks of the tree and the cache. The files can be read and the entry
be stored: nothing but files stands under the names that are used for it, and its directory can be
made. And the entry's file does not lie in the root. -/
structure Ready (w : Workspace) (t : FileTree) (s : Subject) : Prop where
  wellFormed : t.WellFormed
  measured : t.Measured
  ttl : isUnsigned64 w.config.cache.ttl
  clean : w.cache.Clean t s.key
  writable : w.config.cache.enabled → (t.makeDirectories w.cache.directory).isSome
  outside : ∀ home p, t.place? s.root.toList = some home →
    t.entry? (w.cache.pathOf s.key) = some p → ¬ home <+: p

/-- Dropping the entry's file changes nothing below the root. -/
theorem Ready.sameBelow (ready : w.Ready t s) :
    t.SameBelow (w.cache.dropFile t s.key) s.root.toList := by
  cases seat : t.seat? w.cache.directory with
  | none =>
    rw [Cache.dropFile_of_no_seat s.key_ne seat]
    exact .refl t _
  | some p =>
    refine (Cache.dropFile_of_seat? ready.wellFormed ready.clean s.key_ne seat).sameBelow
      fun home base => ready.outside home _ base ?_
    rw [Cache.pathOf, FileTree.entry?_join (Cache.isPlainName_fileName s.key_ne), seat,
      Option.map_some]

/-- Builds in trees that are the same below the root, with the same rules of imports, agree. -/
theorem build_agrees {c d : Cache} {loaded loaded' : FileTree} (config : w.config = v.config)
    (wf : t.WellFormed) (below : t.SameBelow u s.root.toList)
    (rules : Resolver.load loaded' s.root.toList = Resolver.load loaded s.root.toList) :
    ((v.onto c loaded s).build t now s.key s.root s.filter).Agrees
      ((w.onto d loaded' s).build u now' s.key s.root s.filter) := by
  have survey := Survey.ofFiles_congr wf below (Resolver.load loaded s.root.toList)
    v.config.indexing.batchSize s.filter
  constructor <;> simp only [build, onto, rules, config, survey] <;> rfl

/-! ### What the cache holds afterwards -/

/-- The cache holds the entry of the new catalog in memory and in its file; if it is not in use, it
holds nothing under the key. -/
def Filed (w : Workspace) (now : Int) (s : Subject) (a : Analysis) : Prop :=
  if w.config.cache.enabled then
    a.workspace.cache.memory.get? s.key = some (w.entryOf now a.workspace.catalog) ∧
      a.workspace.cache.stored? a.tree s.key = some (w.entryOf now a.workspace.catalog)
  else
    a.workspace.cache.memory.get? s.key = none ∧
      a.tree.standing? a.workspace.cache.directory (Cache.fileName s.key).toList = none

theorem directory_build (w : Workspace) (t : FileTree) (now : Int) (key root : String)
    (filter : FileFilter) :
    (w.build t now key root filter).workspace.cache.directory = w.cache.directory := by
  rw [build]
  simp only
  split <;> rfl

/-- Once the cache was asked, the entry can still be stored. -/
theorem Ready.consulted {force : Bool} (ready : w.Ready t s) (enabled : w.config.cache.enabled)
    {found : Option Catalog} {cache : Cache}
    (consulted : w.consult t now s.key force = (found, cache, u)) :
    cache.directory = w.cache.directory ∧ u.WellFormed ∧ cache.Clean u s.key ∧
      (u.makeDirectories cache.directory).isSome := by
  have spec := w.consult_spec t now s.key force
  rw [consulted] at spec
  obtain ⟨directory, tree⟩ := spec
  simp only at directory tree
  rw [Cache.Clean, directory]
  refine ⟨rfl, ?_⟩
  rcases tree with same | dropped
  · rw [same]
    exact ⟨ready.wellFormed, ready.clean, ready.writable enabled⟩
  · rw [dropped]
    exact ⟨Cache.wellFormed_dropFile ready.wellFormed _ _,
      ready.clean.dropFile ready.wellFormed s.key_ne,
      Cache.writable_dropFile ready.wellFormed ready.clean s.key_ne (ready.writable enabled)⟩

/-- A build after the cache was asked stores its entry, if the cache is in use. -/
theorem Ready.filed_build {force : Bool} (ready : w.Ready t s) (subject : w.subject t o = .ok s)
    (clock : isSigned64 now) (enabled : w.config.cache.enabled) {cache : Cache}
    (consulted : w.consult t now s.key force = (none, cache, u)) (loaded : FileTree) {a : Analysis}
    (result : (w.onto cache loaded s).build u now s.key s.root s.filter = a) : w.Filed now s a := by
  have room := (sound_build ready.wellFormed ready.measured clock subject consulted loaded).2
  have fits := fits_entryOf room clock ready.ttl
  obtain ⟨_, wf, clean, writable⟩ := ready.consulted enabled consulted
  obtain ⟨memory, file⟩ := stored_build (w := w.onto cache loaded s) wf clean enabled s.root s.filter
    result
  have directory := (w.onto cache loaded s).directory_build u now s.key s.root s.filter
  rw [result] at directory fits
  rw [Filed, if_pos enabled]
  refine ⟨memory, ?_⟩
  rw [Cache.stored?, directory, file writable]
  exact CacheEntry.ofBytes?_bytes fits

/-- A forced analysis builds in the tree without the entry, and loads the rules there too. -/
theorem analyzeRoot_forced (w : Workspace) (t : FileTree) (now : Int) (s : Subject) :
    w.analyzeRoot t now s.root s.included s.excluded true =
      (w.onto { w.cache with memory := w.cache.memory.erase s.key } (w.cache.dropFile t s.key) s).build
        (w.cache.dropFile t s.key) now s.key s.root s.filter := by
  have consulted : w.consult t now s.key true = (none, w.cache.delete t s.key) :=
    consult_forced s.key
  have result := analyzeRoot_built consulted
  rw [if_pos rfl] at result
  exact result

/-- So it files its catalog, or leaves nothing behind. -/
theorem Ready.filed_forced (ready : w.Ready t s) (subject : w.subject t o = .ok s)
    (clock : isSigned64 now) :
    w.Filed now s (w.analyzeRoot t now s.root s.included s.excluded true) := by
  have result := w.analyzeRoot_forced t now s
  cases enabled : w.config.cache.enabled with
  | true => exact ready.filed_build subject clock enabled (consult_forced s.key) _ result.symm
  | false =>
    have pair := build_cache
      (w.onto { w.cache with memory := w.cache.memory.erase s.key } (w.cache.dropFile t s.key) s)
      (w.cache.dropFile t s.key) now s.key s.root s.filter
    rw [← result, if_neg (by simp [onto, enabled])] at pair
    obtain ⟨cache, tree⟩ := Prod.mk.inj pair
    have gone := Cache.standing?_dropFile ready.wellFormed ready.clean s.key_ne
    rw [Filed, enabled, if_neg (by decide), cache, tree]
    refine ⟨?_, gone⟩
    simp [onto]

/-! ### Two workspaces -/

/-- Two workspaces have the same settings, and their trees the same project for some options. The
project's own files, from which its rules are loaded, may lie outside of its root; they count as they
are without the two entries. -/
structure Alike (v w : Workspace) (t u : FileTree) (o : AnalyzeOptions) : Prop where
  config : w.config = v.config
  directory : u.isDirectory o.projectPath.toList = t.isDirectory o.projectPath.toList
  below : ∀ s, v.subject t o = .ok s → t.SameBelow u s.root.toList
  rules : ∀ s, v.subject t o = .ok s →
    Resolver.SameProjectFiles (v.cache.dropFile t s.key) (w.cache.dropFile u s.key) s.root.toList

/-- The subject depends on the settings and on whether the path is that of a directory. -/
theorem subject_congr (config : w.config = v.config)
    (directory : u.isDirectory o.projectPath.toList = t.isDirectory o.projectPath.toList) :
    w.subject u o = v.subject t o := by
  simp only [subject, projectRoot, config, directory]

/-- A forced analysis does not depend on history. Whatever two workspaces with the same settings hold
in their catalogs, in memory and in their cache directories, for the same project they refuse a
forced analysis with the same fault, or both build: with the same totals and reports, the same
catalog but for its time, the same root and the same rules of imports. Afterwards the cache of each
holds the new catalog under the key, or nothing if it is not in use. -/
theorem forced_agrees (force : o.force) (alike : v.Alike w t u o)
    (ready : ∀ s, v.subject t o = .ok s → v.Ready t s)
    (ready' : ∀ s, w.subject u o = .ok s → w.Ready u s)
    (clock : isSigned64 now) (clock' : isSigned64 now') :
    (∃ fault, v.analyze t now o = .error fault ∧ w.analyze u now' o = .error fault) ∨
      ∃ s a b, v.subject t o = .ok s ∧ v.analyze t now o = .ok a ∧ w.analyze u now' o = .ok b ∧
        a.summary.fromCache = false ∧ a.Agrees b ∧ v.Filed now s a ∧ w.Filed now' s b := by
  have same : w.subject u o = v.subject t o := subject_congr alike.config alike.directory
  rw [analyze_eq, analyze_eq, same, force]
  cases subject : v.subject t o with
  | error fault => exact .inl ⟨fault, rfl, rfl⟩
  | ok s =>
    have first := ready s subject
    have second := ready' s (same.trans subject)
    simp only [Except.map]
    refine .inr ⟨s, _, _, rfl, rfl, rfl, ?_, ?_, first.filed_forced subject clock,
      second.filed_forced (same.trans subject) clock'⟩
    · rw [analyzeRoot_forced]
      rfl
    · rw [analyzeRoot_forced, analyzeRoot_forced]
      -- both read trees without their entries, which are the same below the root
      have below : (v.cache.dropFile t s.key).SameBelow (w.cache.dropFile u s.key) s.root.toList :=
        (first.sameBelow.symm.trans (alike.below s subject)).trans second.sameBelow
      exact build_agrees alike.config (Cache.wellFormed_dropFile first.wellFormed _ _) below
        (Resolver.load_congr (alike.rules s subject))

/-! ### The sample project -/

/-- The sample project, with a cache directory whose file for the project is no entry. -/
def damagedProject : FileTree :=
  { sampleProject with
    nodes := sampleProject.nodes ++
      [([['c']], .directory),
        ([['c'], (Cache.fileName sampleSubject.key).toList], .file "x".toUTF8 3)] }

theorem place?_damagedProject : damagedProject.place? "/p".toList = some [['p']] := by rfl

theorem isDirectory_damagedProject : damagedProject.isDirectory "/p".toList = true := by rfl

theorem seat?_damagedProject : damagedProject.seat? "/c".toList = some [['c']] :=
  FileTree.seat?_of_place? (by rfl) (by rfl)

/-- Every node of that tree but the directories is a file. -/
theorem cases_of_mem_damagedProject {e : Place × Node} (h : e ∈ damagedProject.nodes) :
    e = ([['p']], .directory) ∨ e = ([['c']], .directory) ∨
      ∃ p name content modified, e = ([p, name], .file content modified) ∧ p ∈ [['p'], ['c']] ∧
        Path.isPlainName name ∧ (Node.file content modified).isMeasured := by
  simp only [damagedProject, sampleProject, List.cons_append, List.nil_append, List.mem_cons,
    List.not_mem_nil, or_false] at h
  rcases h with rfl | rfl | rfl | rfl | rfl
  · exact .inl rfl
  · exact .inr (.inr ⟨_, _, _, _, rfl, by simp, by decide, by decide⟩)
  · exact .inr (.inr ⟨_, _, _, _, rfl, by simp, by decide, by decide⟩)
  · exact .inr (.inl rfl)
  · exact .inr (.inr ⟨_, _, _, _, rfl, by simp, Cache.isPlainName_fileName sampleSubject.key_ne,
      by decide⟩)

theorem wellFormed_damagedProject : damagedProject.WellFormed := by
  refine ⟨fun e listed => ?_, by rfl⟩
  rcases cases_of_mem_damagedProject listed with
    rfl | rfl | ⟨p, name, content, modified, rfl, mem, plain, _⟩
  · exact ⟨by rfl, by decide⟩
  · exact ⟨by rfl, by decide⟩
  · refine ⟨?_, by simpa using plain⟩
    rcases List.mem_cons.1 mem with rfl | mem
    · rfl
    · rw [List.mem_singleton.1 mem]
      rfl

theorem tidy_damagedProject {c : Cache} (directory : c.directory = "/c".toList) :
    c.Tidy damagedProject := by
  intro name _ n held
  rw [directory, FileTree.held?_of_seat? seat?_damagedProject] at held
  rcases cases_of_mem_damagedProject (FileTree.mem_nodes_of_node? held) with
    eq | eq | ⟨_, _, content, modified, eq, _⟩
  · cases eq
  · cases eq
  · exact ⟨content, modified, (Prod.mk.inj eq).2⟩

/-- A workspace that has its cache there is ready for the project. -/
theorem ready_damagedProject {w : Workspace} (directory : w.cache.directory = "/c".toList)
    (ttl : isUnsigned64 w.config.cache.ttl) : w.Ready damagedProject sampleSubject := by
  have measured : damagedProject.Measured := by
    intro e listed
    rcases cases_of_mem_damagedProject listed with rfl | rfl | ⟨_, _, _, _, rfl, _, _, measured⟩
    · decide
    · decide
    · exact measured
  refine ⟨wellFormed_damagedProject, measured, ttl, (tidy_damagedProject directory).clean _,
    fun _ => ?_, ?_⟩
  · rw [directory, FileTree.makeDirectories_of_seat? seat?_damagedProject]
    rfl
  · intro home p base entry inside
    obtain rfl := Option.some.inj (place?_damagedProject.symm.trans base)
    rw [Cache.pathOf, FileTree.entry?_join (Cache.isPlainName_fileName sampleSubject.key_ne),
      directory, seat?_damagedProject, Option.map_some] at entry
    obtain rfl := Option.some.inj entry
    have first := List.cons_prefix_cons.1 inside
    exact absurd first.1 (by decide)

theorem partOf_damagedProject : sampleProject.PartOf damagedProject := by
  refine ⟨rfl, fun p n node => ?_⟩
  rw [FileTree.node?] at node ⊢
  split at node
  · rename_i root
    rw [if_pos root]
    exact node
  · rename_i below
    rw [if_neg below, damagedProject, List.lookup_append, node]
    rfl

/-- A part of that tree has no files from which the rules of the project would be loaded. -/
theorem sameProjectFiles_damagedProject {t u : FileTree} (part : t.PartOf damagedProject)
    (part' : u.PartOf damagedProject) : Resolver.SameProjectFiles t u "/p".toList := by
  have ups : Path.ancestors (Resolver.maxParents + 1) (Path.normalize "/p".toList) =
      ["/p".toList, "/".toList] := by decide +kernel
  have nowhere : ∀ d ∈ ["/p".toList, "/".toList],
      ∀ name ∈ [Resolver.compilerFile, Resolver.packageFile],
      damagedProject.place? (Path.join d name) = none := by
    simp only [List.mem_cons, List.not_mem_nil, or_false]
    rintro d (rfl | rfl) name (rfl | rfl) <;> rfl
  have missing : ∀ {v : FileTree}, v.PartOf damagedProject → ∀ d ∈ ["/p".toList, "/".toList],
      ∀ name ∈ [Resolver.compilerFile, Resolver.packageFile],
      v.place? (Path.join d name) = none := by
    intro v part d up name mem
    cases found : v.place? (Path.join d name) with
    | none => rfl
    | some p => exact absurd (part.place? found) (by rw [nowhere d up name mem]; simp)
  intro d up name mem
  rw [ups] at up
  simp [FileTree.isFile, FileTree.readText?, FileTree.find?, missing part d up name mem,
    missing part' d up name mem]

/-- The project stands in both trees. -/
theorem sameBelow_damagedProject : sampleProject.SameBelow damagedProject "/p".toList := by
  have home : sampleProject.place? "/p".toList = some [['p']] := by rfl
  refine FileTree.sameBelow_of_solid (place?_damagedProject.trans home.symm)
    (fun h base p inside => ?_) (fun h base p target inside link => ?_)
  · obtain rfl := Option.some.inj (home.symm.trans base)
    obtain ⟨rest, rfl⟩ := inside
    simp [FileTree.node?, damagedProject, List.lookup_append, lookup_cons_ite]
  · obtain rfl := Option.some.inj (home.symm.trans base)
    obtain ⟨rest, rfl⟩ := inside
    rw [FileTree.node?, if_neg (by simp)] at link
    have listed := mem_of_lookup link
    simp [sampleProject] at listed

/-- A workspace that has its cache directory still to be made is ready for the project. -/
theorem ready_sampleProject {w : Workspace} (directory : w.cache.directory = "/c".toList)
    (ttl : isUnsigned64 w.config.cache.ttl) : w.Ready sampleProject sampleSubject := by
  have nowhere : sampleProject.seat? "/c".toList = none := by
    rw [← FileTree.filter_place? (by decide)]
    decide +kernel
  have made : sampleProject.makeDirectories "/c".toList =
      some (sampleProject.put [['c']] .directory) := by rfl
  have seat : (sampleProject.put [['c']] .directory).seat? "/c".toList = some [['c']] :=
    FileTree.seat?_of_place? (by rfl) (by rfl)
  refine ⟨by decide, by decide, ttl, fun name _ n held => ?_, fun _ => ?_, fun home p _ entry => ?_⟩
  · rw [directory, FileTree.held?, made, Option.bind_some, FileTree.standing?_of_seat? seat] at held
    have listed := FileTree.mem_nodes_of_node? held
    simp [FileTree.put, sampleProject] at listed
  · rw [directory, made]
    rfl
  · rw [Cache.pathOf, FileTree.entry?_join (Cache.isPlainName_fileName sampleSubject.key_ne),
      directory, nowhere] at entry
    cases entry

/-- A workspace that has analyzed another project, with an entry in memory that holds no catalog. -/
def staleWorkspace : Workspace :=
  { create {} "/c" with
    root := some "/q"
    cache := ⟨"/c".toList, TextMap.empty.insert sampleSubject.key ⟨.null, 0, none⟩⟩ }

/-- A new workspace without a cache directory and the stale one beside a damaged file agree. -/
theorem forced_damagedProject : ∃ a b,
    (create {} "/c").analyze sampleProject 0 (sampleOptions true) = .ok a ∧
      staleWorkspace.analyze damagedProject 1 (sampleOptions true) = .ok b ∧
      a.summary.fromCache = false ∧ a.Agrees b ∧
      (create {} "/c").Filed 0 sampleSubject a ∧ staleWorkspace.Filed 1 sampleSubject b := by
  have known := (create {} "/c").subject_sampleOptions true isDirectory_sampleProject
  have known' := staleWorkspace.subject_sampleOptions true isDirectory_damagedProject
  have clock : isSigned64 0 ∧ isSigned64 1 := by decide
  have alike : (create {} "/c").Alike staleWorkspace sampleProject damagedProject
      (sampleOptions true) := by
    refine ⟨rfl, isDirectory_damagedProject.trans isDirectory_sampleProject.symm,
      fun s subject => ?_, fun s subject => ?_⟩
    · obtain rfl := Except.ok.inj (known.symm.trans subject)
      exact sameBelow_damagedProject
    · obtain rfl := Except.ok.inj (known.symm.trans subject)
      exact sameProjectFiles_damagedProject
        ((Cache.partOf_dropFile _ _ _).trans partOf_damagedProject) (Cache.partOf_dropFile _ _ _)
  have ready : ∀ s, (create {} "/c").subject sampleProject (sampleOptions true) = .ok s →
      (create {} "/c").Ready sampleProject s := by
    intro s subject
    obtain rfl := Except.ok.inj (known.symm.trans subject)
    exact ready_sampleProject rfl (by decide)
  have ready' : ∀ s, staleWorkspace.subject damagedProject (sampleOptions true) = .ok s →
      staleWorkspace.Ready damagedProject s := by
    intro s subject
    obtain rfl := Except.ok.inj (known'.symm.trans subject)
    exact ready_damagedProject rfl (by decide)
  rcases forced_agrees rfl alike ready ready' clock.1 clock.2 with
    ⟨fault, refused, _⟩ | ⟨s, a, b, subject, first, second, built, agrees, filed, filed'⟩
  · rw [analyze_eq, known] at refused
    cases refused
  · obtain rfl := Except.ok.inj (known.symm.trans subject)
    exact ⟨a, b, first, second, built, agrees, filed, filed'⟩

end Workspace

end SourceAtlas
