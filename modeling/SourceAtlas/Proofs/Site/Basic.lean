import SourceAtlas.Proofs.Analysis.Key
import SourceAtlas.Proofs.Cache.Frame
import SourceAtlas.Proofs.Catalog.Sound
/-!
A site: a file tree with the workspaces that share one cache directory in it. Workspaces are
created, analyze projects and are reset, in any order, and between their steps the tree is edited
from outside. Queries do not change a site, so they are no steps of it.
-/

namespace SourceAtlas

/-! ### Analyses and the cache -/

namespace Workspace

variable {w : Workspace} {t : FileTree} {now : Int} {s : Subject} {force : Bool}

/-- Asking the cache is work on the subject's key. -/
theorem works_consult (wf : t.WellFormed) (tidy : w.cache.Tidy t) :
    Cache.Works s.key w.cache t (w.consult t now s.key force).2.1
      (w.consult t now s.key force).2.2 := by
  cases force with
  | true => exact Cache.works_delete wf tidy s.key_ne
  | false =>
    rw [consult_unforced]
    unfold restore
    split
    · exact (Cache.finds_get wf tidy s.key_ne now).works
    · exact Cache.works_refl wf tidy

/-- The cache and the tree after a build. -/
theorem build_cache (w : Workspace) (t : FileTree) (now : Int) (key root : String)
    (filter : FileFilter) :
    (((w.build t now key root filter).workspace.cache, (w.build t now key root filter).tree) :
        Cache × FileTree) =
      if w.config.cache.enabled then
        w.cache.set t now key (w.build t now key root filter).workspace.catalog.toSnapshot.toJson
          (some w.config.cache.ttl)
      else (w.cache, t) := by
  rfl

/-- So is storing a new catalog. -/
theorem works_build (wf : t.WellFormed) (tidy : w.cache.Tidy t) (root : String)
    (filter : FileFilter) :
    Cache.Works s.key w.cache t (w.build t now s.key root filter).workspace.cache
      (w.build t now s.key root filter).tree := by
  have pair := w.build_cache t now s.key root filter
  split at pair
  · obtain ⟨cache, tree⟩ := Prod.mk.inj pair
    rw [cache, tree]
    exact Cache.works_set wf tidy s.key_ne _ _ _
  · obtain ⟨cache, tree⟩ := Prod.mk.inj pair
    rw [cache, tree]
    exact Cache.works_refl wf tidy

/-- The entry that a build with these settings leaves in the cache. -/
def entryOf (w : Workspace) (now : Int) (catalog : Catalog) : CacheEntry :=
  ⟨catalog.toSnapshot.toJson, now, some w.config.cache.ttl⟩

/-- A build puts the entry of its catalog in memory, and in the file if there can be one. -/
theorem stored_build (wf : t.WellFormed) (clean : w.cache.Clean t s.key)
    (enabled : w.config.cache.enabled) (root : String) (filter : FileFilter) {a : Analysis}
    (result : w.build t now s.key root filter = a) :
    a.workspace.cache.memory.get? s.key = some (w.entryOf now a.workspace.catalog) ∧
      ((t.makeDirectories w.cache.directory).isSome →
        a.tree.standing? w.cache.directory (Cache.fileName s.key).toList =
          some (.file (w.entryOf now a.workspace.catalog).bytes now)) := by
  have pair := w.build_cache t now s.key root filter
  rw [if_pos enabled, result] at pair
  obtain ⟨cache, tree⟩ := Prod.mk.inj pair
  rw [cache, tree]
  refine ⟨?_, fun writable => ?_⟩
  · simp [entryOf]
  · obtain ⟨u, made⟩ := Option.isSome_iff_exists.1 writable
    have spec := Cache.writeFile_made_spec wf clean s.key_ne made now
      (w.entryOf now a.workspace.catalog)
    obtain ⟨_, p, seat⟩ := spec
    have held := Cache.held?_writeFile wf clean s.key_ne made now (w.entryOf now a.workspace.catalog)
      (Cache.fileName s.key).toList
    rw [if_pos rfl, FileTree.held?_of_seat? seat, ← FileTree.standing?_of_seat? seat] at held
    exact held

/-- A build after the cache was asked makes the catalog of a survey. -/
theorem surveyed_build {o : AnalyzeOptions} (wf : t.WellFormed) (measured : t.Measured)
    (clock : isSigned64 now) (subject : w.subject t o = .ok s) {cache : Cache} {u : FileTree}
    (consulted : w.consult t now s.key force = (none, cache, u)) (loaded : FileTree) :
    ((w.onto cache loaded s).build u now s.key s.root s.filter).workspace.catalog.Surveyed s.root := by
  have absolute := isAbsolute_root subject
  have wf' : (w.consult t now s.key force).2.2.WellFormed := wellFormed_consult wf
  have measured' : (w.consult t now s.key force).2.2.Measured := by
    rcases w.consult_tree_cases t now s.key force with same | ⟨p, _, _, pruned⟩
    · rw [same]
      exact measured
    · rw [pruned]
      exact measured.prune p
  rw [consulted] at wf' measured'
  exact ⟨absolute, normalize_root subject, u, _, s.filter, _, now, wf', measured',
    Resolver.rooted_load loaded absolute, clock, rfl⟩

/-- So its catalog is sound and fits its snapshot. -/
theorem sound_build {o : AnalyzeOptions} (wf : t.WellFormed) (measured : t.Measured)
    (clock : isSigned64 now) (subject : w.subject t o = .ok s) {cache : Cache} {u : FileTree}
    (consulted : w.consult t now s.key force = (none, cache, u)) (loaded : FileTree) :
    ((w.onto cache loaded s).build u now s.key s.root s.filter).workspace.catalog.Sound s.root ∧
      ((w.onto cache loaded s).build u now s.key s.root s.filter).workspace.catalog.Fits :=
  (surveyed_build wf measured clock subject consulted loaded).sound

/-- The entry of such a catalog survives its file. -/
theorem fits_entryOf {catalog : Catalog} (fits : catalog.Fits) (clock : isSigned64 now)
    (ttl : isUnsigned64 w.config.cache.ttl) : (w.entryOf now catalog).Fits := by
  refine ⟨(Snapshot.plainWithin_toJson fits).mono (by decide), clock, fun n set => ?_⟩
  obtain rfl := Option.some.inj set
  exact ttl

/-- A whole analysis is work on the key of its subject. -/
theorem works_analyzeRoot (wf : t.WellFormed) (tidy : w.cache.Tidy t) :
    Cache.Works s.key w.cache t
      (w.analyzeRoot t now s.root s.included s.excluded force).workspace.cache
      (w.analyzeRoot t now s.root s.included s.excluded force).tree := by
  have asked : Cache.Works s.key w.cache t (w.consult t now s.key force).2.1
      (w.consult t now s.key force).2.2 := works_consult wf tidy
  rcases w.analyzeRoot_cases t now s force with
    ⟨catalog, cache, u, consulted, result⟩ | ⟨cache, u, consulted, result⟩
  · rw [consulted] at asked
    rw [result]
    exact asked
  · rw [consulted] at asked
    rw [result]
    exact asked.trans (works_build (w := w.onto cache (if force then u else t) s) asked.wellFormed
      asked.tidy s.root s.filter)

end Workspace

/-! ### Sites -/

/-- A file tree and the workspaces on it. -/
structure Site where
  tree : FileTree
  workspaces : List Workspace := []

/-- What happens on a site. -/
inductive SiteEvent where
  /-- A workspace, named by its number, analyzes a project at a time. -/
  | analyze (i : Nat) (now : Int) (o : AnalyzeOptions)
  | reset (i : Nat)
  /-- A new workspace. -/
  | create (config : Config)
  /-- The tree is changed from outside. -/
  | edit (tree : FileTree)

/-- The subject of an event, if that is an analysis which takes place. -/
def SiteEvent.subject? (site : Site) : SiteEvent → Option Subject
  | .analyze i _ o => site.workspaces[i]?.bind fun w => (w.subject site.tree o).toOption
  | _ => none

theorem SiteEvent.subject?_analyze {site : Site} {i : Nat} {now : Int} {o : AnalyzeOptions}
    {w : Workspace} {s : Subject} (here : site.workspaces[i]? = some w)
    (subject : w.subject site.tree o = .ok s) : (analyze i now o).subject? site = some s := by
  rw [subject?, here, Option.bind_some, subject]
  rfl

namespace Site

/-- One event. A refused analysis, or one by a workspace that is not there, changes nothing. The
cache stands in `dir` unless the settings of a workspace say where. -/
def step (dir : String) (site : Site) : SiteEvent → Site
  | .analyze i now o =>
    match site.workspaces[i]? with
    | none => site
    | some w =>
      match w.analyze site.tree now o with
      | .error _ => site
      | .ok a => ⟨a.tree, site.workspaces.set i a.workspace⟩
  | .reset i => { site with workspaces := site.workspaces.modify i Workspace.reset }
  | .create config => { site with workspaces := site.workspaces ++ [.create config dir] }
  | .edit tree => { site with tree }

/-- Events one after the other. -/
def run (dir : String) (site : Site) (events : List SiteEvent) : Site := events.foldl (step dir) site

/-- The site after an analysis, and what is known of it. -/
theorem step_analyze (dir : String) {site : Site} {i : Nat} {now : Int} {o : AnalyzeOptions}
    {w : Workspace} {a : Analysis} (here : site.workspaces[i]? = some w)
    (ok : w.analyze site.tree now o = .ok a) :
    site.step dir (.analyze i now o) = ⟨a.tree, site.workspaces.set i a.workspace⟩ := by
  unfold step
  simp only [here, ok]

theorem getElem?_set_cases {ws : List Workspace} {i k : Nat} {w v : Workspace}
    (h : (ws.set i w)[k]? = some v) : k = i ∧ v = w ∨ k ≠ i ∧ ws[k]? = some v := by
  rw [List.getElem?_set] at h
  split at h
  · rename_i same
    split at h
    · exact .inl ⟨same.symm, (Option.some.inj h).symm⟩
    · cases h
  · rename_i other
    exact .inr ⟨Ne.symm other, h⟩

theorem getElem?_modify_cases {ws : List Workspace} {i k : Nat} {v : Workspace}
    (h : (ws.modify i Workspace.reset)[k]? = some v) :
    ∃ w, ws[k]? = some w ∧ (v = w ∨ v = w.reset) := by
  rw [List.getElem?_modify] at h
  obtain ⟨w, there, rfl⟩ := Option.map_eq_some_iff.1 h
  refine ⟨w, there, ?_⟩
  split
  · exact .inr rfl
  · exact .inl rfl

theorem getElem?_concat_cases {ws : List Workspace} {k : Nat} {w v : Workspace}
    (h : (ws ++ [w])[k]? = some v) : ws[k]? = some v ∨ ws.length ≤ k ∧ v = w := by
  rw [List.getElem?_append] at h
  split at h
  · exact .inl h
  · rename_i beyond
    exact .inr ⟨Nat.le_of_not_lt beyond, List.mem_singleton.1 (List.mem_of_getElem? h)⟩

/-- An analysis either changes nothing or is that of a subject by one of the workspaces. -/
theorem step_analyze_cases (dir : String) (site : Site) (i : Nat) (now : Int) (o : AnalyzeOptions) :
    site.step dir (.analyze i now o) = site ∨
      ∃ w s, site.workspaces[i]? = some w ∧ w.subject site.tree o = .ok s ∧
        site.step dir (.analyze i now o) =
          ⟨(w.analyzeRoot site.tree now s.root s.included s.excluded o.force).tree,
            site.workspaces.set i
              (w.analyzeRoot site.tree now s.root s.included s.excluded o.force).workspace⟩ := by
  cases here : site.workspaces[i]? with
  | none =>
    refine .inl ?_
    unfold step
    simp only [here]
  | some w =>
    cases result : w.analyze site.tree now o with
    | error fault =>
      refine .inl ?_
      unfold step
      simp only [here, result]
    | ok a =>
      obtain ⟨s, subject, rfl⟩ := Workspace.analyze_eq_ok result
      exact .inr ⟨w, s, rfl, subject, step_analyze dir here result⟩

end Site

end SourceAtlas
