import SourceAtlas.Proofs.Site.Basic
/-!
An analysis that is served from the cache gives what was built. The entry of a subject, once its
catalog is built and stored, stays in its file and in the memory of the workspace that built it as
long as no other analysis of that subject takes place. A workspace that is asked for the subject
while the entry lives reads the same catalog back, out of memory or through the text of the file.
-/

namespace SourceAtlas

/-! ### Living entries -/

/-- An entry lives as long as no more time than its own has passed. -/
theorem CacheEntry.isExpired_eq_false {e : CacheEntry} {ttl : Nat} {now : Int}
    (lifetime : e.ttl = some ttl) (bounded : ttl < signedLimit)
    (span : isSigned64 (now - e.timestamp)) (living : now - e.timestamp ≤ ttl) :
    e.isExpired now = false := by
  have signed : isSigned64 (ttl : Int) := by
    rw [isSigned64_iff]
    rw [signedLimit] at bounded
    omega
  rw [isExpired, lifetime]
  simp only [wrap64_eq span, wrap64_eq signed]
  exact decide_eq_false (by omega)

/-! ### Rules of imports -/

namespace Resolver

/-- The two trees have the same project files, as far as the rules of a project depend on them. -/
def SameProjectFiles (t u : FileTree) (root : List Char) : Prop :=
  ∀ d ∈ Path.ancestors (maxParents + 1) (Path.normalize root), ∀ name ∈ [compilerFile, packageFile],
    u.isFile (Path.join d name) = t.isFile (Path.join d name) ∧
      u.readText? (Path.join d name) = t.readText? (Path.join d name)

theorem holder?_congr {t u : FileTree} {root name : List Char}
    (same : ∀ d ∈ Path.ancestors (maxParents + 1) root,
      u.isFile (Path.join d name) = t.isFile (Path.join d name)) :
    holder? u root name = holder? t root name := by
  rw [holder?, holder?]
  generalize Path.ancestors (maxParents + 1) root = ups at same
  induction ups with
  | nil => rfl
  | cons d ups ih =>
    rw [List.find?_cons, List.find?_cons, same d List.mem_cons_self,
      ih fun q hq => same q (List.mem_cons_of_mem _ hq)]

theorem withProjectFile_congr {t u : FileTree} {root name : List Char}
    (same : ∀ d ∈ Path.ancestors (maxParents + 1) root,
      u.isFile (Path.join d name) = t.isFile (Path.join d name) ∧
        u.readText? (Path.join d name) = t.readText? (Path.join d name))
    (add : Resolver → List Char → Json → Resolver) (r : Resolver) :
    r.withProjectFile u root name add = r.withProjectFile t root name add := by
  rw [withProjectFile, withProjectFile, holder?_congr fun d up => (same d up).1]
  cases held : holder? t root name with
  | none => rfl
  | some d =>
    have text := (same d (List.mem_of_find?_eq_some held)).2
    simp only [documentIn?, text]

/-- The rules of a project depend on its project files alone. -/
theorem load_congr {t u : FileTree} {root : List Char} (same : SameProjectFiles t u root) :
    load u root = load t root := by
  simp only [load]
  rw [withProjectFile_congr fun d up => same d up compilerFile List.mem_cons_self,
    withProjectFile_congr fun d up => same d up packageFile (by simp)]

end Resolver

/-! ### Events that spare an entry -/

/-- The event is no analysis of the given subject: it concerns subjects with other digests, puts new
workspaces on the same cache directory, and leaves the reserved names of that directory alone. -/
def SiteEvent.Spares (dir : String) (s : Subject) (site : Site) : SiteEvent → Prop
  | event@(.analyze _ _ _) => ∀ r ∈ event.subject? site, r.digest ≠ s.digest
  | .reset _ => True
  | .create config => config.cache.directory.getD dir = dir
  | .edit t => t.WellFormed ∧ ∀ name, Cache.isReserved name →
    t.standing? dir.toList name = site.tree.standing? dir.toList name

namespace Site

/-- Every event spares the entry of the subject. -/
def Spares (dir : String) (s : Subject) : Site → List SiteEvent → Prop
  | _, [] => True
  | site, event :: events =>
    event.Spares dir s site ∧ Spares dir s (site.step dir event) events

/-- The site retains an entry: it is in the file of its key, in the memory of the workspace `i`, and
those with a number from `n` on have no other one in memory. -/
structure Retains (dir : String) (i n : Nat) (key : String) (e : CacheEntry) (site : Site) :
    Prop where
  wellFormed : site.tree.WellFormed
  tidy : Cache.Tidy ⟨dir.toList, .empty⟩ site.tree
  file : ∃ modified, site.tree.standing? dir.toList (Cache.fileName key).toList =
    some (.file e.bytes modified)
  shared : ∀ (j : Nat) (w : Workspace), site.workspaces[j]? = some w →
    w.cache.directory = dir.toList
  owner : ∀ w : Workspace, site.workspaces[i]? = some w → w.cache.memory.get? key = some e
  newer : ∀ (j : Nat) (w : Workspace), n ≤ j → site.workspaces[j]? = some w →
    ∀ d, w.cache.memory.get? key = some d → d = e
  count : n ≤ site.workspaces.length

variable {dir : String} {i n : Nat} {s : Subject} {e : CacheEntry} {site : Site}

/-- An analysis of another subject spares the entry. -/
theorem Retains.analyze (h : Retains dir i n s.key e site) {j : Nat} {now : Int}
    {o : AnalyzeOptions} (spares : SiteEvent.Spares dir s site (.analyze j now o)) :
    Retains dir i n s.key e (site.step dir (.analyze j now o)) := by
  rcases site.step_analyze_cases dir j now o with same | ⟨w, r, here, subject, result⟩
  · rw [same]
    exact h
  · -- the other subject has a file and a draft of its own, so the entry is left where it is
    have apart : Cache.fileName s.key ≠ Cache.fileName r.key := fun eq =>
      spares r (SiteEvent.subject?_analyze here subject) (Subject.digest_of_fileName eq).symm
    have other : s.key ≠ r.key := fun eq => apart (congrArg Cache.fileName eq)
    have directory := h.shared j w here
    have works : Cache.Works r.key w.cache site.tree
        (w.analyzeRoot site.tree now r.root r.included r.excluded o.force).workspace.cache
        (w.analyzeRoot site.tree now r.root r.included r.excluded o.force).tree :=
      Workspace.works_analyzeRoot h.wellFormed (h.tidy.of_directory directory)
    have memory := works.memory s.key other
    obtain ⟨modified, file⟩ := h.file
    obtain ⟨p, seat, node⟩ := Option.bind_eq_some_iff.1 file
    have seat' := works.seat p (directory ▸ seat)
    have held := works.held (Cache.fileName s.key).toList
      (fun eq => apart (String.toList_inj.1 eq)) (Cache.fileName_ne_draftName s.key r.key)
    rw [directory] at seat' held
    rw [result]
    refine ⟨works.wellFormed, works.tidy.of_directory (works.directory.trans directory).symm,
      ⟨modified, ?_⟩, fun k v at_k => ?_, fun v at_i => ?_, fun k v newer at_k d found => ?_, ?_⟩
    · rw [FileTree.standing?_of_seat? seat', ← FileTree.held?_of_seat? seat', held,
        FileTree.held?_of_seat? seat, node]
    · rcases getElem?_set_cases at_k with ⟨rfl, rfl⟩ | ⟨_, old⟩
      · exact works.directory.trans directory
      · exact h.shared k v old
    · rcases getElem?_set_cases at_i with ⟨rfl, rfl⟩ | ⟨_, old⟩
      · rw [memory, h.owner w here]
      · exact h.owner v old
    · rcases getElem?_set_cases at_k with ⟨rfl, rfl⟩ | ⟨_, old⟩
      · rw [memory] at found
        exact h.newer k w newer here d found
      · exact h.newer k v newer old d found
    · rw [List.length_set]
      exact h.count

/-- Every event that spares the entry keeps it. -/
theorem Retains.step (h : Retains dir i n s.key e site) (owned : i < n) {event : SiteEvent}
    (spares : event.Spares dir s site) : Retains dir i n s.key e (site.step dir event) := by
  cases event with
  | analyze j now o => exact h.analyze spares
  | reset j =>
    have kept : ∀ (k : Nat) (v : Workspace),
        (site.workspaces.modify j Workspace.reset)[k]? = some v →
        ∃ w, site.workspaces[k]? = some w ∧ v.cache = w.cache := by
      intro k v found
      obtain ⟨w, there, rfl | rfl⟩ := getElem?_modify_cases found
      · exact ⟨v, there, rfl⟩
      · exact ⟨w, there, rfl⟩
    refine ⟨h.wellFormed, h.tidy, h.file, fun k v found => ?_, fun v found => ?_,
      fun k v newer found d there => ?_, ?_⟩
    · obtain ⟨w, old, same⟩ := kept k v found
      rw [same]
      exact h.shared k w old
    · obtain ⟨w, old, same⟩ := kept i v found
      rw [same]
      exact h.owner w old
    · obtain ⟨w, old, same⟩ := kept k v found
      rw [same] at there
      exact h.newer k w newer old d there
    · rw [Site.step, List.length_modify]
      exact h.count
  | create config =>
    refine ⟨h.wellFormed, h.tidy, h.file, fun k v found => ?_, fun v found => ?_,
      fun k v newer found d there => ?_, ?_⟩
    · rcases getElem?_concat_cases found with old | ⟨_, rfl⟩
      · exact h.shared k v old
      · exact congrArg String.toList spares
    · rcases getElem?_concat_cases found with old | ⟨beyond, _⟩
      · exact h.owner v old
      · exact absurd (Nat.lt_of_lt_of_le owned (Nat.le_trans h.count beyond)) (Nat.lt_irrefl i)
    · rcases getElem?_concat_cases found with old | ⟨_, rfl⟩
      · exact h.newer k v newer old d there
      · cases there
    · rw [Site.step, List.length_append]
      exact Nat.le_trans h.count (Nat.le_add_right _ _)
  | edit t =>
    obtain ⟨wf, same⟩ := spares
    obtain ⟨modified, file⟩ := h.file
    have file' : t.standing? dir.toList (Cache.fileName s.key).toList =
        some (.file e.bytes modified) := by
      rw [same _ (Cache.isReserved_fileName s.key), file]
    -- the file is still there, so its directory is, and what it holds is what stands in it
    obtain ⟨p, seat, _⟩ := Option.bind_eq_some_iff.1 file'
    refine ⟨wf, fun name reserved node held => ?_, ⟨modified, file'⟩, h.shared, h.owner, h.newer,
      h.count⟩
    have held : t.held? dir.toList name = some node := held
    rw [FileTree.held?_of_seat? seat, ← FileTree.standing?_of_seat? seat, same name reserved] at held
    exact h.tidy name reserved node (FileTree.held?_of_standing? held)

/-- So does a run of them. -/
theorem Retains.run (h : Retains dir i n s.key e site) (owned : i < n) {events : List SiteEvent}
    (spares : site.Spares dir s events) : Retains dir i n s.key e (site.run dir events) := by
  induction events generalizing site with
  | nil => exact h
  | cons event events ih =>
    obtain ⟨first, rest⟩ := spares
    exact ih (h.step owned first) rest

/-! ### From the build to the restored analysis -/

/-- A workspace whose cache has the living entry of a subject in memory or in its file restores the
catalog of the entry. -/
theorem restore_of_entry {w : Workspace} {t : FileTree} {now : Int} {key : String} {c : Catalog}
    (enabled : w.config.cache.enabled) (ne : key ≠ "") (fits : c.Fits)
    (data : e.data = c.toSnapshot.toJson) (living : e.isExpired now = false)
    (stored : w.cache.stored? t key = some e)
    (memory : ∀ d, w.cache.memory.get? key = some d → d = e) :
    ∃ cache, w.restore t now key = (some c, cache, t) := by
  have read : (Snapshot.ofJson? e.data).map Catalog.ofSnapshot = some c := by
    rw [data, Snapshot.ofJson?_toJson fits, Option.map_some, Catalog.ofSnapshot_toSnapshot]
  have answer : ∃ cache, w.cache.get t now key = (some e.data, cache, t) := by
    cases found : w.cache.memory.get? key with
    | some d =>
      obtain rfl := memory d found
      exact ⟨w.cache, Cache.get_of_memory found living⟩
    | none => exact ⟨_, Cache.get_of_stored ne found stored living⟩
  obtain ⟨cache, answer⟩ := answer
  refine ⟨cache, ?_⟩
  unfold Workspace.restore
  rw [if_pos enabled, answer]
  simp only [Option.bind_some, read]

/-- A build leaves its entry in the file of the subject and in the memory of its workspace. -/
theorem retains_built {w : Workspace} {now : Int} {o : AnalyzeOptions} {a : Analysis}
    (wf : site.tree.WellFormed) (tidy : Cache.Tidy ⟨dir.toList, .empty⟩ site.tree)
    (writable : (site.tree.makeDirectories dir.toList).isSome)
    (shared : ∀ v ∈ site.workspaces, v.cache.directory = dir.toList)
    (here : site.workspaces[i]? = some w) (enabled : w.config.cache.enabled)
    (subject : w.subject site.tree o = .ok s) (ok : w.analyze site.tree now o = .ok a)
    (built : a.summary.fromCache = false) :
    Retains dir i site.workspaces.length s.key (w.entryOf now a.workspace.catalog)
      (site.step dir (.analyze i now o)) := by
  rw [step_analyze dir here ok]
  obtain ⟨r, same, rfl⟩ := Workspace.analyze_eq_ok ok
  obtain rfl := Except.ok.inj (same.symm.trans subject)
  have directory := shared w (List.mem_of_getElem? here)
  have tidy' := tidy.of_directory directory
  rcases w.analyzeRoot_cases site.tree now r o.force with
    ⟨_, _, _, _, result⟩ | ⟨cache, u, consulted, result⟩
  · rw [result] at built
    cases built
  · have asked : Cache.Works r.key w.cache site.tree (w.consult site.tree now r.key o.force).2.1
        (w.consult site.tree now r.key o.force).2.2 := Workspace.works_consult wf tidy'
    have works : Cache.Works r.key w.cache site.tree
        (w.analyzeRoot site.tree now r.root r.included r.excluded o.force).workspace.cache
        (w.analyzeRoot site.tree now r.root r.included r.excluded o.force).tree :=
      Workspace.works_analyzeRoot wf tidy'
    rw [consulted] at asked
    obtain ⟨memory, file⟩ := Workspace.stored_build
      (w := w.onto cache (if o.force then u else site.tree) r) asked.wellFormed (asked.tidy.clean _) enabled
      r.root r.filter result.symm
    have place : cache.directory = dir.toList := asked.directory.trans directory
    have file' := file (by
      rw [Workspace.onto, place, ← directory]
      exact asked.writable (by rw [directory]; exact writable))
    rw [Workspace.onto, place] at file'
    refine ⟨works.wellFormed, works.tidy.of_directory (works.directory.trans directory).symm,
      ⟨now, file'⟩, fun k v found => ?_, fun v found => ?_, fun k v newer found => ?_, ?_⟩
    · rcases getElem?_set_cases found with ⟨rfl, rfl⟩ | ⟨_, old⟩
      · exact works.directory.trans directory
      · exact shared v (List.mem_of_getElem? old)
    · -- at its own number stands the workspace that has just built
      rcases getElem?_set_cases found with ⟨_, rfl⟩ | ⟨other, _⟩
      · exact memory
      · exact absurd rfl other
    · have beyond : (site.workspaces.set i
          (w.analyzeRoot site.tree now r.root r.included r.excluded o.force).workspace)[k]? = none :=
        List.getElem?_eq_none (by rw [List.length_set]; exact newer)
      rw [beyond] at found
      cases found
    · exact Nat.le_of_eq List.length_set.symm

/-- The workspace that retains the living entry, and every newer one, restores its catalog. -/
theorem Retains.restore (h : Retains dir i n s.key e site) (fits : e.Fits) {c : Catalog}
    (room : c.Fits) (data : e.data = c.toSnapshot.toJson) {now : Int}
    (living : e.isExpired now = false) {j : Nat} {v : Workspace}
    (here : site.workspaces[j]? = some v) (who : j = i ∨ n ≤ j) (enabled : v.config.cache.enabled) :
    ∃ cache, v.restore site.tree now s.key = (some c, cache, site.tree) := by
  have directory := h.shared j v here
  have stored : v.cache.stored? site.tree s.key = some e := by
    obtain ⟨modified, file⟩ := h.file
    rw [Cache.stored?, directory, file]
    exact CacheEntry.ofBytes?_bytes fits
  refine restore_of_entry enabled s.key_ne room data living stored ?_
  intro d found
  rcases who with rfl | newer
  · have own := h.owner v here
    rw [own] at found
    exact (Option.some.inj found).symm
  · exact h.newer j v newer here d found

/-- The cache directory of a site is in use: the workspaces share it, entries can be written to it,
and the tree it stands in is one that files can be read from. -/
structure InUse (dir : String) (site : Site) : Prop where
  wellFormed : site.tree.WellFormed
  measured : site.tree.Measured
  tidy : Cache.Tidy ⟨dir.toList, .empty⟩ site.tree
  writable : (site.tree.makeDirectories dir.toList).isSome
  shared : ∀ v ∈ site.workspaces, v.cache.directory = dir.toList

/-- What a workspace builds is what is restored. Let a workspace `w` with the cache enabled analyze a
subject from the files, and let then events take place that spare the subject's entry, whatever they
do to the files of the project. The next analysis of the subject by the same workspace, or by one
that is newer than the build, is served from the cache as long as the entry lives: it reports the
same totals and puts the same catalog in place. If the project files are those from which the rules
of the first analysis were loaded, it answers all queries alike. -/
theorem restored_of_built {w v : Workspace} {now₁ now₂ : Int} {o₁ o₂ : AnalyzeOptions} {a₁ : Analysis}
    {events : List SiteEvent} {j : Nat} (use : site.InUse dir)
    (here : site.workspaces[i]? = some w) (enabled : w.config.cache.enabled)
    (ttl : w.config.cache.ttl < signedLimit) (clock : isSigned64 now₁)
    (subject : w.subject site.tree o₁ = .ok s) (first : w.analyze site.tree now₁ o₁ = .ok a₁)
    (built : a₁.summary.fromCache = false)
    (spares : (site.step dir (.analyze i now₁ o₁)).Spares dir s events)
    (later : ((site.step dir (.analyze i now₁ o₁)).run dir events).workspaces[j]? = some v)
    (who : j = i ∨ site.workspaces.length ≤ j) (enabled' : v.config.cache.enabled)
    (unforced : o₂.force = false)
    (same : v.subject ((site.step dir (.analyze i now₁ o₁)).run dir events).tree o₂ = .ok s)
    (span : isSigned64 (now₂ - now₁)) (living : now₂ - now₁ ≤ w.config.cache.ttl) :
    ∃ a₂, v.analyze ((site.step dir (.analyze i now₁ o₁)).run dir events).tree now₂ o₂ = .ok a₂ ∧
      a₂.summary = { a₁.summary with fromCache := true } ∧
      a₂.workspace.catalog = a₁.workspace.catalog ∧
      (Resolver.SameProjectFiles
          (if o₁.force then (w.cache.delete site.tree s.key).2 else site.tree)
          ((site.step dir (.analyze i now₁ o₁)).run dir events).tree s.root.toList →
        a₂.workspace.atlas = a₁.workspace.atlas) := by
  have kept := (retains_built use.wellFormed use.tidy use.writable use.shared here enabled subject
    first built).run (List.getElem?_eq_some_iff.1 here).1 spares
  obtain ⟨r, known, rfl⟩ := Workspace.analyze_eq_ok first
  obtain rfl := Except.ok.inj (known.symm.trans subject)
  rcases w.analyzeRoot_cases site.tree now₁ r o₁.force with
    ⟨_, _, _, _, result⟩ | ⟨cache, u, consulted, result⟩
  · rw [result] at built
    cases built
  · have room := (Workspace.sound_build use.wellFormed use.measured clock subject consulted
      (if o₁.force then u else site.tree)).2
    rw [← result] at room
    have fits : (w.entryOf now₁ _).Fits := Workspace.fits_entryOf room clock (by
      rw [signedLimit] at ttl
      rw [isUnsigned64_iff]
      omega)
    obtain ⟨cache', restored⟩ := kept.restore fits room rfl
      (CacheEntry.isExpired_eq_false rfl ttl span living) later who enabled'
    have answer := Workspace.analyzeRoot_restored
      ((Workspace.consult_unforced r.key).trans restored)
    have second := v.analyze_eq ((site.step dir (.analyze i now₁ o₁)).run dir events).tree now₂ o₂
    rw [same, Except.map, unforced, answer] at second
    refine ⟨_, second, ?_, rfl, ?_⟩
    · rw [result]
      rfl
    · intro files
      -- a forced analysis loads its rules after the entry was deleted, any other one before
      have rules : (if o₁.force then u else site.tree) =
          if o₁.force then (w.cache.delete site.tree r.key).2 else site.tree := by
        split
        · rename_i force
          rw [Workspace.consult, if_pos force] at consulted
          exact congrArg Prod.snd (Prod.mk.inj consulted).2.symm
        · rfl
      rw [← rules] at files
      rw [result]
      exact congrArg (fun rules => Except.ok (Atlas.mk _ rules r.root)) (Resolver.load_congr files)

/-! ### The sample project -/

open Workspace (sampleProject sampleSubject sampleOptions)

/-- A workspace with the cache in the root of the sample project. -/
def sampleWorkspace : Workspace := .create {} "/p"

/-- The sample project before its first analysis. -/
def sampleSite : Site := ⟨sampleProject, [sampleWorkspace]⟩

theorem seat_sampleSite : sampleSite.tree.seat? "/p".toList = some [['p']] :=
  FileTree.seat?_of_place? (by rfl) (by decide)

theorem inUse_sampleSite : sampleSite.InUse "/p" := by
  refine ⟨by decide, by decide, fun name reserved n held => ?_, by decide +kernel, by decide⟩
  have held : sampleSite.tree.held? "/p".toList name = some n := held
  rw [FileTree.held?_of_seat? seat_sampleSite] at held
  have listed : ([['p'], name], n) ∈ sampleProject.nodes := by
    rw [FileTree.node?, if_neg (by simp)] at held
    exact mem_of_lookup held
  simp only [sampleProject, List.mem_cons, Prod.mk.injEq, List.not_mem_nil, or_false] at listed
  rcases listed with ⟨root, _⟩ | ⟨_, rfl⟩ | ⟨_, rfl⟩
  · cases root
  · exact ⟨_, _, rfl⟩
  · exact ⟨_, _, rfl⟩

/-- A new workspace restores what the only one there built. -/
theorem restored_sampleSite : ∃ a₁ a₂,
    sampleWorkspace.analyze sampleProject 0 (sampleOptions true) = .ok a₁ ∧
      a₁.summary.fromCache = false ∧
      sampleWorkspace.analyze a₁.tree 1 (sampleOptions false) = .ok a₂ ∧
      a₂.summary.fromCache = true ∧ a₂.workspace.catalog = a₁.workspace.catalog := by
  have subject : sampleWorkspace.subject sampleSite.tree (sampleOptions true) = .ok sampleSubject :=
    Workspace.subject_sampleOptions _ true Workspace.isDirectory_sampleProject
  have first := sampleWorkspace.analyze_eq sampleSite.tree 0 (sampleOptions true)
  rw [subject, Except.map] at first
  have here : sampleSite.workspaces[0]? = some sampleWorkspace := rfl
  have after := step_analyze "/p" here first
  have works : Cache.Works sampleSubject.key sampleWorkspace.cache sampleSite.tree _
      (sampleWorkspace.analyzeRoot sampleSite.tree 0 "/p" ["**/*.ts"] ["x"] true).tree :=
    Workspace.works_analyzeRoot inUse_sampleSite.wellFormed inUse_sampleSite.tidy
  have directory : (sampleWorkspace.analyzeRoot sampleSite.tree 0 "/p" ["**/*.ts"] ["x"]
      true).tree.isDirectory "/p".toList = true := by
    have seat := works.seat [['p']] seat_sampleSite
    rw [FileTree.isDirectory_eq (by decide)]
    exact Option.isSome_of_eq_some seat
  have same := sampleWorkspace.subject_sampleOptions false directory
  have spares : (sampleSite.step "/p" (.analyze 0 0 (sampleOptions true))).Spares "/p" sampleSubject
      [.create {}] := ⟨rfl, trivial⟩
  have span : isSigned64 (1 - 0) := by decide
  obtain ⟨a₂, second, totals, catalog, _⟩ := restored_of_built (j := 1) (v := sampleWorkspace)
    inUse_sampleSite here rfl (by decide) (by decide) subject first rfl spares (by rw [after]; rfl)
    (.inr (Nat.le_refl 1)) rfl rfl (by rw [after]; exact same) span (by decide)
  rw [after] at second
  refine ⟨_, a₂, first, rfl, second, ?_, catalog⟩
  rw [totals]

end Site

end SourceAtlas
