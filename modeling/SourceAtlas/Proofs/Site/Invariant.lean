import SourceAtlas.Proofs.Site.Basic
/-!
What holds of every workspace of a site, whatever happened on it: its catalog was made in a survey of
the project that it analyzed last, and so it is sound for the root of that project. A catalog comes
from files or out of the cache, so the invariant that carries this says that all entries under the keys
of the site's subjects are *genuine*, those in files as well as those in the memories of the
workspaces.
-/

namespace SourceAtlas

/-- The catalog of a workspace is sound for the root of its project; without a project it is empty. -/
def Workspace.Sound (w : Workspace) : Prop :=
  match w.root with
  | some root => w.catalog.Sound root
  | none => w.catalog = .empty

/-- The catalog of a workspace was made in a survey of its project; without a project it is empty. -/
def Workspace.Surveyed (w : Workspace) : Prop :=
  match w.root with
  | some root => w.catalog.Surveyed root
  | none => w.catalog = .empty

theorem Workspace.Surveyed.sound {w : Workspace} (h : w.Surveyed) : w.Sound := by
  cases root : w.root with
  | none =>
    rw [Surveyed, root] at h
    rw [Sound, root]
    exact h
  | some root =>
    rw [Surveyed, root] at h
    rw [Sound, root]
    exact (Catalog.Surveyed.sound h).1

/-- The entry survives its file and holds the snapshot of a catalog that was made in a survey of the
subject's project. -/
def CacheEntry.Genuine (s : Subject) (e : CacheEntry) : Prop :=
  e.Fits ∧ ∃ c : Catalog, c.Surveyed s.root ∧ e.data = c.toSnapshot.toJson

/-! ### One analysis -/

namespace Workspace

variable {w : Workspace} {t : FileTree} {now : Int} {s : Subject} {force : Bool}

/-- What is restored from genuine entries was made in a survey. -/
theorem surveyed_restored (genuine : Cache.Holds (CacheEntry.Genuine s) s.key w.cache t)
    (wf : t.WellFormed) (tidy : w.cache.Tidy t) {catalog : Catalog} {cache : Cache} {u : FileTree}
    (consulted : w.consult t now s.key force = (some catalog, cache, u)) :
    catalog.Surveyed s.root := by
  cases force with
  | true => cases consulted
  | false =>
    rw [consult_unforced] at consulted
    unfold restore at consulted
    split at consulted
    · have read := (Prod.mk.inj consulted).1
      obtain ⟨snapshot, taken, rfl⟩ := Option.map_eq_some_iff.1 read
      obtain ⟨data, given, parsed⟩ := Option.bind_eq_some_iff.1 taken
      obtain ⟨e, rfl, source⟩ := (Cache.finds_get wf tidy s.key_ne now).data data given
      have entry : CacheEntry.Genuine s e := by
        rcases source with remembered | stored
        · exact genuine.memory e remembered
        · exact genuine.stored (fun _ good => good.1) stored
      -- the snapshot of a catalog that fits is read back as that very catalog
      obtain ⟨_, c, surveyed, eq⟩ := entry
      rw [eq, Snapshot.ofJson?_toJson surveyed.sound.2] at parsed
      obtain rfl := Option.some.inj parsed
      rw [Catalog.ofSnapshot_toSnapshot]
      exact surveyed
    · cases consulted

/-- Asking the cache leaves genuine entries. -/
theorem genuine_consult (genuine : Cache.Holds (CacheEntry.Genuine s) s.key w.cache t)
    (wf : t.WellFormed) (tidy : w.cache.Tidy t) :
    Cache.Holds (CacheEntry.Genuine s) s.key (w.consult t now s.key force).2.1
      (w.consult t now s.key force).2.2 := by
  cases force with
  | true => exact genuine.delete wf tidy s.key_ne
  | false =>
    rw [consult_unforced]
    unfold restore
    split
    · exact genuine.get (fun _ good => good.1) wf tidy s.key_ne now
    · exact genuine

/-- So does a build whose own entry is genuine. -/
theorem genuine_build {root : String} {filter : FileFilter}
    (genuine : Cache.Holds (CacheEntry.Genuine s) s.key w.cache t) (wf : t.WellFormed)
    (tidy : w.cache.Tidy t)
    (entry : (w.entryOf now (w.build t now s.key root filter).workspace.catalog).Genuine s) :
    Cache.Holds (CacheEntry.Genuine s) s.key (w.build t now s.key root filter).workspace.cache
      (w.build t now s.key root filter).tree := by
  have pair := w.build_cache t now s.key root filter
  split at pair
  · obtain ⟨cache, tree⟩ := Prod.mk.inj pair
    rw [cache, tree]
    exact genuine.set wf tidy s.key_ne entry
  · obtain ⟨cache, tree⟩ := Prod.mk.inj pair
    rw [cache, tree]
    exact genuine

/-- An analysis by a workspace with genuine entries gives a surveyed workspace with genuine entries. -/
theorem surveyed_analyzeRoot {o : AnalyzeOptions} (force : Bool) (wf : t.WellFormed) (measured : t.Measured)
    (tidy : w.cache.Tidy t) (clock : isSigned64 now) (ttl : isUnsigned64 w.config.cache.ttl)
    (subject : w.subject t o = .ok s)
    (genuine : Cache.Holds (CacheEntry.Genuine s) s.key w.cache t) :
    (w.analyzeRoot t now s.root s.included s.excluded force).workspace.Surveyed ∧
      Cache.Holds (CacheEntry.Genuine s) s.key
        (w.analyzeRoot t now s.root s.included s.excluded force).workspace.cache
        (w.analyzeRoot t now s.root s.included s.excluded force).tree := by
  have asked : Cache.Works s.key w.cache t (w.consult t now s.key force).2.1
      (w.consult t now s.key force).2.2 := works_consult wf tidy
  have left : Cache.Holds (CacheEntry.Genuine s) s.key (w.consult t now s.key force).2.1
      (w.consult t now s.key force).2.2 := genuine_consult genuine wf tidy
  rcases w.analyzeRoot_cases t now s force with
    ⟨catalog, cache, u, consulted, result⟩ | ⟨cache, u, consulted, result⟩
  · rw [consulted] at left
    rw [result]
    exact ⟨surveyed_restored genuine wf tidy consulted, left⟩
  · have surveyed := surveyed_build wf measured clock subject consulted (if force then u else t)
    rw [consulted] at left asked
    rw [result]
    exact ⟨surveyed, genuine_build left asked.wellFormed asked.tidy
      ⟨fits_entryOf surveyed.sound.2 clock ttl, _, surveyed, rfl⟩⟩

end Workspace

/-! ### Whole runs -/

/-- The event is one that can happen. Times, and the sizes of files that are read, are integers of
64 bits. Workspaces share the cache directory, and nobody else puts anything under its reserved
names. -/
def SiteEvent.Allowed (dir : String) (site : Site) : SiteEvent → Prop
  | .analyze _ now _ => isSigned64 now ∧ site.tree.Measured
  | .reset _ => True
  | .create config => config.cache.directory.getD dir = dir ∧ isUnsigned64 config.cache.ttl
  | .edit t => t.WellFormed ∧ ∀ name, Cache.isReserved name → ∀ n,
    t.held? dir.toList name = some n → site.tree.held? dir.toList name = some n

namespace Site

/-- Every event is one that can happen. -/
def Allowed (dir : String) : Site → List SiteEvent → Prop
  | _, [] => True
  | site, event :: events => event.Allowed dir site ∧ Allowed dir (site.step dir event) events

/-- The subjects of the analyses in a run. -/
def subjects (dir : String) : Site → List SiteEvent → List Subject
  | _, [] => []
  | site, event :: events =>
    (event.subject? site).toList ++ subjects dir (site.step dir event) events

/-- What the invariant says of a workspace: its settings are as they can be, and its memory holds
nothing but genuine entries for the known subjects. -/
structure Keeper (dir : String) (known : List Subject) (w : Workspace) : Prop where
  directory : w.cache.directory = dir.toList
  ttl : isUnsigned64 w.config.cache.ttl
  memory : ∀ r ∈ known, ∀ e, w.cache.memory.get? r.key = some e → e.Genuine r
  surveyed : w.Surveyed

theorem Keeper.sound {dir : String} {known : List Subject} {w : Workspace} (h : Keeper dir known w) :
    w.Sound :=
  h.surveyed.sound

/-- The invariant of sites: the cache directory holds nothing but genuine entries for the known
subjects, and so do the memories of the workspaces, whose catalogs were all made in surveys. -/
structure Honest (dir : String) (known : List Subject) (site : Site) : Prop where
  wellFormed : site.tree.WellFormed
  tidy : Cache.Tidy ⟨dir.toList, .empty⟩ site.tree
  files : ∀ r ∈ known, Cache.Holds (CacheEntry.Genuine r) r.key ⟨dir.toList, .empty⟩ site.tree
  keepers : ∀ w ∈ site.workspaces, Keeper dir known w

variable {dir : String} {known : List Subject} {site : Site}

/-- The cache of each workspace holds genuine entries. -/
theorem Honest.holds (h : Honest dir known site) {w : Workspace} (here : w ∈ site.workspaces)
    {r : Subject} (mem : r ∈ known) :
    Cache.Holds (CacheEntry.Genuine r) r.key w.cache site.tree := by
  have keeper := h.keepers w here
  refine ⟨keeper.memory r mem, ?_⟩
  rw [keeper.directory]
  exact (h.files r mem).file

/-- A workspace that is reset keeps its cache. -/
theorem Keeper.reset {w : Workspace} (h : Keeper dir known w) : Keeper dir known w.reset :=
  ⟨h.directory, h.ttl, h.memory, rfl⟩

/-- A new workspace has nothing in memory. -/
theorem keeper_create {config : Config} (place : config.cache.directory.getD dir = dir)
    (ttl : isUnsigned64 config.cache.ttl) : Keeper dir known (.create config dir) := by
  refine ⟨congrArg String.toList place, ttl, fun r _ e found => ?_, rfl⟩
  cases found

/-- An analysis keeps the site honest, if no other known subject has the digest of its own. -/
theorem Honest.analyze (h : Honest dir known site)
    (apart : ∀ r ∈ known, ∀ s ∈ known, r.digest = s.digest → r = s) {i : Nat} {now : Int}
    {o : AnalyzeOptions} (clock : isSigned64 now) (measured : site.tree.Measured)
    (mem : ∀ s ∈ (SiteEvent.analyze i now o).subject? site, s ∈ known) :
    Honest dir known (site.step dir (.analyze i now o)) := by
  rcases site.step_analyze_cases dir i now o with same | ⟨w, s, at_i, subject, result⟩
  · rw [same]
    exact h
  · have hs := mem s (SiteEvent.subject?_analyze at_i subject)
    have here := List.mem_of_getElem? at_i
    have keeper := h.keepers w here
    have tidy := h.tidy.of_directory keeper.directory
    have works : Cache.Works s.key w.cache site.tree
        (w.analyzeRoot site.tree now s.root s.included s.excluded o.force).workspace.cache
        (w.analyzeRoot site.tree now s.root s.included s.excluded o.force).tree :=
      Workspace.works_analyzeRoot h.wellFormed tidy
    obtain ⟨surveyed, genuine⟩ := Workspace.surveyed_analyzeRoot o.force h.wellFormed measured tidy
      clock keeper.ttl subject (h.holds here hs)
    have holds : ∀ r ∈ known, Cache.Holds (CacheEntry.Genuine r) r.key
        (w.analyzeRoot site.tree now s.root s.included s.excluded o.force).workspace.cache
        (w.analyzeRoot site.tree now s.root s.included s.excluded o.force).tree := by
      intro r hr
      -- other subjects have other digests, so the work on this one's key does not reach them
      by_cases own : r = s
      · rw [own]
        exact genuine
      · exact (h.holds here hr).works works fun eq =>
          own (apart r hr s hs (Subject.digest_of_fileName eq))
    have place := works.directory.trans keeper.directory
    have analyzed : Keeper dir known
        (w.analyzeRoot site.tree now s.root s.included s.excluded o.force).workspace := by
      refine ⟨place, ?_, fun r hr => (holds r hr).memory, surveyed⟩
      rw [Workspace.config_analyzeRoot]
      exact keeper.ttl
    rw [result]
    refine ⟨works.wellFormed, works.tidy.of_directory place.symm, fun r hr => ?_, fun v found => ?_⟩
    · refine ⟨(h.files r hr).memory, ?_⟩
      rw [← place]
      exact (holds r hr).file
    · rcases List.mem_or_eq_of_mem_set found with old | rfl
      · exact h.keepers v old
      · exact analyzed

/-- Every event keeps the site honest. -/
theorem Honest.step (h : Honest dir known site)
    (apart : ∀ r ∈ known, ∀ s ∈ known, r.digest = s.digest → r = s) {event : SiteEvent}
    (allowed : event.Allowed dir site) (mem : ∀ s ∈ event.subject? site, s ∈ known) :
    Honest dir known (site.step dir event) := by
  cases event with
  | analyze i now o => exact h.analyze apart allowed.1 allowed.2 mem
  | reset i =>
    refine ⟨h.wellFormed, h.tidy, h.files, fun v found => ?_⟩
    obtain ⟨k, at_k⟩ := List.mem_iff_getElem?.1 found
    obtain ⟨w, old, rfl | rfl⟩ := getElem?_modify_cases at_k
    · exact h.keepers v (List.mem_of_getElem? old)
    · exact (h.keepers w (List.mem_of_getElem? old)).reset
  | create config =>
    refine ⟨h.wellFormed, h.tidy, h.files, fun v found => ?_⟩
    rcases List.mem_append.1 found with old | new
    · exact h.keepers v old
    · obtain rfl := List.mem_singleton.1 new
      exact keeper_create allowed.1 allowed.2
  | edit t =>
    obtain ⟨wf, old⟩ := allowed
    refine ⟨wf, h.tidy.of_held? fun name reserved n held => .inl (old name reserved n held),
      fun r hr => ⟨(h.files r hr).memory, fun content modified held => ?_⟩, h.keepers⟩
    exact (h.files r hr).file content modified (old _ (Cache.isReserved_fileName r.key) _ held)

/-- So does a run of events about known subjects. -/
theorem Honest.run (h : Honest dir known site)
    (apart : ∀ r ∈ known, ∀ s ∈ known, r.digest = s.digest → r = s) {events : List SiteEvent}
    (allowed : site.Allowed dir events) (mem : ∀ s ∈ site.subjects dir events, s ∈ known) :
    Honest dir known (site.run dir events) := by
  induction events generalizing site with
  | nil => exact h
  | cons event events ih =>
    obtain ⟨first, rest⟩ := allowed
    have next := h.step apart first fun s hs =>
      mem s (List.mem_append_left _ (Option.mem_toList.2 hs))
    exact ih next rest fun s hs => mem s (List.mem_append_right _ hs)

/-- A site without workspaces and with an unused cache directory is honest. -/
theorem honest_start {t : FileTree} (wf : t.WellFormed)
    (unused : ∀ name, Cache.isReserved name → t.held? dir.toList name = none) (known : List Subject) :
    Honest dir known ⟨t, []⟩ := by
  refine ⟨wf, fun name reserved n held => ?_,
    fun r _ => ⟨fun e found => ?_, fun content modified held => ?_⟩,
    fun w here => absurd here List.not_mem_nil⟩
  · have held : t.held? dir.toList name = some n := held
    rw [unused name reserved] at held
    cases held
  · cases found
  · have held : t.held? dir.toList (Cache.fileName r.key).toList = some (.file content modified) := held
    rw [unused _ (Cache.isReserved_fileName r.key)] at held
    cases held

/-- Whatever happens on a site whose cache directory was unused at first, the catalog of every workspace
was made in a survey of its project, if different subjects of the run have different digests. -/
theorem surveyed_run {t : FileTree} {events : List SiteEvent} (wf : t.WellFormed)
    (unused : ∀ name, Cache.isReserved name → t.held? dir.toList name = none)
    (allowed : Site.Allowed dir ⟨t, []⟩ events)
    (apart : ∀ r ∈ Site.subjects dir ⟨t, []⟩ events, ∀ s ∈ Site.subjects dir ⟨t, []⟩ events,
      r.digest = s.digest → r = s) :
    ∀ w ∈ (Site.run dir ⟨t, []⟩ events).workspaces, w.Surveyed := by
  intro w here
  have honest := (honest_start wf unused _).run apart allowed fun _ hs => hs
  exact (honest.keepers w here).surveyed

/-- Whatever happens on a site whose cache directory was unused at first, every workspace is sound
afterwards: what was found in a file is in all three maps or in none, and only if the file is
recorded; all records name the file they stand under, which lies under the root of the project; all
dependencies are imports that lead from their file to an absolute path, if they lead anywhere. It is
assumed that different subjects of the run have different digests. -/
theorem sound_run {t : FileTree} {events : List SiteEvent} (wf : t.WellFormed)
    (unused : ∀ name, Cache.isReserved name → t.held? dir.toList name = none)
    (allowed : Site.Allowed dir ⟨t, []⟩ events)
    (apart : ∀ r ∈ Site.subjects dir ⟨t, []⟩ events, ∀ s ∈ Site.subjects dir ⟨t, []⟩ events,
      r.digest = s.digest → r = s) :
    ∀ w ∈ (Site.run dir ⟨t, []⟩ events).workspaces, w.Sound := by
  intro w here
  have honest := (honest_start wf unused _).run apart allowed fun _ hs => hs
  exact (honest.keepers w here).sound

/-! ### A run on the sample project -/

open Workspace (sampleProject sampleSubject sampleOptions)

/-- The sample project is analyzed; its tree is put back as it was, and it is analyzed again. -/
def sampleEvents : List SiteEvent :=
  [.create {}, .analyze 0 0 (sampleOptions true), .edit sampleProject,
    .analyze 0 1 (sampleOptions false)]

theorem sampleProject_unused (name : List Char) : sampleProject.held? "/c".toList name = none := by
  have made : sampleProject.makeDirectories "/c".toList =
      some ⟨([['c']], .directory) :: sampleProject.nodes, []⟩ := by rfl
  have place : FileTree.place? ⟨([['c']], .directory) :: sampleProject.nodes, []⟩ "/c".toList =
      some [['c']] := by rfl
  rw [FileTree.held?, made, Option.bind_some,
    FileTree.standing?_of_seat? (FileTree.seat?_of_place? place rfl)]
  simp [FileTree.node?, sampleProject, lookup_cons_ite]

theorem sound_sampleEvents : ∃ w, (run "/c" ⟨sampleProject, []⟩ sampleEvents).workspaces = [w] ∧
    w.catalog.Sound "/p" := by
  have directory := Workspace.isDirectory_sampleProject
  have subject := (Workspace.create {} "/c").subject_sampleOptions true directory
  obtain ⟨a, first⟩ : ∃ a, (Workspace.create {} "/c").analyze sampleProject 0 (sampleOptions true) =
      .ok a := by
    rw [Workspace.analyze_eq, subject]
    exact ⟨_, rfl⟩
  have again := a.workspace.subject_sampleOptions false directory
  obtain ⟨b, second, root⟩ : ∃ b, a.workspace.analyze sampleProject 1 (sampleOptions false) = .ok b ∧
      b.workspace.root = some "/p" := by
    rw [Workspace.analyze_eq, again]
    exact ⟨_, rfl, Workspace.root_analyzeRoot a.workspace sampleProject 1 sampleSubject false⟩
  have created : step "/c" ⟨sampleProject, []⟩ (.create {}) =
      ⟨sampleProject, [.create {} "/c"]⟩ := rfl
  have built : step "/c" ⟨sampleProject, [.create {} "/c"]⟩ (.analyze 0 0 (sampleOptions true)) =
      ⟨a.tree, [a.workspace]⟩ := step_analyze "/c" rfl first
  have edited : step "/c" ⟨a.tree, [a.workspace]⟩ (.edit sampleProject) =
      ⟨sampleProject, [a.workspace]⟩ := rfl
  have restored : step "/c" ⟨sampleProject, [a.workspace]⟩ (.analyze 0 1 (sampleOptions false)) =
      ⟨b.tree, [b.workspace]⟩ := step_analyze "/c" rfl second
  have about : subjects "/c" ⟨sampleProject, []⟩ sampleEvents = [sampleSubject, sampleSubject] := by
    simp only [sampleEvents, subjects]
    rw [created, built, edited, SiteEvent.subject?_analyze rfl subject,
      SiteEvent.subject?_analyze rfl again]
    rfl
  have allowed : Allowed "/c" ⟨sampleProject, []⟩ sampleEvents := by
    have measured : sampleProject.Measured := by decide
    simp only [sampleEvents, Allowed]
    rw [created, built, edited]
    refine ⟨⟨rfl, by decide⟩, ⟨by decide, measured⟩, ⟨by decide, fun name _ n held => ?_⟩,
      ⟨by decide, measured⟩, trivial⟩
    rw [sampleProject_unused] at held
    cases held
  have sound := sound_run (by decide) (fun name _ => sampleProject_unused name) allowed (by
    rw [about]
    simp)
  have last : run "/c" ⟨sampleProject, []⟩ sampleEvents = ⟨b.tree, [b.workspace]⟩ := by
    simp only [run, sampleEvents, List.foldl]
    rw [created, built, edited, restored]
  rw [last] at sound ⊢
  have here := sound b.workspace (List.mem_singleton.2 rfl)
  rw [Workspace.Sound, root] at here
  exact ⟨b.workspace, rfl, here⟩

end Site

end SourceAtlas
