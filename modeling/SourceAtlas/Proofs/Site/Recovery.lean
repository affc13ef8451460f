import SourceAtlas.Proofs.Site.History
/-!
A damaged cache file is as good as none. Whatever stands in the file of a subject, if it is not a
living entry with a catalog, an analysis goes on as if the file were not there: it builds the catalog
from the files and stores it, in place of the damaged file and of anything that was taken into memory
from it. The next analysis is served from the new entry while that lives; but a time to live that is no
signed integer of 64 bits counts as negative, and an entry with such a one has expired at once.
-/

namespace SourceAtlas

/-- An entry whose time to live is no signed integer of 64 bits has expired as soon as it is stored. -/
theorem CacheEntry.isExpired_of_signedLimit_le {e : CacheEntry} {ttl : Nat} {now : Int}
    (lifetime : e.ttl = some ttl) (unsigned : isUnsigned64 ttl) (large : signedLimit ≤ ttl)
    (span : isSigned64 (now - e.timestamp)) (later : e.timestamp ≤ now) : e.isExpired now = true := by
  have wrapped : wrap64 ttl = ttl - unsignedLimit := by
    rw [isUnsigned64_iff] at unsigned
    rw [signedLimit] at large
    rw [wrap64, unsignedLimit, Int.bmod]
    split <;> omega
  rw [isUnsigned64_iff] at unsigned
  rw [isExpired, lifetime]
  simp only [wrap64_eq span, wrapped, unsignedLimit]
  exact decide_eq_true (by omega)

namespace Workspace

variable {v w : Workspace} {t u : FileTree} {s : Subject} {now later : Int} {o : AnalyzeOptions}

/-! ### Damaged files -/

/-- The content of a file from which nothing can be restored at a time: it is no entry, or one that
has expired, or one that does not hold a catalog. -/
def Damaged (content : ByteArray) (now : Int) : Prop :=
  ∀ e, CacheEntry.ofBytes? content = some e → e.isExpired now = false →
    Snapshot.ofJson? e.data = none

/-- From a damaged file nothing is restored, even if an entry in it is taken into memory. -/
theorem restore_of_damaged {content : ByteArray} {modified : Int} (ready : w.Ready t s)
    (new : w.cache.memory.get? s.key = none)
    (file : t.standing? w.cache.directory (Cache.fileName s.key).toList =
      some (.file content modified))
    (damaged : Damaged content now) : (w.restore t now s.key).1 = none := by
  unfold restore
  split
  · have stored : w.cache.stored? t s.key = CacheEntry.ofBytes? content := by
      rw [Cache.stored?, file, Cache.entryIn?]
    cases entry : CacheEntry.ofBytes? content with
    | none =>
      rw [Cache.get_of_stored_none s.key_ne ready.clean new (stored.trans entry)]
      rfl
    | some e =>
      cases expired : e.isExpired now with
      | true =>
        rw [Cache.get_of_stored_expired s.key_ne new (stored.trans entry) expired]
        rfl
      | false =>
        rw [Cache.get_of_stored s.key_ne new (stored.trans entry) expired]
        simp only [Option.bind_some, damaged e entry expired, Option.map_none]
  · rfl

/-- Where there is no file, nothing is restored, and nothing changes. -/
theorem restore_of_missing (clean : w.cache.Clean t s.key) (new : w.cache.memory.get? s.key = none)
    (missing : t.standing? w.cache.directory (Cache.fileName s.key).toList = none) (now : Int) :
    w.restore t now s.key = (none, w.cache, t) := by
  have stored : w.cache.stored? t s.key = none := by
    rw [Cache.stored?, missing]
    rfl
  unfold restore
  split
  · rw [Cache.get_of_stored_none s.key_ne clean new stored]
    rfl
  · rfl

/-- An unforced analysis for which nothing is restored builds a catalog. -/
theorem analyzeRoot_of_restore_none (missing : (w.restore t now s.key).1 = none) :
    ∃ cache u, w.consult t now s.key false = (none, cache, u) ∧
      w.analyzeRoot t now s.root s.included s.excluded false =
        (w.onto cache t s).build u now s.key s.root s.filter := by
  rcases restored : w.restore t now s.key with ⟨found, cache, u⟩
  rw [restored] at missing
  obtain rfl : found = none := missing
  have consulted := (consult_unforced s.key).trans restored
  exact ⟨cache, u, consulted, analyzeRoot_built consulted⟩

theorem subject_dropFile (ready : w.Ready t s) (o : AnalyzeOptions) :
    w.subject (w.cache.dropFile t s.key) o = w.subject t o := by
  refine subject_congr (v := w) (w := w) rfl ?_
  cases o.projectPath.toList with
  | nil => simp [FileTree.isDirectory, FileTree.place?]
  | cons c cs =>
    rw [FileTree.isDirectory_eq (by simp), FileTree.isDirectory_eq (by simp),
      Cache.seat?_dropFile ready.wellFormed ready.clean s.key_ne]

/-! ### The next analysis -/

/-- A workspace that may be asked next: it has the same cache directory, the file of the key is as the
analysis left it, and in memory it has nothing else under the key. Such are the workspace of the
analysis itself and every new one. -/
structure Follows (v : Workspace) (u : FileTree) (a : Analysis) (key : String) : Prop where
  directory : v.cache.directory = a.workspace.cache.directory
  file : u.standing? v.cache.directory (Cache.fileName key).toList =
    a.tree.standing? a.workspace.cache.directory (Cache.fileName key).toList
  memory : ∀ e, v.cache.memory.get? key = some e → a.workspace.cache.memory.get? key = some e

theorem follows_self (a : Analysis) (key : String) : a.workspace.Follows a.tree a key :=
  ⟨rfl, rfl, fun _ h => h⟩

theorem follows_create {config : Config} {dir : String} {a : Analysis}
    (directory : (create config dir).cache.directory = a.workspace.cache.directory) (key : String) :
    (create config dir).Follows a.tree a key := by
  refine ⟨directory, by rw [directory], fun e found => ?_⟩
  cases found

variable {a : Analysis}

/-- What it looks up is the entry that was filed. -/
theorem Follows.entry (follows : v.Follows u a s.key) (filed : w.Filed now s a)
    (enabled : w.config.cache.enabled) :
    v.cache.stored? u s.key = some (w.entryOf now a.workspace.catalog) ∧
      ∀ e, v.cache.memory.get? s.key = some e → e = w.entryOf now a.workspace.catalog := by
  rw [Filed, if_pos enabled] at filed
  obtain ⟨memory, stored⟩ := filed
  refine ⟨?_, fun e found => ?_⟩
  · rw [Cache.stored?, follows.file]
    exact stored
  · have same := follows.memory e found
    rw [memory] at same
    exact (Option.some.inj same).symm

/-- An entry that has expired is not restored. -/
theorem restore_of_expired {e : CacheEntry} (expired : e.isExpired later)
    (stored : v.cache.stored? u s.key = some e)
    (memory : ∀ d, v.cache.memory.get? s.key = some d → d = e) :
    (v.restore u later s.key).1 = none := by
  unfold restore
  split
  · cases found : v.cache.memory.get? s.key with
    | some d =>
      obtain rfl := memory d found
      rw [Cache.get_of_memory_expired found expired]
      rfl
    | none =>
      rw [Cache.get_of_stored_expired s.key_ne found stored expired]
      rfl
  · rfl

/-- The next analysis gives the filed catalog while its entry lives, unless the time to live is too
large. -/
theorem Follows.analyzeRoot (follows : v.Follows u a s.key) (filed : w.Filed now s a)
    (enabled : w.config.cache.enabled) (ttl : isUnsigned64 w.config.cache.ttl)
    (room : a.workspace.catalog.Fits) (enabled' : v.config.cache.enabled)
    (span : isSigned64 (later - now)) :
    (w.config.cache.ttl < signedLimit → later - now ≤ w.config.cache.ttl →
      (v.analyzeRoot u later s.root s.included s.excluded false).summary =
          .ofCatalog a.workspace.catalog true ∧
        (v.analyzeRoot u later s.root s.included s.excluded false).workspace.catalog =
          a.workspace.catalog) ∧
    (signedLimit ≤ w.config.cache.ttl → now ≤ later →
      (v.analyzeRoot u later s.root s.included s.excluded false).summary.fromCache = false) := by
  obtain ⟨stored, memory⟩ := follows.entry filed enabled
  refine ⟨fun bounded living => ?_, fun large after => ?_⟩
  · obtain ⟨cache, restored⟩ := Site.restore_of_entry enabled' s.key_ne room rfl
      (CacheEntry.isExpired_eq_false rfl bounded span living) stored memory
    rw [analyzeRoot_restored ((consult_unforced s.key).trans restored)]
    exact ⟨rfl, rfl⟩
  · have expired := CacheEntry.isExpired_of_signedLimit_le
      (e := w.entryOf now a.workspace.catalog) rfl ttl large span after
    obtain ⟨cache, x, _, built⟩ :=
      analyzeRoot_of_restore_none (restore_of_expired expired stored memory)
    rw [built]
    rfl

/-- An analysis whose cache file is damaged goes on as one without that file, and leaves a cache from
which the next one is served. Let a workspace that has nothing in memory for a subject find a damaged
file for it, in a cache directory that is no part of the project. Then its analysis builds a catalog,
the same that it builds when there is no file, but for the time; and memory and file hold that catalog
afterwards. An unforced analysis that follows while no more time has passed than the entry may live
gives the same catalog from the cache, if that time is a signed integer of 64 bits; if it is not, no
analysis that follows is served from the cache. -/
theorem analyze_damaged {content : ByteArray} {modified : Int} (ready : w.Ready t s)
    (enabled : w.config.cache.enabled) (clock : isSigned64 now) (unforced : o.force = false)
    (subject : w.subject t o = .ok s) (new : w.cache.memory.get? s.key = none)
    (file : t.standing? w.cache.directory (Cache.fileName s.key).toList =
      some (.file content modified))
    (damaged : Damaged content now)
    (rules : Resolver.SameProjectFiles t (w.cache.dropFile t s.key) s.root.toList) (now₀ : Int) :
    ∃ a a₀, w.analyze t now o = .ok a ∧ w.analyze (w.cache.dropFile t s.key) now₀ o = .ok a₀ ∧
      a.summary.fromCache = false ∧ a₀.Agrees a ∧ w.Filed now s a ∧
      ∀ (v : Workspace) (u : FileTree) (later : Int) (o' : AnalyzeOptions),
        v.Follows u a s.key → v.config.cache.enabled → o'.force = false →
        v.subject u o' = .ok s → isSigned64 (later - now) →
        ∃ b, v.analyze u later o' = .ok b ∧
          (w.config.cache.ttl < signedLimit → later - now ≤ w.config.cache.ttl →
            b.summary = { a.summary with fromCache := true } ∧
              b.workspace.catalog = a.workspace.catalog) ∧
          (signedLimit ≤ w.config.cache.ttl → now ≤ later → b.summary.fromCache = false) := by
  obtain ⟨cache, x, consulted, built⟩ :=
    analyzeRoot_of_restore_none (restore_of_damaged ready new file damaged)
  have filed := ready.filed_build subject clock enabled consulted t built.symm
  have room := (sound_build ready.wellFormed ready.measured clock subject consulted t).2
  rw [← built] at room
  have tree := (w.consult_spec t now s.key false).2
  simp only [consulted] at tree
  -- the same analysis with the file gone
  have missing := restore_of_missing (ready.clean.dropFile ready.wellFormed s.key_ne) new
    (Cache.standing?_dropFile ready.wellFormed ready.clean s.key_ne) now₀
  have built₀ := analyzeRoot_built ((consult_unforced s.key).trans missing)
  have below : (w.cache.dropFile t s.key).SameBelow x s.root.toList := by
    rcases tree with same | dropped
    · rw [same]
      exact ready.sameBelow.symm
    · rw [dropped]
      exact .refl _ _
  refine ⟨w.analyzeRoot t now s.root s.included s.excluded false,
    w.analyzeRoot (w.cache.dropFile t s.key) now₀ s.root s.included s.excluded false, ?_, ?_, ?_, ?_,
    filed, fun v u later o' follows enabled' unforced' subject' span => ?_⟩
  · rw [analyze_eq, subject, unforced, Except.map]
  · rw [analyze_eq, subject_dropFile ready, subject, unforced, Except.map]
  · rw [built]
    rfl
  · rw [built, built₀]
    exact build_agrees rfl (Cache.wellFormed_dropFile ready.wellFormed _ _) below
      (Resolver.load_congr rules).symm
  · obtain ⟨served, expired⟩ := follows.analyzeRoot filed enabled ready.ttl room enabled' span
    refine ⟨v.analyzeRoot u later s.root s.included s.excluded false, ?_, fun bounded living => ?_,
      expired⟩
    · rw [analyze_eq, subject', unforced', Except.map]
    · obtain ⟨totals, catalog⟩ := served bounded living
      refine ⟨?_, catalog⟩
      rw [totals, built]
      rfl

/-! ### The sample project -/

theorem standing?_damagedProject :
    damagedProject.standing? "/c".toList (Cache.fileName sampleSubject.key).toList =
      some (.file "x".toUTF8 3) := by
  rw [FileTree.standing?_of_seat? seat?_damagedProject, FileTree.node?, if_neg (by simp)]
  simp [damagedProject, sampleProject, lookup_cons_ite]

/-- A new workspace analyzes the project in spite of the damaged file; the next analysis is served
from the cache, be it by a new workspace or by the same. -/
theorem analyze_damagedProject : ∃ a b c,
    (create {} "/c").analyze damagedProject 0 (sampleOptions false) = .ok a ∧
      a.summary.fromCache = false ∧
      (create {} "/c").analyze a.tree 1 (sampleOptions false) = .ok b ∧
      b.summary.fromCache = true ∧ b.workspace.catalog = a.workspace.catalog ∧
      a.workspace.analyze a.tree 1 (sampleOptions false) = .ok c ∧
      c.summary.fromCache = true ∧ c.workspace.catalog = a.workspace.catalog := by
  have subject := (create {} "/c").subject_sampleOptions false isDirectory_damagedProject
  have damaged : Damaged "x".toUTF8 0 := by
    have none : CacheEntry.ofBytes? "x".toUTF8 = none := by decide +kernel
    intro e entry
    rw [none] at entry
    cases entry
  obtain ⟨a, _, first, _, built, _, _, next⟩ := analyze_damaged
    (ready_damagedProject rfl (by decide)) rfl (by decide) rfl subject rfl standing?_damagedProject
    damaged (sameProjectFiles_damagedProject .refl (Cache.partOf_dropFile _ _ _)) 0
  -- in the tree that the analysis leaves the root is still a directory
  obtain ⟨s, same, result⟩ := analyze_eq_ok first
  obtain rfl := Except.ok.inj (same.symm.trans subject)
  have works : Cache.Works sampleSubject.key (create {} "/c").cache damagedProject
      a.workspace.cache a.tree := by
    rw [result]
    exact works_analyzeRoot wellFormed_damagedProject (tidy_damagedProject rfl)
  have root : a.tree.isDirectory "/p".toList = true := by
    have seat := works.keeps.seat? (FileTree.seat?_of_place? place?_damagedProject (by rfl))
    rw [FileTree.isDirectory_eq (by decide), seat]
    rfl
  have config : a.workspace.config = (create {} "/c").config := by
    rw [result]
    exact config_analyzeRoot _ _ _ sampleSubject _
  have served : ∀ v : Workspace, v.Follows a.tree a sampleSubject.key → v.config.cache.enabled →
      ∃ b, v.analyze a.tree 1 (sampleOptions false) = .ok b ∧ b.summary.fromCache = true ∧
        b.workspace.catalog = a.workspace.catalog := by
    intro v follows enabled
    obtain ⟨b, second, living, _⟩ := next v a.tree 1 (sampleOptions false) follows enabled rfl
      (v.subject_sampleOptions false root) (by decide)
    obtain ⟨totals, catalog⟩ := living (by decide) (by decide)
    exact ⟨b, second, by rw [totals], catalog⟩
  obtain ⟨b, second⟩ := served _ (follows_create works.directory.symm _) rfl
  obtain ⟨c, third⟩ := served _ (follows_self a _) (by rw [config]; rfl)
  exact ⟨a, b, c, first, built, second.1, second.2.1, second.2.2, third⟩

end Workspace

end SourceAtlas
