import SourceAtlas.Proofs.Cache.FileName
import SourceAtlas.Proofs.Cache.Sharing
/-!
What is left of a cache once it was cleared: nothing of any key but the empty one. Clearing goes by the
extension of the names in the directory, and each key has a file whose name has that extension, except
for the empty key, whose file is all extension and so has none. What is gone stays away until a key with
the same file is set, whichever cache on the directory is asked and whatever else is asked of them.
-/

namespace SourceAtlas

/-- The request sets a key whose file is that of the given key. -/
def CacheRequest.Refills (key : String) : CacheRequest → Prop
  | .set k _ _ => Cache.fileName k = Cache.fileName key
  | _ => False

namespace Cache

variable {c : Cache} {t u : FileTree} {p : Place} {key k : String} {now : Int}

/-! ### The names for a key -/

theorem fileName_empty : (fileName "").toList = ".json".toList := by decide

/-- Every key has a draft: a reserved name beside that of its file. -/
theorem exists_draft (c : Cache) (key : String) :
    ∃ draft, Path.isPlainName draft ∧ isReserved draft ∧ (∀ k, (fileName k).toList ≠ draft) ∧
      Path.withExtension (c.pathOf key) "json.tmp".toList = Path.join c.directory draft := by
  by_cases empty : key = ""
  · -- the file of the empty key has no extension that the draft could replace
    subst empty
    refine ⟨".json".toList ++ '.' :: "json.tmp".toList, by decide, by decide,
      fun k => fileName_ne_tmp k _, ?_⟩
    rw [pathOf, fileName_empty]
    exact Path.withExtension_join_bare (by decide) (by decide) (by decide) c.directory
  · exact ⟨draftName key, isPlainName_draftName empty, isReserved_draftName key,
      fun k => fileName_ne_draftName k key, withExtension_pathOf c empty⟩

/-! ### Directories in use -/

/-- The cache can use its directory: nothing but files stands under the reserved names, and a directory
that is not there yet will have none of them when it is made. -/
structure Usable (c : Cache) (t : FileTree) : Prop where
  filled : c.directory ≠ []
  wellFormed : t.WellFormed
  tidy : c.Tidy t
  absent : t.seat? c.directory = none → ∀ name, isReserved name → t.held? c.directory name = none

/-- Under each name in the directory the second tree has what the first one has, or nothing. -/
def Loses (c : Cache) (t u : FileTree) : Prop :=
  ∀ name, u.held? c.directory name = none ∨ u.held? c.directory name = t.held? c.directory name

theorem Loses.refl : c.Loses t t := fun _ => .inr rfl

theorem Loses.held? (h : c.Loses t u) {name : List Char} (gone : t.held? c.directory name = none) :
    u.held? c.directory name = none := by
  rcases h name with none | same
  · exact none
  · exact same.trans gone

namespace Usable

/-- The memory of a cache has no part in it. -/
theorem of_directory {d : Cache} (h : c.Usable t) (same : d.directory = c.directory) : d.Usable t :=
  ⟨same ▸ h.filled, h.wellFormed, h.tidy.of_directory same, same ▸ h.absent⟩

/-- A directory that is there is still fit for use when nothing but files has come into it. -/
theorem of_seat? (h : c.Usable t) (wf : u.WellFormed) (seat : u.seat? c.directory = some p)
    (less : ∀ name, u.held? c.directory name = none ∨
      u.held? c.directory name = t.held? c.directory name ∨
      ∃ content modified, u.held? c.directory name = some (.file content modified)) : c.Usable u := by
  refine ⟨h.filled, wf, h.tidy.of_held? fun name _ n node => ?_, by simp [seat]⟩
  rcases less name with none | same | ⟨content, modified, file⟩
  · rw [none] at node
    cases node
  · exact .inl (same ▸ node)
  · exact .inr ⟨content, modified, Option.some.inj (node.symm.trans file)⟩

/-- Dropping the file of any key brings nothing into the directory. -/
theorem dropFile (h : c.Usable t) (key : String) :
    c.Usable (c.dropFile t key) ∧ c.Loses t (c.dropFile t key) := by
  have plain := isPlainName_fileName_all key
  cases seat : t.seat? c.directory with
  | none =>
    have entry : t.entry? (c.pathOf key) = none := by
      rw [pathOf, FileTree.entry?_join plain, seat, Option.map_none]
    have same : c.dropFile t key = t := by
      rw [Cache.dropFile, FileTree.removeFile, entry]
      rfl
    rw [same]
    exact ⟨h, .refl⟩
  | some p =>
    have dropped : t.Becomes (c.dropFile t key) (p ++ [(fileName key).toList]) none :=
      FileTree.removeFile_join plain h.wellFormed seat (h.tidy.open (isReserved_fileName key) seat)
    have seat' := dropped.keeps.seat? seat
    have loses : c.Loses t (c.dropFile t key) := by
      intro name
      rw [FileTree.held?_of_seat? seat', FileTree.held?_of_seat? seat, dropped.node?]
      split
      · exact .inl rfl
      · exact .inr rfl
    exact ⟨h.of_seat? dropped.wellFormed seat' fun name => (loses name).imp_right .inl, loses⟩

/-- Writing the file of any key leaves those of the others, and the entry stands in it if its directory
can be made. -/
theorem writeFile (h : c.Usable t) (now : Int) (key : String) (e : CacheEntry) :
    c.Usable (c.writeFile t now key e) ∧
      (∀ k, fileName k ≠ fileName key →
        (c.writeFile t now key e).held? c.directory (fileName k).toList =
          t.held? c.directory (fileName k).toList) ∧
      ((t.makeDirectories c.directory).isSome →
        (c.writeFile t now key e).standing? c.directory (fileName key).toList =
          some (.file e.bytes now)) := by
  cases made : t.makeDirectories c.directory with
  | none =>
    have same : c.writeFile t now key e = t := by simp only [Cache.writeFile, made]
    rw [same]
    exact ⟨h, fun _ _ => rfl, fun there => by cases there⟩
  | some u =>
    obtain ⟨wf', _, p, seat⟩ := FileTree.makeDirectories_spec h.wellFormed made
    have held := FileTree.held?_makeDirectories h.wellFormed made
    have free : ∀ name, isReserved name → u.Open (p ++ [name]) := by
      intro name reserved n node
      refine h.tidy name reserved n ?_
      rw [← held, FileTree.held?_of_seat? seat, node]
    obtain ⟨draft, plainDraft, reserved, apart, path⟩ := exists_draft c key
    obtain ⟨v, w, written, moved, wf'', keeps, nodes⟩ := FileTree.write_move_join wf' seat plainDraft
      (isPlainName_fileName_all key) (apart key) (free draft reserved)
      (free _ (isReserved_fileName key)) e.bytes now
    have result : c.writeFile t now key e = w := by
      simp only [Cache.writeFile, made, path]
      rw [← CacheEntry.bytes, written]
      simp only [pathOf, moved, Option.getD_some]
    have seat' := keeps.seat? seat
    rw [result]
    refine ⟨h.of_seat? wf'' seat' fun name => ?_, fun k other => ?_, fun _ => ?_⟩
    · rw [FileTree.held?_of_seat? seat', nodes, ← held, FileTree.held?_of_seat? seat]
      split
      · exact .inr (.inr ⟨_, _, rfl⟩)
      · split
        · exact .inl rfl
        · exact .inr (.inl rfl)
    · have file : p ++ [(fileName k).toList] ≠ p ++ [(fileName key).toList] := by
        simpa [String.toList_inj] using other
      have temporary : p ++ [(fileName k).toList] ≠ p ++ [draft] := by simpa using apart k
      rw [FileTree.held?_of_seat? seat', nodes, if_neg file, if_neg temporary, ← held,
        FileTree.held?_of_seat? seat]
    · rw [FileTree.standing?_of_seat? seat', nodes, if_pos rfl]

/-- Clearing brings nothing into the directory. -/
theorem clear (h : c.Usable t) : c.Usable (c.clear t).2 ∧ c.Loses t (c.clear t).2 := by
  cases seat : t.seat? c.directory with
  | none =>
    rw [clear_of_no_seat h.filled seat]
    exact ⟨h, .refl⟩
  | some p =>
    obtain ⟨wf', seat', _, loses⟩ := clear_of_seat? h.wellFormed h.tidy h.filled seat
    exact ⟨h.of_seat? wf' seat' fun name => (loses name).imp_right .inl, loses⟩

/-- A look-up takes away at most the file of its key. -/
theorem get (h : c.Usable t) (now : Int) (key : String) :
    c.Usable (c.get t now key).2.2 ∧ c.Loses t (c.get t now key).2.2 := by
  rcases c.get_tree_cases t now key with same | dropped
  · rw [same]
    exact ⟨h, .refl⟩
  · rw [dropped]
    exact h.dropFile key

end Usable

/-! ### Requests -/

theorem directory_serve (now : Int) (r : CacheRequest) (s : Cache × FileTree) :
    (serve now r s).2.1.directory = s.1.directory := by
  obtain ⟨c, t⟩ := s
  cases r with
  | get k => exact get_directory c t now k
  | set k data ttl => rfl
  | delete k => rfl
  | clear => rfl
  | renew => rfl

/-- A request keeps the directory fit for use, and brings back no file of a key but by setting it. -/
theorem Usable.serve (h : c.Usable t) (now : Int) (r : CacheRequest) :
    c.Usable (serve now r (c, t)).2.2 ∧ ∀ key, ¬r.Refills key →
      t.held? c.directory (fileName key).toList = none →
      (Cache.serve now r (c, t)).2.2.held? c.directory (fileName key).toList = none := by
  have less : ∀ {u : FileTree}, c.Usable u ∧ c.Loses t u → c.Usable u ∧ ∀ key, ¬r.Refills key →
      t.held? c.directory (fileName key).toList = none →
        u.held? c.directory (fileName key).toList = none :=
    fun ⟨usable, loses⟩ => ⟨usable, fun _ _ gone => loses.held? gone⟩
  cases r with
  | set k data ttl =>
    obtain ⟨usable, held, _⟩ := h.writeFile now k ⟨data, now, ttl⟩
    refine ⟨usable, fun key other gone => ?_⟩
    exact (held key fun same => other same.symm).trans gone
  | get k => exact less (h.get now k)
  | delete k =>
    simp only [Cache.serve, Cache.delete]
    exact less (h.dropFile k)
  | clear => exact less h.clear
  | renew => exact less ⟨h, .refl⟩

/-- So do requests that are answered one after the other. -/
theorem Usable.serveAll (h : c.Usable t) (rs : List (Int × CacheRequest)) :
    (serveAll rs (c, t)).2.1.Usable (serveAll rs (c, t)).2.2 := by
  induction rs generalizing c t with
  | nil => exact h
  | cons head rs ih =>
    obtain ⟨now, r⟩ := head
    exact ih ((h.serve now r).1.of_directory (directory_serve now r (c, t)))

/-! ### Look-ups of what is gone -/

/-- The cache has nothing of a key: no copy in memory, and no file in the directory. -/
structure Lacks (c : Cache) (t : FileTree) (key : String) : Prop where
  memory : c.memory.get? key = none
  held : t.held? c.directory (fileName key).toList = none

/-- The file of a key is read where it stands. -/
theorem find?_pathOf (h : c.Usable t) (key : String) :
    t.find? (c.pathOf key) = t.standing? c.directory (fileName key).toList := by
  refine FileTree.find?_join (isPlainName_fileName_all key) fun p target seat link => ?_
  obtain ⟨_, _, file⟩ := h.tidy.open (isReserved_fileName key) seat _ link
  cases file

theorem filed?_eq_none (h : c.Usable t) (gone : t.held? c.directory (fileName key).toList = none) :
    c.filed? t key = none := by
  have nothing : t.standing? c.directory (fileName key).toList = none := by
    cases standing : t.standing? c.directory (fileName key).toList with
    | none => rfl
    | some n =>
      rw [FileTree.held?_of_standing? standing] at gone
      cases gone
  rw [filed?, FileTree.readText?, find?_pathOf h, nothing]
  rfl

/-- What is not there is not found. -/
theorem Lacks.get (h : c.Lacks t key) (usable : c.Usable t) (now : Int) :
    (c.get t now key).1 = none := by
  have nothing : c.deciding? t key = none := by
    rw [deciding?, h.memory, filed?_eq_none usable h.held]
    rfl
  rcases c.getAmid_cases t t now key with
    ⟨_, answer, _⟩ | ⟨e, found, _⟩ | ⟨e, found, _⟩
  · rw [getAmid_self] at answer
    exact answer
  · cases nothing.symm.trans found
  · cases nothing.symm.trans found

/-- What is not there does not come into memory unless it is set. -/
theorem Lacks.memory_serve (h : c.Lacks t key) (usable : c.Usable t) {r : CacheRequest}
    (unset : ¬r.Refills key) (now : Int) : (serve now r (c, t)).2.1.memory.get? key = none := by
  cases found : (serve now r (c, t)).2.1.memory.get? key with
  | none => rfl
  | some e =>
    have there : ((CacheEvent.request now r).apply (c, t)).1.memory.get? key = some e := found
    rcases memory_apply there with before | puts
    · rw [h.memory] at before
      cases before
    · cases r with
      | set k data ttl => exact absurd (congrArg fileName puts.1) unset
      | get k =>
        obtain ⟨rfl, filed⟩ := puts
        rw [filed?_eq_none usable h.held] at filed
        cases filed
      | delete k => cases puts
      | clear => cases puts
      | renew => cases puts

end Cache

/-! ### Caches side by side -/

/-- Caches on one directory, told apart by numbers. Each has its own memory. -/
structure Caches where
  directory : List Char
  memory : Nat → TextMap CacheEntry
  tree : FileTree

namespace Caches

/-- A cache with the number 0, and beside it fresh ones on its directory. -/
def beside (s : Cache × FileTree) : Caches :=
  ⟨s.1.directory, fun i => if i = 0 then s.1.memory else .empty, s.2⟩

/-- The cache with a number. -/
def cache (s : Caches) (i : Nat) : Cache := ⟨s.directory, s.memory i⟩

/-- What a cache answers to a request. -/
def answer (s : Caches) (i : Nat) (now : Int) (r : CacheRequest) : Option Json :=
  (Cache.serve now r (s.cache i, s.tree)).1

/-- The caches after one of them answered a request. -/
def serve (s : Caches) (i : Nat) (now : Int) (r : CacheRequest) : Caches :=
  let (_, c, t) := Cache.serve now r (s.cache i, s.tree)
  { s with memory := fun j => if j = i then c.memory else s.memory j, tree := t }

/-- The caches after requests, each to one of them at its time. -/
def serveAll (s : Caches) (rs : List (Nat × Int × CacheRequest)) : Caches :=
  rs.foldl (fun s r => s.serve r.1 r.2.1 r.2.2) s

/-- None of the caches has anything of a key, and all of them can use the directory. -/
structure Lack (s : Caches) (key : String) : Prop where
  usable : ∀ i, (s.cache i).Usable s.tree
  lacks : ∀ i, (s.cache i).Lacks s.tree key

variable {s : Caches} {key : String}

/-- One request that does not set the key leaves it missing, -/
theorem Lack.serve (h : s.Lack key) {r : CacheRequest} (unset : ¬r.Refills key) (i : Nat) (now : Int) :
    (s.serve i now r).Lack key := by
  obtain ⟨usable, held⟩ := (h.usable i).serve now r
  have memory := (h.lacks i).memory_serve (h.usable i) unset now
  refine ⟨fun j => usable.of_directory rfl, fun j => ⟨?_, held key unset (h.lacks i).held⟩⟩
  by_cases same : j = i
  · simp only [cache, Caches.serve, same, if_true]
    exact memory
  · simp only [cache, Caches.serve, same, if_false]
    exact (h.lacks j).memory

/-- and so does any run of them. -/
theorem Lack.serveAll (h : s.Lack key) {rs : List (Nat × Int × CacheRequest)}
    (unset : ∀ r ∈ rs, ¬r.2.2.Refills key) : (s.serveAll rs).Lack key := by
  induction rs generalizing s with
  | nil => exact h
  | cons r rs ih =>
    exact ih (h.serve (unset r List.mem_cons_self) r.1 r.2.1)
      fun d hd => unset d (List.mem_cons_of_mem _ hd)

theorem Lack.answer (h : s.Lack key) (i : Nat) (now : Int) : s.answer i now (.get key) = none :=
  (h.lacks i).get (h.usable i) now

end Caches

namespace Cache

variable {c : Cache} {t : FileTree} {key : String}

/-- Clearing takes away all that there is of a key with a name. -/
theorem lack_clear (h : c.Usable t) (ne : key ≠ "") : (Caches.beside (c.clear t)).Lack key := by
  have empty : ∀ i, (Caches.beside (c.clear t)).memory i = .empty := by
    intro i
    simp only [Caches.beside, clear]
    split <;> rfl
  refine ⟨fun i => h.clear.1.of_directory rfl, fun i => ⟨?_, ?_⟩⟩
  · rw [Caches.cache, empty]
    rfl
  · show (c.clear t).2.held? c.directory (fileName key).toList = none
    cases seat : t.seat? c.directory with
    | none =>
      rw [clear_of_no_seat h.filled seat]
      exact h.absent seat _ (isReserved_fileName key)
    | some p => exact (clear_of_seat? h.wellFormed h.tidy h.filled seat).2.2.1 key ne

/-- The file of the empty key has no extension. -/
theorem extension?_pathOf_empty (c : Cache) : Path.extension? (c.pathOf "") = none := by
  have plain : Path.isPlainName ".json".toList := by decide
  have split : Path.splitName ".json".toList = (".json".toList, none) := by decide
  rw [pathOf, fileName_empty, Path.extension?, Path.fileName?_join plain, Option.bind_some, split]

/-- Clearing spares the file of the empty key. -/
theorem filed?_clear_empty (h : c.Usable t) : c.filed? (c.clear t).2 "" = c.filed? t "" := by
  have standing : (c.clear t).2.standing? c.directory (fileName "").toList =
      t.standing? c.directory (fileName "").toList := by
    cases seat : t.seat? c.directory with
    | none => rw [clear_of_no_seat h.filled seat]
    | some p =>
      obtain ⟨_, seat', held⟩ := held?_clear h.wellFormed h.tidy h.filled seat
      have safe : (fileName "").toList ∉ c.doomed t := by
        intro mem
        have named := (List.mem_filter.1 mem).2
        rw [← pathOf, extension?_pathOf_empty] at named
        cases named
      have kept := held (fileName "").toList
      rw [if_neg safe, FileTree.held?_of_seat? seat', FileTree.held?_of_seat? seat] at kept
      rw [FileTree.standing?_of_seat? seat', FileTree.standing?_of_seat? seat, kept]
  rw [filed?, filed?, FileTree.readText?, FileTree.readText?, find?_pathOf h.clear.1, find?_pathOf h,
    standing]

/-- The answer of a cache with nothing in memory is the entry in the file, if it lives. -/
theorem get_of_filed? (missing : c.memory.get? key = none) (t : FileTree) (now : Int) :
    (c.get t now key).1 =
      (c.filed? t key).bind fun e => if e.isExpired now then none else some e.data := by
  rw [← getAmid_self, getAmid, missing]
  cases c.filed? t key with
  | none => rfl
  | some e => cases expired : e.isExpired now <;> simp [expired]

/-- Whatever was asked of a cache before it is cleared: afterwards it and all fresh caches on its
directory miss every key but the empty one, until a key with the same file is set. Of the empty key
they find what a fresh cache would have found had it not been cleared. -/
theorem clear_empties (h : c.Usable t) (before : List (Int × CacheRequest)) :
    let s := (serveAll before (c, t)).2
    (∀ key, key ≠ "" → ∀ later : List (Nat × Int × CacheRequest),
      (∀ r ∈ later, ¬r.2.2.Refills key) → ∀ i now,
        ((Caches.beside (s.1.clear s.2)).serveAll later).answer i now (.get key) = none) ∧
      ∀ i now, (Caches.beside (s.1.clear s.2)).answer i now (.get "") =
        (Caches.beside (s.1.fresh, s.2)).answer i now (.get "") := by
  intro s
  have usable : s.1.Usable s.2 := h.serveAll before
  refine ⟨fun key ne later unset i now => ((lack_clear usable ne).serveAll unset).answer i now,
    fun i now => ?_⟩
  have cleared : ((Caches.beside (s.1.clear s.2)).cache i).memory.get? "" = none := by
    simp only [Caches.cache, Caches.beside, clear]
    split <;> rfl
  have fresh : ((Caches.beside (s.1.fresh, s.2)).cache i).memory.get? "" = none := by
    simp only [Caches.cache, Caches.beside, Cache.fresh]
    split <;> rfl
  rw [Caches.answer, Caches.answer]
  simp only [serve]
  rw [get_of_filed? cleared, get_of_filed? fresh]
  have kept : s.1.filed? (s.1.clear s.2).2 "" = s.1.filed? s.2 "" := filed?_clear_empty usable
  exact congrArg (Option.bind · _) kept

/-- What was set under the empty key is still found when all was cleared, if it could be written and
has not expired. -/
theorem get_empty_clear (h : c.Usable t) (made : (t.makeDirectories c.directory).isSome) {e : CacheEntry}
    (fits : e.Fits) (living : e.isExpired now = false) :
    let s := c.set t e.timestamp "" e.data e.ttl
    ((s.1.clear s.2).1.get (s.1.clear s.2).2 now "").1 = some e.data := by
  obtain ⟨usable, _, stands⟩ := h.writeFile e.timestamp "" e
  have written : c.filed? (c.writeFile t e.timestamp "" e) "" = some e := by
    rw [filed?, FileTree.readText?, find?_pathOf usable, stands made]
    exact CacheEntry.ofBytes?_bytes fits
  have kept := (filed?_clear_empty usable).trans written
  intro s
  refine (get_of_filed? rfl (s.1.clear s.2).2 now).trans ((congrArg (Option.bind · _) kept).trans ?_)
  simp [living]

/-- A new cache, in a tree in which its directory is not there yet. -/
theorem usable_bareTree : Usable ⟨['/', 'c'], .empty⟩ bareTree := by
  refine ⟨by decide, by decide, fun name _ n held => ?_, fun _ name _ => bareTree_unused name⟩
  rw [bareTree_unused] at held
  cases held

/-- A key that was set is missed by the cleared cache and by another one, though other keys are set
again. -/
theorem clear_empties_shared :
    let s := (serveAll [(0, .set "a" (.nat 1) none), (1, .get "a")] (⟨['/', 'c'], .empty⟩, bareTree)).2
    ((Caches.beside (s.1.clear s.2)).serveAll
      [(1, 2, .get "a"), (0, 3, .set "b" (.nat 2) none)]).answer 1 4 (.get "a") = none := by
  have apart : fileName "b" ≠ fileName "a" := by decide
  refine (clear_empties usable_bareTree _).1 "a" (by decide) _ ?_ 1 4
  simp [CacheRequest.Refills, apart]

/-- A value under the empty key is there after everything was cleared. -/
theorem empty_key_survives :
    (serveAll [(0, .set "" (.nat 1) none), (1, .clear), (2, .get "")]
      (⟨['/', 'c'], .empty⟩, bareTree)).1 = [none, none, some (.nat 1)] := by
  have fits : CacheEntry.Fits ⟨.nat 1, 0, none⟩ := ⟨⟨rfl, by decide⟩, by decide, by simp⟩
  have made : (bareTree.makeDirectories ['/', 'c']).isSome := by decide
  have living : (⟨.nat 1, 0, none⟩ : CacheEntry).isExpired 2 = false := rfl
  have found := get_empty_clear usable_bareTree made fits living
  simp only [serveAll, serve]
  rw [found]

end Cache

end SourceAtlas
