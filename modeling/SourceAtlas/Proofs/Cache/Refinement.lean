import SourceAtlas.Proofs.Cache.Frame
/-!
A cache answers like one map. The map, a *ledger*, holds under each key the entry that was set last;
an entry that is found expired is erased. The two tiers of the cache agree with it: a file holds
exactly what the ledger has under its key, and memory holds nothing else. Each request keeps that
agreement, so the answers agree along every sequence of requests.
-/

namespace SourceAtlas

/-! ### Requests -/

/-- What can be asked of a cache. `renew` puts a new cache on the same directory in its place. -/
inductive CacheRequest where
  | set (key : String) (data : Json) (ttl : Option Nat)
  | get (key : String)
  | delete (key : String)
  | clear
  | renew

namespace CacheRequest

/-- The key that a request is about. -/
def key? : CacheRequest → Option String
  | set key _ _ => some key
  | get key => some key
  | delete key => some key
  | clear => none
  | renew => none

/-- What is set at a time survives its file. -/
def Fits (now : Int) : CacheRequest → Prop
  | set _ data ttl => CacheEntry.Fits ⟨data, now, ttl⟩
  | _ => True

end CacheRequest

/-- The keys that timed requests are about. -/
def keysOf (rs : List (Int × CacheRequest)) : List String := rs.filterMap (·.2.key?)

namespace Cache

/-- One request is answered; only a `get` has something to say. -/
def serve (now : Int) : CacheRequest → Cache × FileTree → Option Json × Cache × FileTree
  | .set key data ttl, (c, t) => (none, c.set t now key data ttl)
  | .get key, (c, t) => c.get t now key
  | .delete key, (c, t) => (none, c.delete t key)
  | .clear, (c, t) => (none, c.clear t)
  | .renew, (c, t) => (none, c.fresh, t)

/-- Requests are answered one after the other, each at its time. -/
def serveAll : List (Int × CacheRequest) → Cache × FileTree → List (Option Json) × Cache × FileTree
  | [], s => ([], s)
  | (now, r) :: rs, s =>
    let (answer, s) := serve now r s
    let (answers, s) := serveAll rs s
    (answer :: answers, s)

end Cache

/-! ### Ledgers -/

/-- One map of entries. -/
abbrev Ledger := TextMap CacheEntry

namespace Ledger

/-- The same request on a single map. -/
def serve (now : Int) : CacheRequest → Ledger → Option Json × Ledger
  | .set key data ttl, m => (none, m.insert key ⟨data, now, ttl⟩)
  | .get key, m =>
    match m.get? key with
    | none => (none, m)
    | some e => if e.isExpired now then (none, m.erase key) else (some e.data, m)
  | .delete key, m => (none, m.erase key)
  | .clear, _ => (none, .empty)
  | .renew, m => (none, m)

/-- The same requests on a single map. -/
def serveAll : List (Int × CacheRequest) → Ledger → List (Option Json) × Ledger
  | [], m => ([], m)
  | (now, r) :: rs, m =>
    let (answer, m) := serve now r m
    let (answers, m) := serveAll rs m
    (answer :: answers, m)

variable {now : Int} {key : String} {m : Ledger} {e : CacheEntry}

theorem serve_get_none (h : m.get? key = none) : serve now (.get key) m = (none, m) := by
  rw [serve, h]

theorem serve_get (h : m.get? key = some e) (living : e.isExpired now = false) :
    serve now (.get key) m = (some e.data, m) := by
  rw [serve, h]
  simp only [living]
  rfl

theorem serve_get_expired (h : m.get? key = some e) (expired : e.isExpired now) :
    serve now (.get key) m = (none, m.erase key) := by
  rw [serve, h]
  simp only [expired, if_true]

end Ledger

/-! ### Agreement -/

namespace Cache

variable {ks : List String} {c : Cache} {t : FileTree} {m : Ledger} {key : String}

/-- The files in a directory agree with a ledger on keys. A directory that is not there yet will
hold no file of the cache when it is made. -/
structure FilesAgree (ks : List String) (c : Cache) (t : FileTree) (m : Ledger) : Prop where
  /-- The empty path leads nowhere: a cache on it could write, but not be cleared. -/
  filled : c.directory ≠ []
  wellFormed : t.WellFormed
  writable : ∃ u, t.makeDirectories c.directory = some u
  tidy : c.Tidy t
  absent : t.seat? c.directory = none → ∀ name, isReserved name → t.held? c.directory name = none
  entries : ∀ k ∈ ks, entryIn? (t.held? c.directory (fileName k).toList) = m.get? k

/-- Both tiers of a cache agree with a ledger on keys. -/
structure Agrees (ks : List String) (c : Cache) (t : FileTree) (m : Ledger) : Prop where
  files : FilesAgree ks c t m
  memory : ∀ k ∈ ks, ∀ e, c.memory.get? k = some e → m.get? k = some e

/-- The file of a key holds what the ledger has. -/
theorem FilesAgree.stored? (h : FilesAgree ks c t m) (mem : key ∈ ks) :
    c.stored? t key = m.get? key := by
  rw [← h.entries key mem, Cache.stored?]
  cases seat : t.seat? c.directory with
  | none => rw [h.absent seat _ (isReserved_fileName key), FileTree.standing?, seat, Option.bind_none]
  | some p => rw [FileTree.standing?_of_seat? seat, FileTree.held?_of_seat? seat]

/-- What is in memory has no part in the agreement of the files. -/
theorem FilesAgree.remember (h : FilesAgree ks c t m) (memory : TextMap CacheEntry) :
    FilesAgree ks { c with memory } t m :=
  ⟨h.filled, h.wellFormed, h.writable, h.tidy, h.absent, h.entries⟩

theorem FilesAgree.drop (h : FilesAgree ks c t m) (ne : key ≠ "")
    (apart : ∀ k ∈ ks, fileName k = fileName key → k = key) :
    FilesAgree ks c (c.dropFile t key) (m.erase key) := by
  cases seat : t.seat? c.directory with
  | none =>
    -- nothing is there to drop, so the ledger has nothing under any key either
    have nothing : ∀ k ∈ ks, m.get? k = none := by
      intro k hk
      rw [← h.entries k hk, h.absent seat _ (isReserved_fileName k)]
      rfl
    rw [dropFile_of_no_seat ne seat]
    refine ⟨h.filled, h.wellFormed, h.writable, h.tidy, h.absent, fun k hk => ?_⟩
    rw [h.entries k hk, TextMap.get?_erase, nothing k hk]
    split <;> rfl
  | some p =>
    have works := works_dropFile h.wellFormed h.tidy ne
    have seat' := works.seat p seat
    refine ⟨h.filled, works.wellFormed, ⟨_, FileTree.makeDirectories_of_seat? seat'⟩, works.tidy,
      by simp [seat'], fun k hk => ?_⟩
    rw [held?_dropFile h.wellFormed (h.tidy.clean key) ne seat, TextMap.get?_erase]
    by_cases same : k = key
    · rw [if_pos (by rw [same]), if_pos same]
      rfl
    · rw [if_neg fun eq => same (apart k hk (String.toList_inj.1 eq)), if_neg same, h.entries k hk]

theorem FilesAgree.write (h : FilesAgree ks c t m) (ne : key ≠ "")
    (apart : ∀ k ∈ ks, fileName k = fileName key → k = key) (now : Int) {e : CacheEntry}
    (fits : e.Fits) : FilesAgree ks c (c.writeFile t now key e) (m.insert key e) := by
  obtain ⟨u, made⟩ := h.writable
  obtain ⟨_, p, seat⟩ := writeFile_made_spec h.wellFormed (h.tidy.clean key) ne made now e
  have works := works_writeFile h.wellFormed h.tidy ne now e
  refine ⟨h.filled, works.wellFormed, ⟨_, FileTree.makeDirectories_of_seat? seat⟩, works.tidy,
    by simp [seat], fun k hk => ?_⟩
  rw [held?_writeFile h.wellFormed (h.tidy.clean key) ne made now e, TextMap.get?_insert]
  by_cases same : k = key
  · rw [if_pos (by rw [same]), if_pos same]
    exact CacheEntry.ofBytes?_bytes fits
  · rw [if_neg fun eq => same (apart k hk (String.toList_inj.1 eq)),
      if_neg (fileName_ne_draftName k key), if_neg same, h.entries k hk]

theorem FilesAgree.clear (h : FilesAgree ks c t m) (named : ∀ k ∈ ks, k ≠ "") :
    FilesAgree ks c (c.clear t).2 .empty := by
  cases seat : t.seat? c.directory with
  | none =>
    rw [clear_of_no_seat h.filled seat]
    refine ⟨h.filled, h.wellFormed, h.writable, h.tidy, h.absent, fun k _ => ?_⟩
    rw [h.absent seat _ (isReserved_fileName k)]
    rfl
  | some p =>
    obtain ⟨wf, seat', gone, rest⟩ := clear_of_seat? h.wellFormed h.tidy h.filled seat
    refine ⟨h.filled, wf, ⟨_, FileTree.makeDirectories_of_seat? seat'⟩, ?_, by simp [seat'], ?_⟩
    · refine h.tidy.of_held? fun name _ n node => .inl ?_
      rcases rest name with none | same
      · rw [none] at node
        cases node
      · exact same ▸ node
    · intro k hk
      rw [gone k (named k hk)]
      rfl

/-! ### Steps and runs -/

/-- The entry of a key is deleted from both tiers. -/
theorem Agrees.delete (h : Agrees ks c t m) (ne : key ≠ "")
    (apart : ∀ k ∈ ks, fileName k = fileName key → k = key) :
    Agrees ks (c.delete t key).1 (c.delete t key).2 (m.erase key) := by
  simp only [Cache.delete]
  refine ⟨(h.files.drop ne apart).remember _, fun k hk e found => ?_⟩
  simp only [TextMap.get?_erase] at found ⊢
  split at found
  · cases found
  · rename_i other
    rw [if_neg other]
    exact h.memory k hk e found

/-- A look-up answers like the ledger and keeps the agreement, whichever tier it finds the entry in
and whether or not it has expired. -/
theorem Agrees.get (h : Agrees ks c t m) (mem : key ∈ ks) (ne : key ≠ "")
    (apart : ∀ k ∈ ks, fileName k = fileName key → k = key) (now : Int) :
    (c.get t now key).1 = (Ledger.serve now (.get key) m).1 ∧
      Agrees ks (c.get t now key).2.1 (c.get t now key).2.2 (Ledger.serve now (.get key) m).2 := by
  cases found : c.memory.get? key with
  | some e =>
    have entry := h.memory key mem e found
    cases expired : e.isExpired now with
    | true =>
      rw [get_of_memory_expired found expired, Ledger.serve_get_expired entry expired]
      exact ⟨rfl, h.delete ne apart⟩
    | false =>
      rw [get_of_memory found expired, Ledger.serve_get entry expired]
      exact ⟨rfl, h⟩
  | none =>
    have stored := h.files.stored? mem
    cases entry : m.get? key with
    | none =>
      rw [get_of_stored_none ne (h.files.tidy.clean _) found (stored.trans entry), Ledger.serve_get_none entry]
      exact ⟨rfl, h⟩
    | some e =>
      rw [entry] at stored
      cases expired : e.isExpired now with
      | true =>
        rw [get_of_stored_expired ne found stored expired,
          Ledger.serve_get_expired entry expired]
        dsimp only
        refine ⟨rfl, h.files.drop ne apart, fun k hk d there => ?_⟩
        have other : k ≠ key := by
          rintro rfl
          rw [found] at there
          cases there
        rw [TextMap.get?_erase, if_neg other]
        exact h.memory k hk d there
      | false =>
        rw [get_of_stored ne found stored expired, Ledger.serve_get entry expired]
        refine ⟨rfl, h.files.remember _, fun k hk d there => ?_⟩
        simp only [TextMap.get?_insert] at there
        split at there
        · rename_i same
          rw [same, entry, ← there]
        · exact h.memory k hk d there

/-- One request is answered alike and keeps the agreement. -/
theorem Agrees.serve (h : Agrees ks c t m) {now : Int} {r : CacheRequest} (fits : r.Fits now)
    (keys : ∀ k ∈ r.key?, k ∈ ks) (named : ∀ k ∈ ks, k ≠ "")
    (apart : ∀ k ∈ ks, ∀ l ∈ ks, fileName k = fileName l → k = l) :
    (serve now r (c, t)).1 = (Ledger.serve now r m).1 ∧
      Agrees ks (serve now r (c, t)).2.1 (serve now r (c, t)).2.2 (Ledger.serve now r m).2 := by
  cases r with
  | set key data ttl =>
    have mem : key ∈ ks := keys key rfl
    refine ⟨rfl, (h.files.write (named key mem) (fun k hk => apart k hk key mem) now fits).remember _,
      fun k hk e found => ?_⟩
    simp only [Cache.serve, Cache.set, Ledger.serve, TextMap.get?_insert] at found ⊢
    split at found
    · rename_i same
      rw [if_pos same, found]
    · rename_i other
      rw [if_neg other]
      exact h.memory k hk e found
  | get key =>
    have mem : key ∈ ks := keys key rfl
    exact h.get mem (named key mem) (fun k hk => apart k hk key mem) now
  | delete key =>
    have mem : key ∈ ks := keys key rfl
    exact ⟨rfl, h.delete (named key mem) fun k hk => apart k hk key mem⟩
  | clear =>
    refine ⟨rfl, (h.files.clear named).remember _, fun k hk e found => ?_⟩
    cases found
  | renew =>
    refine ⟨rfl, h.files.remember _, fun k hk e found => ?_⟩
    cases found

/-- A whole run is answered alike and keeps the agreement. -/
theorem Agrees.serveAll (h : Agrees ks c t m) (named : ∀ k ∈ ks, k ≠ "")
    (apart : ∀ k ∈ ks, ∀ l ∈ ks, fileName k = fileName l → k = l) {rs : List (Int × CacheRequest)}
    (fits : ∀ r ∈ rs, r.2.Fits r.1) (keys : ∀ k ∈ keysOf rs, k ∈ ks) :
    (serveAll rs (c, t)).1 = (Ledger.serveAll rs m).1 ∧
      Agrees ks (serveAll rs (c, t)).2.1 (serveAll rs (c, t)).2.2 (Ledger.serveAll rs m).2 := by
  induction rs generalizing c t m with
  | nil => exact ⟨rfl, h⟩
  | cons head rs ih =>
    obtain ⟨now, r⟩ := head
    obtain ⟨first, agrees⟩ := h.serve (fits (now, r) List.mem_cons_self)
      (fun k hk => keys k (List.mem_filterMap.2 ⟨(now, r), List.mem_cons_self, hk⟩)) named apart
    have keys' : ∀ k ∈ keysOf rs, k ∈ ks := by
      intro k hk
      obtain ⟨d, hd, key⟩ := List.mem_filterMap.1 hk
      exact keys k (List.mem_filterMap.2 ⟨d, List.mem_cons_of_mem _ hd, key⟩)
    obtain ⟨rest, agrees'⟩ := ih agrees (fun d hd => fits d (List.mem_cons_of_mem _ hd)) keys'
    exact ⟨congr (congrArg List.cons first) rest, agrees'⟩

/-- A new cache on an unused directory answers every sequence of requests as one map would. In the
end the file of each key holds what the map has under it, and memory has nothing that the map has
not: what the map lost is gone from both tiers. The directory need not be there, but once it is made
the path of the cache has to lead to it. -/
theorem serveAll_eq_ledger {rs : List (Int × CacheRequest)} {u : FileTree} (new : c.memory = .empty)
    (wf : t.WellFormed) (made : t.makeDirectories c.directory = some u)
    (directory : u.isDirectory c.directory)
    (unused : ∀ name, isReserved name → t.held? c.directory name = none)
    (named : ∀ k ∈ keysOf rs, k ≠ "")
    (apart : ∀ k ∈ keysOf rs, ∀ l ∈ keysOf rs, fileName k = fileName l → k = l)
    (fits : ∀ r ∈ rs, r.2.Fits r.1) :
    (serveAll rs (c, t)).1 = (Ledger.serveAll rs .empty).1 ∧
      ∀ k ∈ keysOf rs,
        (serveAll rs (c, t)).2.1.stored? (serveAll rs (c, t)).2.2 k =
          (Ledger.serveAll rs .empty).2.get? k ∧
        ∀ e, (serveAll rs (c, t)).2.1.memory.get? k = some e →
          (Ledger.serveAll rs .empty).2.get? k = some e := by
  have filled : c.directory ≠ [] := by
    intro empty
    rw [empty] at directory
    cases directory
  have start : Agrees (keysOf rs) c t .empty := by
    refine ⟨⟨filled, wf, ⟨u, made⟩, ?_, fun _ => unused, ?_⟩, ?_⟩
    · intro name reserved n held
      rw [unused name reserved] at held
      cases held
    · intro k _
      rw [unused _ (isReserved_fileName k)]
      rfl
    · intro k _ e found
      rw [new] at found
      cases found
  obtain ⟨answers, agrees⟩ := start.serveAll named apart fits fun k hk => hk
  exact ⟨answers, fun k hk => ⟨agrees.files.stored? hk, agrees.memory k hk⟩⟩

/-- A tree with nothing in it. -/
def bareTree : FileTree := ⟨[], []⟩

/-- An entry is found in memory, then in its file by a new cache, and is gone from both once it was
found expired; another goes with a `clear`. -/
def sampleRequests : List (Int × CacheRequest) :=
  [(0, .set "a" (.nat 1) (some 10)), (5, .get "a"), (6, .renew), (7, .get "a"), (11, .get "a"),
    (5, .get "a"), (12, .set "b" (.nat 2) none), (13, .clear), (14, .get "b")]

theorem bareTree_unused (name : List Char) : bareTree.held? ['/', 'c'] name = none := by
  have made : bareTree.makeDirectories ['/', 'c'] = some ⟨[([['c']], .directory)], []⟩ := by rfl
  have place : FileTree.place? ⟨[([['c']], .directory)], []⟩ ['/', 'c'] = some [['c']] := by rfl
  rw [FileTree.held?, made, Option.bind_some,
    FileTree.standing?_of_seat? (FileTree.seat?_of_place? place rfl)]
  simp [FileTree.node?, lookup_cons_ite]

theorem serveAll_sampleRequests :
    (serveAll sampleRequests (⟨['/', 'c'], .empty⟩, bareTree)).1 =
      [none, some (.nat 1), none, some (.nat 1), none, none, none, none, none] := by
  have first : CacheEntry.Fits ⟨.nat 1, 0, some 10⟩ :=
    ⟨⟨rfl, by decide⟩, by decide, fun _ h => Option.some.inj h ▸ by decide⟩
  have second : CacheEntry.Fits ⟨.nat 2, 12, none⟩ := ⟨⟨rfl, by decide⟩, by decide, by simp⟩
  have fits : ∀ r ∈ sampleRequests, r.2.Fits r.1 := by
    simp [sampleRequests, CacheRequest.Fits, first, second]
  have made : bareTree.makeDirectories ['/', 'c'] = some ⟨[([['c']], .directory)], []⟩ := by rfl
  exact (serveAll_eq_ledger (c := ⟨['/', 'c'], .empty⟩) rfl (by decide) made (by decide)
    (fun name _ => bareTree_unused name) (by decide) (by decide) fits).1

end Cache

end SourceAtlas
