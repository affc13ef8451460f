import Mathlib.Data.List.Induction
import SourceAtlas.Proofs.Cache.Refinement
/-!
A cache whose directory others write to as well. What is in memory and what is in the file of a key
may then be two entries, and a look-up goes by one of them: the copy in memory, or the entry in the
file if there is none. Only when that one has expired is the file removed, and only when it is absent,
expired or unreadable is there a miss; the other one is not asked.
-/

namespace SourceAtlas

/-- The entry lives at a time and holds something of the type that is asked for. -/
def CacheEntry.Serves (decode : Json → Option α) (now : Int) (e : CacheEntry) : Prop :=
  e.isExpired now = false ∧ (decode e.data).isSome

namespace Cache

/-- The entry in the file of a key, whatever its age. -/
def filed? (c : Cache) (t : FileTree) (key : String) : Option CacheEntry :=
  (t.readText? (c.pathOf key)).bind CacheEntry.ofText?

/-- The entry that a look-up goes by. -/
def deciding? (c : Cache) (t : FileTree) (key : String) : Option CacheEntry :=
  (c.memory.get? key).or (c.filed? t key)

/-! ### Look-ups among other writers -/

/-- The look-up of a key while others write: what is in the file is read in one tree, and when it
comes to removing the file there is another one. -/
def getAmid (c : Cache) (t meanwhile : FileTree) (now : Int) (key : String) :
    Option Json × Cache × FileTree :=
  match c.memory.get? key with
  | some e =>
    if e.isExpired now then (none, c.delete meanwhile key) else (some e.data, c, meanwhile)
  | none =>
    match c.filed? t key with
    | none => (none, c, meanwhile)
    | some e =>
      if e.isExpired now then (none, c, c.dropFile meanwhile key)
      else (some e.data, { c with memory := c.memory.insert key e }, meanwhile)

variable {c : Cache} {t meanwhile : FileTree} {now : Int} {key : String}

/-- When nobody writes in between, this is the look-up. -/
theorem getAmid_self (c : Cache) (t : FileTree) (now : Int) (key : String) :
    c.getAmid t t now key = c.get t now key := by
  cases found : c.memory.get? key with
  | some e =>
    rw [getAmid, found]
    cases expired : e.isExpired now with
    | true => simp only [get_of_memory_expired found expired, expired, if_true]
    | false => simp only [get_of_memory found expired, expired, Bool.false_eq_true, if_false]
  | none =>
    unfold getAmid get readFile filed?
    simp only [found]
    cases (t.readText? (c.pathOf key)).bind CacheEntry.ofText? with
    | none => rfl
    | some e => cases expired : e.isExpired now <;> simp only [expired, Bool.false_eq_true, if_true, if_false]

/-- What a look-up does with the entry that it goes by: without one it does nothing, an expired one
makes it remove the file, and a living one is the answer. -/
theorem getAmid_cases (c : Cache) (t meanwhile : FileTree) (now : Int) (key : String) :
    (c.deciding? t key = none ∧ (c.getAmid t meanwhile now key).1 = none ∧
      (c.getAmid t meanwhile now key).2.2 = meanwhile) ∨
    (∃ e, c.deciding? t key = some e ∧ e.isExpired now ∧ (c.getAmid t meanwhile now key).1 = none ∧
      (c.getAmid t meanwhile now key).2.2 = c.dropFile meanwhile key) ∨
    ∃ e, c.deciding? t key = some e ∧ e.isExpired now = false ∧
      (c.getAmid t meanwhile now key).1 = some e.data ∧
      (c.getAmid t meanwhile now key).2.2 = meanwhile := by
  rw [getAmid, deciding?]
  cases c.memory.get? key with
  | some e =>
    cases expired : e.isExpired now with
    | true => exact .inr (.inl ⟨e, rfl, expired, by simp [expired, delete]⟩)
    | false => exact .inr (.inr ⟨e, rfl, expired, by simp [expired]⟩)
  | none =>
    cases c.filed? t key with
    | none => exact .inl ⟨rfl, rfl, rfl⟩
    | some e =>
      cases expired : e.isExpired now with
      | true => exact .inr (.inl ⟨e, rfl, expired, by simp [expired]⟩)
      | false => exact .inr (.inr ⟨e, rfl, expired, by simp [expired]⟩)

/-- What a look-up leaves in memory was there, or it is what the look-up found in the file. -/
theorem memory_getAmid {k : String} {e : CacheEntry}
    (found : (c.getAmid t meanwhile now key).2.1.memory.get? k = some e) :
    c.memory.get? k = some e ∨ k = key ∧ c.filed? t key = some e := by
  rw [getAmid] at found
  split at found
  · split at found
    · simp only [delete, TextMap.get?_erase] at found
      split at found
      · cases found
      · exact .inl found
    · exact .inl found
  · split at found
    · exact .inl found
    · rename_i d filed
      split at found
      · exact .inl found
      · simp only [TextMap.get?_insert] at found
        split at found
        · rename_i same
          exact .inr ⟨same, filed.trans found⟩
        · exact .inl found

/-! ### What a look-up goes by -/

/-- A look-up goes by one entry. -/
structure GoesByOne (decode : Json → Option α) (c : Cache) (t meanwhile : FileTree) (now : Int)
    (key : String) : Prop where
  /-- It changes the tree, by removing the file, only if that entry has expired. -/
  removes : (c.getAmid t meanwhile now key).2.2 ≠ meanwhile →
    ∃ e, c.deciding? t key = some e ∧ e.isExpired now
  /-- It misses only if that entry is absent, has expired or cannot be read as what is asked for. -/
  misses : (c.getAmid t meanwhile now key).1.bind decode = none →
    ∀ e, c.deciding? t key = some e → ¬e.Serves decode now

/-- A look-up spares what lives in either tier. -/
structure SparesLiving (decode : Json → Option α) (c : Cache) (t meanwhile : FileTree) (now : Int)
    (key : String) : Prop where
  /-- It removes the file only if the entry that is then in it has expired. -/
  removes : (c.getAmid t meanwhile now key).2.2 ≠ meanwhile →
    ∃ e, c.filed? meanwhile key = some e ∧ e.isExpired now
  /-- It misses only if neither tier has a living entry that can be read as what is asked for. -/
  misses : (c.getAmid t meanwhile now key).1.bind decode = none →
    ∀ e, c.memory.get? key = some e ∨ c.filed? t key = some e → ¬e.Serves decode now

/-- There is one entry of the key: the copy in memory, if there is one, is the entry in the file, and
nobody replaces that while it is looked up. -/
structure Undisputed (c : Cache) (t meanwhile : FileTree) (key : String) : Prop where
  copy : ∀ e, c.memory.get? key = some e → c.filed? t key = some e
  kept : c.filed? meanwhile key = c.filed? t key

theorem goesByOne (decode : Json → Option α) (c : Cache) (t meanwhile : FileTree) (now : Int)
    (key : String) : GoesByOne decode c t meanwhile now key := by
  rcases c.getAmid_cases t meanwhile now key with
    ⟨nothing, answer, tree⟩ | ⟨e, found, expired, answer, tree⟩ | ⟨e, found, living, answer, tree⟩
  · refine ⟨fun changed => absurd tree changed, fun _ d there => ?_⟩
    rw [nothing] at there
    cases there
  · refine ⟨fun _ => ⟨e, found, expired⟩, fun _ d there serves => ?_⟩
    obtain rfl := Option.some.inj (found.symm.trans there)
    rw [serves.1] at expired
    cases expired
  · refine ⟨fun changed => absurd tree changed, fun missed d there serves => ?_⟩
    obtain rfl := Option.some.inj (found.symm.trans there)
    rw [answer, Option.bind_some] at missed
    have readable := serves.2
    rw [missed] at readable
    cases readable

theorem Undisputed.deciding? (one : c.Undisputed t meanwhile key) :
    c.deciding? t key = c.filed? t key := by
  rw [Cache.deciding?]
  cases found : c.memory.get? key with
  | none => rfl
  | some e => exact (one.copy e found).symm

/-- Where there is one entry, going by it spares whatever lives. -/
theorem GoesByOne.sparesLiving {decode : Json → Option α}
    (goes : GoesByOne decode c t meanwhile now key) (one : c.Undisputed t meanwhile key) :
    SparesLiving decode c t meanwhile now key := by
  refine ⟨fun changed => ?_, fun missed e there => ?_⟩
  · rw [one.kept, ← one.deciding?]
    exact goes.removes changed
  · refine goes.misses missed e ?_
    rw [one.deciding?]
    rcases there with copy | filed
    · exact one.copy e copy
    · exact filed

end Cache

/-! ### Runs -/

/-- What happens to a cache and its directory: a request is answered, a key is looked up while others
write, or others write in between. -/
inductive CacheEvent where
  | request (now : Int) (r : CacheRequest)
  | get (now : Int) (key : String) (meanwhile : FileTree)
  | outside (tree : FileTree)

namespace CacheEvent

/-- The cache and the tree after an event. -/
def apply : CacheEvent → Cache × FileTree → Cache × FileTree
  | request now r, s => (Cache.serve now r s).2
  | get now key meanwhile, (c, t) => (c.getAmid t meanwhile now key).2
  | outside tree, (c, _) => (c, tree)

/-- The event puts the entry under the key: it is set, or a look-up finds it in the file. -/
def Puts (key : String) (e : CacheEntry) (s : Cache × FileTree) : CacheEvent → Prop
  | request now (.set k data ttl) => k = key ∧ e = ⟨data, now, ttl⟩
  | request _ (.get k) => k = key ∧ s.1.filed? s.2 key = some e
  | get _ k _ => k = key ∧ s.1.filed? s.2 key = some e
  | _ => False

end CacheEvent

namespace Cache

/-- The cache and the tree after events. -/
def after (start : Cache × FileTree) (events : List CacheEvent) : Cache × FileTree :=
  events.foldl (fun s e => e.apply s) start

theorem after_concat (start : Cache × FileTree) (events : List CacheEvent) (event : CacheEvent) :
    after start (events ++ [event]) = event.apply (after start events) := by
  simp [after]

/-- What is in memory after one event was there before, or the event put it there. -/
theorem memory_apply {s : Cache × FileTree} {event : CacheEvent} {key : String} {e : CacheEntry}
    (found : (event.apply s).1.memory.get? key = some e) :
    s.1.memory.get? key = some e ∨ event.Puts key e s := by
  obtain ⟨c, t⟩ := s
  cases event with
  | outside tree => exact .inl found
  | get now k meanwhile =>
    rcases memory_getAmid found with before | ⟨rfl, filed⟩
    · exact .inl before
    · exact .inr ⟨rfl, filed⟩
  | request now r =>
    cases r with
    | set k data ttl =>
      simp only [CacheEvent.apply, serve, set, TextMap.get?_insert] at found
      split at found
      · rename_i same
        exact .inr ⟨same.symm, (Option.some.inj found).symm⟩
      · exact .inl found
    | get k =>
      simp only [CacheEvent.apply, serve, ← getAmid_self] at found
      rcases memory_getAmid found with before | ⟨rfl, filed⟩
      · exact .inl before
      · exact .inr ⟨rfl, filed⟩
    | delete k =>
      simp only [CacheEvent.apply, serve, delete, TextMap.get?_erase] at found
      split at found
      · cases found
      · exact .inl found
    | clear => cases found
    | renew => cases found

/-- What a new cache has in memory after events was put there by one of them. -/
theorem memory_after {start : Cache × FileTree} (new : start.1.memory = .empty)
    {events : List CacheEvent} {key : String} {e : CacheEntry}
    (found : (after start events).1.memory.get? key = some e) :
    ∃ earlier event, earlier ++ [event] <+: events ∧ event.Puts key e (after start earlier) := by
  induction events using List.reverseRecOn with
  | nil =>
    rw [after, List.foldl_nil, new] at found
    cases found
  | append_singleton events event ih =>
    rw [after_concat] at found
    rcases memory_apply found with before | puts
    · obtain ⟨earlier, putting, begins, puts⟩ := ih before
      exact ⟨earlier, putting, begins.trans (List.prefix_append _ _), puts⟩
    · exact ⟨events, event, List.prefix_rfl, puts⟩

/-- Whatever happened to a new cache and its directory, and whoever writes there during a look-up: the
look-up goes by one entry. That is the copy in memory, which was set through this cache or found in
the file by an earlier look-up, or else the entry in the file. As long as the two are the same, a
look-up spares whatever lives. -/
theorem lookup_goes_by_one (decode : Json → Option α) {start : Cache × FileTree}
    (new : start.1.memory = .empty) (events : List CacheEvent) (meanwhile : FileTree) (now : Int)
    (key : String) :
    GoesByOne decode (after start events).1 (after start events).2 meanwhile now key ∧
      (∀ e, (after start events).1.memory.get? key = some e →
        ∃ earlier event, earlier ++ [event] <+: events ∧ event.Puts key e (after start earlier)) ∧
      ((after start events).1.Undisputed (after start events).2 meanwhile key →
        SparesLiving decode (after start events).1 (after start events).2 meanwhile now key) := by
  have goes := goesByOne decode (after start events).1 (after start events).2 meanwhile now key
  exact ⟨goes, fun e found => memory_after new found, goes.sparesLiving⟩

/-! ### A directory with two writers -/

/-- What another writer leaves in a cache directory: a number under each of two keys. -/
def sharedTree : FileTree :=
  ⟨[([['c']], .directory),
    ([['c'], "j.json".toList], .file (CacheEntry.bytes ⟨.nat 2, 0, none⟩) 0),
    ([['c'], "k.json".toList], .file (CacheEntry.bytes ⟨.nat 5, 0, none⟩) 0)], []⟩

/-- Both keys are set through a cache, one of them to live for a moment and the other to a text, and
then another writer replaces their files. -/
def sharedEvents : List CacheEvent :=
  [.request 0 (.set "j" (.nat 1) (some 1)), .request 0 (.set "k" (.string "text") none),
    .outside sharedTree]

/-- A new cache, in a tree in which its directory is not there yet. -/
def unsharedStart : Cache × FileTree := (⟨['/', 'c'], .empty⟩, bareTree)

theorem filed?_sharedTree (memory : TextMap CacheEntry) :
    filed? ⟨['/', 'c'], memory⟩ sharedTree "j" = some ⟨.nat 2, 0, none⟩ ∧
      filed? ⟨['/', 'c'], memory⟩ sharedTree "k" = some ⟨.nat 5, 0, none⟩ := by
  have seat : sharedTree.seat? ['/', 'c'] = some [['c']] :=
    FileTree.seat?_of_place? (by rfl) (by rfl)
  have filed : ∀ {key : String} {n : Nat}, key ≠ "" → isUnsigned64 n →
      sharedTree.node? ([['c']] ++ [(fileName key).toList]) =
        some (.file (CacheEntry.bytes ⟨.nat n, 0, none⟩) 0) →
      filed? ⟨['/', 'c'], memory⟩ sharedTree key = some ⟨.nat n, 0, none⟩ := by
    intro key n ne small node
    have fits : CacheEntry.Fits ⟨.nat n, 0, none⟩ :=
      ⟨Json.plainWithin_nat 126 small, rfl, by simp⟩
    have standing := (FileTree.standing?_of_seat? seat (fileName key).toList).trans node
    have solid : ∀ target, sharedTree.standing? ['/', 'c'] (fileName key).toList ≠ some (.link target) := by
      simp [standing]
    rw [filed?, readText?_pathOf ne solid, stored?, standing]
    exact CacheEntry.ofBytes?_bytes fits
  exact ⟨filed (by decide) (by decide) (by rfl), filed (by decide) (by decide) (by rfl)⟩

/-- A cache with what was set through it. -/
def sharedCache : Cache :=
  ⟨['/', 'c'], (TextMap.empty.insert "j" ⟨.nat 1, 0, some 1⟩).insert "k" ⟨.string "text", 0, none⟩⟩

/-- The cache still has what was set, and the tree is the other writer's. -/
theorem after_sharedEvents : after unsharedStart sharedEvents = (sharedCache, sharedTree) := by
  simp [after, sharedEvents, unsharedStart, sharedCache, CacheEvent.apply, serve, set]

/-- A new cache takes what the other writer left, and then has the entry in the file. -/
theorem lookup_goes_by_one_renewed :
    let events := sharedEvents ++ [.request 10 .renew, .get 20 "j" sharedTree]
    SparesLiving Json.nat? (after unsharedStart events).1 (after unsharedStart events).2 sharedTree 50
      "j" := by
  have state : after unsharedStart (sharedEvents ++ [.request 10 .renew, .get 20 "j" sharedTree]) =
      (⟨['/', 'c'], TextMap.empty.insert "j" ⟨.nat 2, 0, none⟩⟩, sharedTree) := by
    have renewed := after_sharedEvents
    rw [after] at renewed ⊢
    rw [List.foldl_append, renewed]
    simp [sharedCache, CacheEvent.apply, serve, fresh, getAmid, (filed?_sharedTree _).1, CacheEntry.isExpired,
      TextMap.get?, TextMap.empty]
  refine (lookup_goes_by_one Json.nat? rfl _ sharedTree 50 "j").2.2 ?_
  rw [state]
  refine ⟨fun e found => ?_, rfl⟩
  rw [(filed?_sharedTree _).1, ← found, TextMap.get?_insert, if_pos rfl]

/-- The copy of one key has expired, and the file with its living entry is removed for it; the copy
of the other is a text, and the number in its file is not asked for. -/
theorem living_entries_missed :
    let s := after unsharedStart sharedEvents
    ¬SparesLiving Json.nat? s.1 s.2 s.2 50 "j" ∧ ¬SparesLiving Json.nat? s.1 s.2 s.2 50 "k" := by
  rw [after_sharedEvents]
  have copy : sharedCache.memory.get? "j" = some ⟨.nat 1, 0, some 1⟩ := by simp [sharedCache]
  have other : sharedCache.memory.get? "k" = some ⟨.string "text", 0, none⟩ := by simp [sharedCache]
  refine ⟨fun spares => ?_, fun spares => ?_⟩
  · -- the tree has one node less, though what the file held does not expire
    have removed : sharedCache.dropFile sharedTree "j" ≠ sharedTree := by
      intro same
      have fewer : (sharedCache.dropFile sharedTree "j").nodes.length = 2 := by rfl
      rw [same] at fewer
      cases fewer
    have changed : (sharedCache.getAmid sharedTree sharedTree 50 "j").2.2 ≠ sharedTree := by
      rw [getAmid_self, get_of_memory_expired copy (by decide)]
      exact removed
    obtain ⟨e, filed, expired⟩ := spares.removes changed
    obtain rfl := Option.some.inj ((filed?_sharedTree _).1.symm.trans filed)
    cases expired
  · have missed : (sharedCache.getAmid sharedTree sharedTree 50 "k").1.bind Json.nat? = none := by
      rw [getAmid_self, get_of_memory other rfl]
      rfl
    exact spares.misses missed ⟨.nat 5, 0, none⟩ (.inr (filed?_sharedTree _).2) ⟨rfl, rfl⟩

end Cache

end SourceAtlas
