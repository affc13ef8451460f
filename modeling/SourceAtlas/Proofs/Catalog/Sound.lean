import SourceAtlas.Proofs.Analysis.Survey
import SourceAtlas.Proofs.Record.RoundTrip
import SourceAtlas.Proofs.Source.Extraction
import SourceAtlas.Proofs.Text.Bytes
/-!
The shape of a catalog that was built from files: which keys its maps have, and which file each of
its records names. Such a catalog also fits its snapshot, if the tree it was built from is a
*measured* one, in which sizes and times are integers of 64 bits.
-/

namespace SourceAtlas

/-! ### Measured trees -/

/-- The size and the time of a file are signed integers of 64 bits. -/
def Node.isMeasured : Node → Bool
  | .file content modified => isSigned64 content.size && isSigned64 modified
  | _ => true

namespace FileTree

variable {t : FileTree}

/-- Every file of the tree is measured. -/
def Measured (t : FileTree) : Prop := ∀ e ∈ t.nodes, e.2.isMeasured

instance : Decidable t.Measured := inferInstanceAs (Decidable (∀ e ∈ t.nodes, e.2.isMeasured))

theorem Measured.node? (measured : t.Measured) {p : Place} {content : ByteArray} {modified : Int}
    (h : t.node? p = some (.file content modified)) :
    isSigned64 content.size ∧ isSigned64 modified := by
  rw [FileTree.node?] at h
  split at h
  · cases h
  · have listed := measured _ (mem_of_lookup h)
    rw [Node.isMeasured, Bool.and_eq_true] at listed
    exact listed

theorem Measured.prune (measured : t.Measured) (p : Place) : (t.prune p).Measured :=
  fun e he => measured e (List.mem_filter.1 he).1

end FileTree

/-! ### Sound catalogs -/

/-- What holds of the catalog of a project with the given root. -/
structure Catalog.Sound (c : Catalog) (root : String) : Prop where
  /-- What was found in a file is recorded in all three maps or in none. -/
  routeKeys : ∀ k, k ∈ c.routes.keys ↔ k ∈ c.symbols.keys
  dependencyKeys : ∀ k, k ∈ c.dependencies.keys ↔ k ∈ c.symbols.keys
  fileKeys : ∀ k ∈ c.symbols.keys, k ∈ c.files.keys
  files : ∀ k f, c.files.get? k = some f →
    f.path = k ∧ (Path.components root.toList).isPrefixOf (Path.components k.toList)
  symbols : ∀ k l, c.symbols.get? k = some l → ∀ s ∈ l, s.filePath = k
  routes : ∀ k l, c.routes.get? k = some l → ∀ r ∈ l, r.filePath = k
  dependencies : ∀ k l, c.dependencies.get? k = some l → ∀ e ∈ l,
    e.source = k ∧ e.filePath = k ∧ e.kind = .importing ∧
      ∀ q ∈ e.resolved, Path.isAbsolute q.toList

/-- The catalog survives its snapshot. -/
def Catalog.Fits (c : Catalog) : Prop := c.toSnapshot.Fits

/-- What a catalog holds under one path is sound and fits. -/
structure Catalog.SoundAt (root k : String) (f : Option FileRecord) (x : Option Extraction) :
    Prop where
  recorded : x.isSome → f.isSome
  record : ∀ r ∈ f, r.path = k ∧ r.Fits ∧
    (Path.components root.toList).isPrefixOf (Path.components k.toList)
  extraction : ∀ y ∈ x, ∃ bound : Nat, isUnsigned64 bound ∧ y.Sound k bound

/-- Where nothing is held, nothing is wrong. -/
theorem Catalog.soundAt_none (root k : String) : SoundAt root k none none := by
  refine ⟨fun h => h, fun r hr => ?_, fun y hy => ?_⟩
  · cases hr
  · cases hy

theorem isUnsigned64_of_le {n m : Nat} (h : isUnsigned64 (m : Int)) (le : n ≤ m) :
    isUnsigned64 (n : Int) := by
  rw [isUnsigned64_iff] at h ⊢
  omega

/-- A catalog that is sound under every path is sound as a whole. -/
theorem Catalog.sound_of_holdsAt {c : Catalog} {root : String} {f : String → Option FileRecord}
    {x : String → Option Extraction} (holds : ∀ k, c.HoldsAt k (f k) (x k))
    (sound : ∀ k, SoundAt root k (f k) (x k)) : c.Sound root := by
  have symbolsAt : ∀ k, c.symbols.get? k = (x k).map (·.symbols) := fun k => (holds k).2.1
  have routesAt : ∀ k, c.routes.get? k = (x k).map (·.routes) := fun k => (holds k).2.2.1
  have edgesAt : ∀ k, c.dependencies.get? k = (x k).map (·.dependencies) := fun k => (holds k).2.2.2
  refine ⟨fun k => ?_, fun k => ?_, fun k => ?_, ?_, ?_, ?_, ?_⟩
  · rw [TextMap.mem_keys_iff, TextMap.mem_keys_iff, routesAt, symbolsAt, Option.isSome_map,
      Option.isSome_map]
  · rw [TextMap.mem_keys_iff, TextMap.mem_keys_iff, edgesAt, symbolsAt, Option.isSome_map,
      Option.isSome_map]
  · rw [TextMap.mem_keys_iff, TextMap.mem_keys_iff, (holds k).1, symbolsAt, Option.isSome_map]
    exact (sound k).recorded
  · intro k r found
    rw [(holds k).1] at found
    obtain ⟨path, _, below⟩ := (sound k).record r found
    exact ⟨path, below⟩
  · intro k l found s hs
    rw [symbolsAt] at found
    obtain ⟨y, hy, rfl⟩ := Option.map_eq_some_iff.1 found
    obtain ⟨bound, _, within⟩ := (sound k).extraction y hy
    exact (within.symbols s hs).1
  · intro k l found r hr
    rw [routesAt] at found
    obtain ⟨y, hy, rfl⟩ := Option.map_eq_some_iff.1 found
    obtain ⟨bound, _, within⟩ := (sound k).extraction y hy
    exact (within.routes r hr).1
  · intro k l found e he
    rw [edgesAt] at found
    obtain ⟨y, hy, rfl⟩ := Option.map_eq_some_iff.1 found
    obtain ⟨bound, _, within⟩ := (sound k).extraction y hy
    obtain ⟨source, path, kind, _, absolute⟩ := within.dependencies e he
    exact ⟨source, path, kind, absolute⟩

/-- It fits its snapshot, too. -/
theorem Catalog.fits_of_holdsAt {c : Catalog} {root : String} {f : String → Option FileRecord}
    {x : String → Option Extraction} (holds : ∀ k, c.HoldsAt k (f k) (x k))
    (sound : ∀ k, SoundAt root k (f k) (x k)) (now : isSigned64 c.lastIndexed) : c.Fits := by
  refine ⟨?_, ?_, ?_, ?_, now⟩
  · intro e he
    have found := TextMap.get?_of_mem_entries he
    rw [(holds e.1).1] at found
    exact ((sound e.1).record e.2 found).2.1
  · intro e he s hs
    have found := TextMap.get?_of_mem_entries he
    rw [(holds e.1).2.1] at found
    obtain ⟨y, hy, eq⟩ := Option.map_eq_some_iff.1 found
    obtain ⟨bound, room, within⟩ := (sound e.1).extraction y hy
    obtain ⟨_, line, column⟩ := within.symbols s (eq ▸ hs)
    exact ⟨isUnsigned64_of_le room line, isUnsigned64_of_le room column⟩
  · intro e he r hr
    have found := TextMap.get?_of_mem_entries he
    rw [(holds e.1).2.2.1] at found
    obtain ⟨y, hy, eq⟩ := Option.map_eq_some_iff.1 found
    obtain ⟨bound, room, within⟩ := (sound e.1).extraction y hy
    exact isUnsigned64_of_le room (within.routes r (eq ▸ hr)).2
  · intro e he d hd
    have found := TextMap.get?_of_mem_entries he
    rw [(holds e.1).2.2.2] at found
    obtain ⟨y, hy, eq⟩ := Option.map_eq_some_iff.1 found
    obtain ⟨bound, room, within⟩ := (sound e.1).extraction y hy
    exact isUnsigned64_of_le room (within.dependencies d (eq ▸ hd)).2.2.2.1

/-! ### Built catalogs -/

/-- What comes out of a discovered file is sound and fits. -/
theorem soundAt_processFile {t : FileTree} (wf : t.WellFormed) (measured : t.Measured)
    {resolver : Resolver} (rooted : resolver.Rooted) {root : String}
    (absolute : Path.isAbsolute root.toList) {filter : FileFilter} {k : String}
    (mem : k.toList ∈ Discovery.files t root.toList filter) :
    Catalog.SoundAt root k ((processFile t resolver root.toList k.toList).map (·.record))
      ((processFile t resolver root.toList k.toList).bind (·.extraction)) := by
  obtain ⟨content, modified, found⟩ := Discovery.find?_of_mem_files wf mem
  have below := Discovery.components_isPrefixOf wf absolute mem
  have full := Discovery.isAbsolute_of_mem_files wf absolute mem
  obtain ⟨size, time⟩ : isSigned64 content.size ∧ isSigned64 modified := by
    obtain ⟨p, _, node⟩ := Option.bind_eq_some_iff.1 found
    exact measured.node? node
  obtain ⟨f, record⟩ := Option.isSome_iff_exists.1 (Discovery.record?_isSome wf mem)
  have path : f.path = k := by rw [Discovery.path_of_record? record, String.ofList_toList]
  have fits : f.Fits := by
    rw [Discovery.record?, found] at record
    obtain rfl := Option.some.inj record
    refine ⟨?_, time⟩
    rw [isUnsigned64_iff]
    rw [isSigned64_iff] at size
    simp only
    omega
  cases readable : Source.isReadable f.path with
  | false =>
    rw [processFile_unreadable record readable]
    refine ⟨fun _ => rfl, fun r hr => ?_, fun y hy => ?_⟩
    · obtain rfl := Option.some.inj hr
      exact ⟨path, fits, below⟩
    · cases hy
  | true =>
    rw [processFile_readable record readable]
    cases read : t.readText? k.toList with
    | none => exact Catalog.soundAt_none root k
    | some text =>
      refine ⟨fun _ => rfl, fun r hr => ?_, fun y hy => ?_⟩
      · obtain rfl := Option.some.inj hr
        exact ⟨path, fits, below⟩
      · obtain rfl := Option.some.inj hy
        rw [FileTree.readText?, found] at read
        rw [path]
        -- lines and columns go up to the size of the text, which is that of the file
        refine ⟨_, ?_, Source.sound_extract rooted full text⟩
        rw [Text.fromUTF8?_eq_some_iff.1 read, isUnsigned64_iff]
        rw [isSigned64_iff] at size
        omega

/-- The catalog of a survey is sound, and fits with the time it is given. -/
theorem Survey.sound_ofFiles {t : FileTree} (wf : t.WellFormed) (measured : t.Measured)
    {resolver : Resolver} (rooted : resolver.Rooted) {root : String}
    (absolute : Path.isAbsolute root.toList) (filter : FileFilter) (batchSize : Nat) {now : Int}
    (clock : isSigned64 now) :
    Catalog.Sound { (ofFiles t resolver root.toList batchSize
        (Discovery.files t root.toList filter)).catalog with lastIndexed := now } root ∧
      Catalog.Fits { (ofFiles t resolver root.toList batchSize
        (Discovery.files t root.toList filter)).catalog with lastIndexed := now } := by
  have covers := covers_ofFiles t resolver root.toList batchSize (Discovery.files t root.toList filter)
  have sound : ∀ k, Catalog.SoundAt root k
      ((outcome? (processFile t resolver root.toList) (Discovery.files t root.toList filter) k).map
        (·.record))
      ((outcome? (processFile t resolver root.toList) (Discovery.files t root.toList filter) k).bind
        (·.extraction)) := by
    intro k
    rw [outcome?]
    split
    · exact soundAt_processFile wf measured rooted absolute ‹_›
    · exact Catalog.soundAt_none root k
  have held : ∀ k, Catalog.HoldsAt { (ofFiles t resolver root.toList batchSize
      (Discovery.files t root.toList filter)).catalog with lastIndexed := now } k _ _ := covers
  exact ⟨Catalog.sound_of_holdsAt held sound, Catalog.fits_of_holdsAt held sound clock⟩

/-- The catalog was made in a survey: at some time, from the files that a filter took below the root in
some tree. The root is an absolute path in normal form. -/
structure Catalog.Surveyed (c : Catalog) (root : String) : Prop where
  absolute : Path.isAbsolute root.toList
  normal : Path.normalize root.toList = root.toList
  made : ∃ (t : FileTree) (resolver : Resolver) (filter : FileFilter) (batchSize : Nat) (now : Int),
    t.WellFormed ∧ t.Measured ∧ resolver.Rooted ∧ isSigned64 now ∧
      c = { (Survey.ofFiles t resolver root.toList batchSize
        (Discovery.files t root.toList filter)).catalog with lastIndexed := now }

/-- Such a catalog is sound and fits its snapshot. -/
theorem Catalog.Surveyed.sound {c : Catalog} {root : String} (h : c.Surveyed root) :
    c.Sound root ∧ c.Fits := by
  obtain ⟨t, resolver, filter, batchSize, now, wf, measured, rooted, clock, rfl⟩ := h.made
  exact Survey.sound_ofFiles wf measured rooted h.absolute filter batchSize clock

end SourceAtlas
