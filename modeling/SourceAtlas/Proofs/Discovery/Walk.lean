import SourceAtlas.Discovery
import SourceAtlas.Proofs.Tree.WellFormed
/-!
The walk through a project knows where it stands: the path of a stop leads to its place, lies below
the root, and the place lies in the root's own. So every path that the walk gives leads to a file
inside the project, of which there is a record.
-/

namespace SourceAtlas.Discovery

variable {w : Terrain}

/-- The path of a stop leads to its place, by names below the root, and the place lies in that of the
root. -/
structure Tracks (w : Terrain) (s : Stop) : Prop where
  place : w.tree.place? s.path = some s.place
  below : ∃ names, (∀ name ∈ names, Path.isPlainName name) ∧ s.path = Path.descend w.root names
  inside : w.home <+: s.place

section Step

variable {above : List Place} {here next : Stop} {name : List Char}

/-- What is no link is entered. -/
theorem Terrain.enter?_of_solid {n : Node} (node : w.tree.node? (here.place ++ [name]) = some n)
    (solid : ∀ target, n ≠ .link target) :
    w.enter? above here name = some ⟨Path.join here.path name, here.place ++ [name]⟩ := by
  rw [Terrain.enter?, node]
  cases n with
  | file content modified => rfl
  | directory => rfl
  | link target => exact absurd rfl (solid target)

/-- A link is followed to a place in the root's that is none of the directories above. -/
theorem Terrain.enter?_of_link {target : List Char}
    (node : w.tree.node? (here.place ++ [name]) = some (.link target)) :
    w.enter? above here name = some next ↔ next.path = Path.join here.path name ∧
      w.tree.place? next.path = some next.place ∧ w.home <+: next.place ∧
      (w.tree.hasDirectory next.place → next.place ∉ above) := by
  obtain ⟨path, place⟩ := next
  simp only [Terrain.enter?, node]
  constructor
  · intro h
    split at h
    · cases h
    · rename_i found
      split at h
      · cases h
      · rename_i taken
        obtain ⟨rfl, rfl⟩ := Stop.mk.inj (Option.some.inj h)
        rw [Bool.or_eq_true, not_or] at taken
        refine ⟨rfl, found, by simpa using taken.2, fun directory => ?_⟩
        simpa [directory] using taken.1
  · rintro ⟨rfl, found, inside, fresh⟩
    have stays : ((w.tree.hasDirectory place && above.contains place) || !w.home.isPrefixOf place) =
        false := by
      simpa [inside] using fresh
    simp only [found, stays, Bool.false_eq_true, if_false]

/-- So every step goes down to what is no link, or follows one. -/
theorem Terrain.enter?_cases (h : w.enter? above here name = some next) :
    ∃ n, w.tree.node? (here.place ++ [name]) = some n ∧ next.path = Path.join here.path name ∧
      ((∀ target, n ≠ .link target) ∧ next.place = here.place ++ [name] ∨
        w.tree.place? next.path = some next.place ∧ w.home <+: next.place ∧
          (w.tree.hasDirectory next.place → next.place ∉ above)) := by
  cases node : w.tree.node? (here.place ++ [name]) with
  | none => simp [Terrain.enter?, node] at h
  | some n =>
    refine ⟨n, rfl, ?_⟩
    by_cases link : ∃ target, n = .link target
    · obtain ⟨target, rfl⟩ := link
      obtain ⟨path, followed⟩ := (Terrain.enter?_of_link node).1 h
      exact ⟨path, .inr followed⟩
    · have solid : ∀ target, n ≠ .link target := fun target eq => link ⟨target, eq⟩
      rw [Terrain.enter?_of_solid node solid] at h
      obtain rfl := Option.some.inj h
      exact ⟨rfl, .inl ⟨solid, rfl⟩⟩

end Step

/-- The path goes on below the root by a plain name. -/
theorem Tracks.deeper {here : Stop} (tracks : Tracks w here) {name : List Char}
    (plain : Path.isPlainName name) : ∃ names, (∀ name ∈ names, Path.isPlainName name) ∧
      Path.join here.path name = Path.descend w.root names := by
  obtain ⟨names, plains, below⟩ := tracks.below
  refine ⟨names ++ [name], fun s mem => ?_, ?_⟩
  · rcases List.mem_append.1 mem with old | new
    · exact plains s old
    · rw [List.mem_singleton.1 new]
      exact plain
  · rw [Path.descend_concat, ← below]

/-- The walk keeps track from one stop to the next. -/
theorem Tracks.enter? (wf : w.tree.WellFormed) {above : List Place} {here next : Stop}
    {name : List Char} (tracks : Tracks w here) (directory : w.tree.hasDirectory here.place)
    (h : w.enter? above here name = some next) : Tracks w next := by
  obtain ⟨n, node, path, step⟩ := Terrain.enter?_cases h
  have plain := wf.plain node
  have deeper := tracks.deeper plain
  rw [← path] at deeper
  rcases step with ⟨solid, place⟩ | ⟨found, inside, _⟩
  · -- what is no link stands where the joined path leads
    have seat := FileTree.seat?_of_place? tracks.place directory
    refine ⟨?_, deeper, ?_⟩
    · rw [path, FileTree.place?_join plain, seat, Option.bind_some, node, Option.map_some, place]
      intro p target same
      obtain rfl : here.place = p := Option.some.inj (seat.symm.trans same)
      rw [node]
      exact fun link => solid target (Option.some.inj link)
    · rw [place]
      exact tracks.inside.trans (List.prefix_append _ _)
  · exact ⟨found, deeper, inside⟩

/-- What the walk gives are paths of files, below the root. -/
theorem Tracks.filesFrom (wf : w.tree.WellFormed) {fuel : Nat} {above : List Place} {here : Stop}
    (tracks : Tracks w here) : ∀ path ∈ w.filesFrom fuel above here,
    ∃ s, Tracks w s ∧ s.path = path ∧
      ∃ content modified, w.tree.node? s.place = some (.file content modified) := by
  induction fuel generalizing above here with
  | zero => simp [Terrain.filesFrom]
  | succ fuel ih =>
    intro path h
    rw [Terrain.filesFrom] at h
    split at h
    · rename_i content modified node
      split at h
      · obtain rfl := List.mem_singleton.1 h
        exact ⟨here, tracks, rfl, content, modified, node⟩
      · cases h
    · rename_i node
      split at h
      · cases h
      · obtain ⟨next, entered, later⟩ := List.mem_flatMap.1 h
        obtain ⟨name, _, enters⟩ := List.mem_filterMap.1 entered
        have directory := FileTree.hasDirectory_iff.2 node
        exact ih (tracks.enter? wf directory enters) path later
    · cases h

variable {t : FileTree} {root : List Char} {filter : FileFilter}

/-- The walk starts at the root. -/
theorem tracks_root {home : Place} (found : t.place? root = some home) (filter : FileFilter) :
    Tracks ⟨t, filter, root, home⟩ ⟨root, home⟩ :=
  ⟨found, ⟨[], by simp, rfl⟩, List.prefix_refl home⟩

/-- A discovered path is that of a stop at a file. -/
theorem exists_stop (wf : t.WellFormed) {path : List Char} (h : path ∈ files t root filter) :
    ∃ home s, t.place? root = some home ∧ Tracks ⟨t, filter, root, home⟩ s ∧ s.path = path ∧
      ∃ content modified, t.node? s.place = some (.file content modified) := by
  rw [files] at h
  split at h
  · cases h
  · rename_i home found
    obtain ⟨s, tracks, file⟩ := (tracks_root found filter).filesFrom wf path h
    exact ⟨home, s, found, tracks, file⟩

/-- A discovered path goes down from the root by plain names. -/
theorem exists_names_of_mem_files (wf : t.WellFormed) {path : List Char}
    (h : path ∈ files t root filter) :
    ∃ names, (∀ name ∈ names, Path.isPlainName name) ∧ path = Path.descend root names := by
  obtain ⟨_, s, _, tracks, rfl, _⟩ := exists_stop wf h
  exact tracks.below

/-- Every path that is discovered leads to a file. -/
theorem find?_of_mem_files (wf : t.WellFormed) {path : List Char} (h : path ∈ files t root filter) :
    ∃ content modified, t.find? path = some (.file content modified) := by
  obtain ⟨_, s, _, tracks, rfl, content, modified, node⟩ := exists_stop wf h
  exact ⟨content, modified, by rw [FileTree.find?, tracks.place, Option.bind_some, node]⟩

/-- Every path that is discovered has a record. -/
theorem record?_isSome (wf : t.WellFormed) {path : List Char} (h : path ∈ files t root filter) :
    (record? t root path).isSome := by
  obtain ⟨content, modified, found⟩ := find?_of_mem_files wf h
  rw [record?, found]
  rfl

theorem path_of_record? {path : List Char} {f : FileRecord} (h : record? t root path = some f) :
    f.path = .ofList path := by
  rw [record?] at h
  split at h
  · obtain rfl := Option.some.inj h
    rfl
  · cases h

theorem relativePath_of_record? {path : List Char} {f : FileRecord}
    (h : record? t root path = some f) :
    f.relativePath = Path.relative (.ofList root) (.ofList path) := by
  rw [record?] at h
  split at h
  · obtain rfl := Option.some.inj h
    rfl
  · cases h

theorem isAbsolute_of_mem_files (wf : t.WellFormed) (absolute : Path.isAbsolute root)
    {path : List Char} (h : path ∈ files t root filter) : Path.isAbsolute path := by
  obtain ⟨names, plain, rfl⟩ := exists_names_of_mem_files wf h
  rw [Path.isAbsolute_descend plain]
  exact absolute

/-- A discovered path has the components of an absolute root and more. -/
theorem components_isPrefixOf (wf : t.WellFormed) (absolute : Path.isAbsolute root)
    {path : List Char} (h : path ∈ files t root filter) :
    (Path.components root).isPrefixOf (Path.components path) := by
  obtain ⟨names, plain, rfl⟩ := exists_names_of_mem_files wf h
  have start := (Path.isAbsolute_descend plain root).trans absolute
  rw [Path.components_of_absolute absolute, Path.components_of_absolute start,
    Path.steps_descend plain, List.map_append, List.isPrefixOf_iff_prefix]
  exact ⟨names.map Path.ofStep, rfl⟩

end SourceAtlas.Discovery
