import SourceAtlas.Proofs.Discovery.Containment
import SourceAtlas.Proofs.Discovery.View
import SourceAtlas.Proofs.Text.Bytes
/-!
What is discovered in a tree without links, and in which order. The walk goes down by all names of a
directory that is not pruned, so it comes to every file whose directories below the root are not, and
to no other. The names of a directory are listed in byte order, so the paths are in byte order name by
name: all that stands in a directory `a` comes before the file `a.ts` beside it.
-/

namespace SourceAtlas

/-- The bytes of a path, component by component. -/
def Path.bytes (p : List Char) : List (List UInt8) :=
  (components p).map fun c => (String.ofList c.text).toUTF8.toList

/-- The names below a path follow its bytes. -/
theorem Path.bytes_descend {p : List Char} (ne : p ≠ []) {names : List (List Char)}
    (plain : ∀ name ∈ names, isPlainName name) :
    bytes (descend p names) = bytes p ++ names.map fun name => (String.ofList name).toUTF8.toList := by
  rw [bytes, components_descend ne plain, List.map_append, List.map_map]
  rfl

namespace FileTree

variable {t : FileTree}

/-- A file stands at the place. -/
def hasFile (t : FileTree) (p : Place) : Bool :=
  match t.node? p with
  | some (.file _ _) => true
  | _ => false

theorem hasFile_iff {p : Place} :
    t.hasFile p ↔ ∃ content modified, t.node? p = some (.file content modified) := by
  rw [hasFile]
  split
  · rename_i content modified node
    exact ⟨fun _ => ⟨content, modified, node⟩, fun _ => rfl⟩
  · rename_i other
    exact ⟨nofun, fun ⟨content, modified, node⟩ => absurd node (other content modified)⟩

/-- What leads on to a node is listed. -/
theorem WellFormed.mem_names (wf : t.WellFormed) {p rest : Place} {name : List Char} {n : Node}
    (h : t.node? (p ++ name :: rest) = some n) : name ∈ t.names p := by
  have longer : p ++ name :: rest = p ++ [name] ++ rest := by simp
  rw [longer] at h
  rw [FileTree.mem_names]
  cases rest with
  | nil =>
    rw [List.append_nil] at h
    rw [h]
    rfl
  | cons next rest =>
    rw [hasDirectory_iff.1 (wf.above (List.cons_ne_nil _ _) h)]
    rfl

/-- The names of a directory increase. -/
theorem increasing_names (t : FileTree) (p : Place) :
    (t.names p).Pairwise fun a b => String.ofList a < String.ofList b := by
  refine (t.pairwise_names p).imp₂ (fun a b le ne => ?_) (t.nodup_names p)
  refine Decidable.byContradiction fun other => ne ?_
  exact String.ofList_inj.1 (String.le_antisymm (of_decide_eq_true le) (String.not_lt.1 other))

end FileTree

/-- The stop under a name. -/
def Stop.down (here : Stop) (name : List Char) : Stop :=
  ⟨Path.join here.path name, here.place ++ [name]⟩

namespace Discovery

variable {w : Terrain} {above : List Place} {here : Stop} {name path : List Char}
  {names : List (List Char)}

/-- A walk from a stop is to give the file under some names: the filter takes it, and prunes none of
the directories on the way. Where the walk starts, nothing is pruned. -/
structure Terrain.Lists (w : Terrain) (above : List Place) (here : Stop) (names : List (List Char)) :
    Prop where
  file : w.tree.hasFile (here.place ++ names)
  taken : w.filter.takesFile (w.relative (Path.descend here.path names))
  passes : ∀ front name back, names = front ++ name :: back → (front = [] → above ≠ []) →
    w.filter.prunes (w.relative (Path.descend here.path front)) = false

theorem Terrain.lists_nil :
    w.Lists above here [] ↔ w.tree.hasFile here.place ∧ w.filter.takesFile (w.relative here.path) := by
  constructor
  · intro h
    exact ⟨by simpa using h.file, h.taken⟩
  · rintro ⟨file, taken⟩
    exact ⟨by simpa using file, taken, by simp⟩

/-- One name further, the directory of the stop is on the way. -/
theorem Terrain.lists_cons :
    w.Lists above here (name :: names) ↔
      (above ≠ [] → w.filter.prunes (w.relative here.path) = false) ∧
        w.Lists (here.place :: above) (here.down name) names := by
  have place : here.place ++ name :: names = here.place ++ [name] ++ names := by simp
  constructor
  · intro h
    refine ⟨fun below => h.passes [] name names rfl fun _ => below, ?_, h.taken, ?_⟩
    · exact place ▸ h.file
    · rintro front next back rfl _
      exact h.passes (name :: front) next back rfl nofun
  · rintro ⟨first, h⟩
    refine ⟨place ▸ h.file, h.taken, fun front next back split counts => ?_⟩
    cases front with
    | nil => exact first (counts rfl)
    | cons s front =>
      obtain ⟨rfl, rfl⟩ := List.cons.inj split
      exact h.passes front next back rfl fun _ => List.cons_ne_nil _ _

/-- No names lead on from what is no directory. -/
theorem Terrain.Lists.eq_nil (wf : w.tree.WellFormed) (leaf : w.tree.hasDirectory here.place = false)
    (h : w.Lists above here names) : names = [] := by
  obtain ⟨_, _, file⟩ := FileTree.hasFile_iff.1 h.file
  refine Decidable.byContradiction fun ne => ?_
  rw [wf.above ne file] at leaf
  cases leaf

/-- The walk ends there. -/
theorem Terrain.filesFrom_leaf (leaf : w.tree.hasDirectory here.place = false) (fuel : Nat) :
    w.filesFrom (fuel + 1) above here =
      if w.tree.hasFile here.place ∧ w.filter.takesFile (w.relative here.path) then [here.path]
      else [] := by
  rw [filesFrom, FileTree.hasFile]
  split
  · rename_i node
    simp only [node, true_and]
  · rename_i node
    rw [FileTree.hasDirectory, node] at leaf
    cases leaf
  · rename_i noFile _
    split
    · rename_i content modified node
      exact absurd node (noFile content modified)
    · simp

/-- A directory that is not pruned is walked stop by stop. -/
theorem Terrain.filesFrom_inner (directory : w.tree.hasDirectory here.place) (fuel : Nat) :
    w.filesFrom (fuel + 1) above here =
      if above ≠ [] ∧ w.filter.prunes (w.relative here.path) then []
      else ((w.tree.names here.place).filterMap (w.enter? (here.place :: above) here)).flatMap
        (w.filesFrom fuel (here.place :: above)) := by
  rw [filesFrom]
  simp only [FileTree.hasDirectory_iff.1 directory]
  simp

/-! ### Without links -/

section Solid

variable (solid : ∀ p target, w.tree.node? p ≠ some (.link target))
include solid

theorem Terrain.enter?_eq_down (mem : name ∈ w.tree.names here.place) :
    w.enter? above here name = some (here.down name) := by
  obtain ⟨n, node⟩ := Option.isSome_iff_exists.1 (FileTree.mem_names.1 mem)
  exact Terrain.enter?_of_solid node fun target link => solid _ target (link ▸ node)

/-- Every name in a directory is a stop, -/
theorem Terrain.filesFrom_directory (directory : w.tree.hasDirectory here.place) (fuel : Nat) :
    w.filesFrom (fuel + 1) above here =
      if above ≠ [] ∧ w.filter.prunes (w.relative here.path) then []
      else (w.tree.names here.place).flatMap fun name =>
        w.filesFrom fuel (here.place :: above) (here.down name) := by
  have entered : (w.tree.names here.place).filterMap (w.enter? (here.place :: above) here) =
      (w.tree.names here.place).map here.down := by
    rw [← List.filterMap_eq_map]
    exact List.filterMap_congr fun name mem => enter?_eq_down solid mem
  rw [filesFrom_inner directory, entered, List.flatMap_map]

/-- and fuel that is enough for it is enough for each of them. -/
theorem Terrain.depth_down_lt {fuel : Nat} (directory : w.tree.hasDirectory here.place)
    (mem : name ∈ w.tree.names here.place) (enough : w.depth above here < fuel + 1) :
    w.depth (here.place :: above) (here.down name) < fuel :=
  Nat.lt_of_lt_of_le (depth_lt_of_enter? directory (enter?_eq_down solid mem)) (Nat.le_of_lt_succ enough)

/-- The walk gives what it is to give. -/
theorem Terrain.mem_filesFrom (wf : w.tree.WellFormed) {fuel : Nat}
    (enough : w.depth above here < fuel) :
    path ∈ w.filesFrom fuel above here ↔
      ∃ names, path = Path.descend here.path names ∧ w.Lists above here names := by
  induction fuel generalizing above here with
  | zero => omega
  | succ fuel ih =>
    cases directory : w.tree.hasDirectory here.place with
    | false =>
      rw [filesFrom_leaf directory, List.mem_ite_nil_right, List.mem_singleton]
      constructor
      · rintro ⟨listed, rfl⟩
        exact ⟨[], rfl, lists_nil.2 listed⟩
      · rintro ⟨names, rfl, lists⟩
        obtain rfl := lists.eq_nil wf directory
        exact ⟨lists_nil.1 lists, rfl⟩
    | true =>
      rw [filesFrom_directory solid directory, List.mem_ite_nil_left, List.mem_flatMap]
      constructor
      · rintro ⟨passes, name, mem, later⟩
        obtain ⟨rest, rfl, lists⟩ := (ih (depth_down_lt solid directory mem enough)).1 later
        refine ⟨name :: rest, rfl, lists_cons.2 ⟨fun below => ?_, lists⟩⟩
        simpa [below] using passes
      · rintro ⟨names, rfl, lists⟩
        obtain ⟨_, _, file⟩ := FileTree.hasFile_iff.1 lists.file
        cases names with
        | nil => simp [FileTree.hasDirectory_iff.1 directory] at file
        | cons name rest =>
          obtain ⟨passes, lists⟩ := lists_cons.1 lists
          have mem := wf.mem_names file
          have later := (ih (depth_down_lt solid directory mem enough)).2 ⟨rest, rfl, lists⟩
          refine ⟨fun pruned => ?_, name, mem, later⟩
          rw [passes pruned.1] at pruned
          cases pruned.2

theorem Terrain.bytes_of_mem (wf : w.tree.WellFormed) {fuel : Nat}
    (enough : w.depth above (here.down name) < fuel) (ne : here.path ≠ [])
    (mem : path ∈ w.filesFrom fuel above (here.down name)) :
    ∃ rest, Path.bytes path = Path.bytes here.path ++ (String.ofList name).toUTF8.toList :: rest := by
  obtain ⟨names, rfl, lists⟩ := (mem_filesFrom solid wf enough).1 mem
  obtain ⟨_, _, file⟩ := FileTree.hasFile_iff.1 lists.file
  have plain : ∀ s ∈ name :: names, Path.isPlainName s := by
    intro s among
    refine wf.plain_of_mem file s ?_
    simpa [Stop.down] using .inr (List.mem_cons.1 among)
  exact ⟨_, Path.bytes_descend ne plain⟩

/-- The paths come in the order of their bytes. -/
theorem Terrain.increasing_filesFrom (wf : w.tree.WellFormed) {fuel : Nat}
    (enough : w.depth above here < fuel) (ne : here.path ≠ []) :
    (w.filesFrom fuel above here).Pairwise fun p q => Path.bytes p < Path.bytes q := by
  induction fuel generalizing above here with
  | zero => omega
  | succ fuel ih =>
    cases directory : w.tree.hasDirectory here.place with
    | false =>
      rw [filesFrom_leaf directory]
      split
      · exact List.pairwise_singleton _ _
      · exact .nil
    | true =>
      rw [filesFrom_directory solid directory]
      split
      · exact .nil
      · have less : ∀ name ∈ w.tree.names here.place,
            w.depth (here.place :: above) (here.down name) < fuel :=
          fun name mem => depth_down_lt solid directory mem enough
        refine List.pairwise_flatMap.2 ⟨fun name mem => ih (less name mem) ?_, ?_⟩
        · obtain ⟨n, node⟩ := Option.isSome_iff_exists.1 (FileTree.mem_names.1 mem)
          exact Path.join_ne_nil (wf.plain node) _
        · refine (w.tree.increasing_names here.place).imp_of_mem fun {a b} inA inB lt p ofA q ofB => ?_
          obtain ⟨_, first⟩ := bytes_of_mem solid wf (less a inA) ne ofA
          obtain ⟨_, second⟩ := bytes_of_mem solid wf (less b inB) ne ofB
          rw [first, second]
          exact List.append_left_lt (List.cons_lt_cons_iff.2 (.inl (Text.bytes_lt lt)))

end Solid

/-- In a tree without links exactly those files below the root are discovered that the filter takes and
that stand in no directory below the root that it prunes. Compared component by component in byte order,
their paths increase, so none of them comes twice. -/
theorem files_exact {t : FileTree} (wf : t.WellFormed)
    (solid : ∀ p target, t.node? p ≠ some (.link target)) {root : List Char} {home : Place}
    (found : t.place? root = some home) (filter : FileFilter) :
    (∀ path, path ∈ files t root filter ↔ ∃ names, path = Path.descend root names ∧
      t.hasFile (home ++ names) ∧ filter.takesFile (Path.relative (.ofList root) (.ofList path)) ∧
      ∀ front name back, names = front ++ name :: back → front ≠ [] →
        filter.prunes (Path.relative (.ofList root) (.ofList (Path.descend root front))) = false) ∧
      (files t root filter).Pairwise (fun p q => Path.bytes p < Path.bytes q) ∧
      (files t root filter).Nodup := by
  have ne : root ≠ [] := by
    rintro rfl
    simp [FileTree.place?] at found
  have walk : files t root filter =
      Terrain.filesFrom ⟨t, filter, root, home⟩ (maxSteps t) [] ⟨root, home⟩ := by
    rw [files, found]
  have enough := Terrain.depth_lt_maxSteps ⟨t, filter, root, home⟩ ⟨root, home⟩
  have increasing : (files t root filter).Pairwise fun p q => Path.bytes p < Path.bytes q :=
    walk ▸ Terrain.increasing_filesFrom solid wf enough ne
  refine ⟨fun path => ?_, increasing, increasing.imp fun {p q} lt same => ?_⟩
  · rw [walk, Terrain.mem_filesFrom solid wf enough]
    refine exists_congr fun names => and_congr_right fun eq => ?_
    rw [eq]
    constructor
    · rintro ⟨file, taken, passes⟩
      exact ⟨file, taken, fun front name back split below =>
        passes front name back split fun start => absurd start below⟩
    · rintro ⟨file, taken, passes⟩
      exact ⟨file, taken, fun front name back split start =>
        passes front name back split fun none => start none rfl⟩
  · rw [same] at lt
    exact List.lt_irrefl _ lt

/-- A directory beside a file whose name begins with its own, and one that is left out. -/
def prunedProject : FileTree :=
  ⟨[([['p']], .directory), ([['p'], "a.ts".toList], .file "class A {}".toUTF8 1),
    ([['p'], ['a']], .directory), ([['p'], ['a'], "z.ts".toList], .file "class Z {}".toUTF8 2),
    ([['p'], "dist".toList], .directory),
    ([['p'], "dist".toList, "b.ts".toList], .file "class B {}".toUTF8 3)], []⟩

/-- All files with the extension `ts` outside of the directory `dist`. -/
def sourceFilter : FileFilter := .ofPatterns ["**/*.ts"] ["dist/**"]

theorem files_exact_sample :
    prunedProject.WellFormed ∧ (∀ p target, prunedProject.node? p ≠ some (.link target)) ∧
      prunedProject.place? "/p".toList = some [['p']] ∧
      "/p/a/z.ts".toList ∈ files prunedProject "/p".toList sourceFilter ∧
      "/p/dist/b.ts".toList ∉ files prunedProject "/p".toList sourceFilter ∧
      (files prunedProject "/p".toList sourceFilter).Pairwise
        (fun p q => Path.bytes p < Path.bytes q) := by
  have wf : prunedProject.WellFormed := by decide
  have solid : ∀ p target, prunedProject.node? p ≠ some (.link target) := by
    intro p target node
    rcases List.eq_nil_or_concat p with rfl | ⟨front, name, rfl⟩
    · cases node
    · rw [List.concat_eq_append] at node
      have listed := FileTree.mem_nodes_of_node? node
      simp [prunedProject] at listed
  have found : prunedProject.place? "/p".toList = some [['p']] := by rfl
  obtain ⟨listed, increasing, _⟩ := files_exact wf solid found sourceFilter
  refine ⟨wf, solid, found, (listed _).2 ?_, fun mem => ?_, increasing⟩
  · refine ⟨[['a'], "z.ts".toList], rfl, rfl, by decide +kernel, fun front name back split below => ?_⟩
    rcases front with _ | ⟨s, _ | ⟨r, front⟩⟩
    · exact absurd rfl below
    · obtain ⟨rfl, _⟩ := List.cons.inj split
      decide +kernel
    · simp at split
  · obtain ⟨names, path, file, _, passes⟩ := (listed _).1 mem
    obtain ⟨_, _, node⟩ := FileTree.hasFile_iff.1 file
    have plain : ∀ s ∈ names, Path.isPlainName s := fun s among =>
      wf.plain_of_mem node s (List.mem_append_right _ among)
    have steps := congrArg Path.steps path
    rw [Path.steps_descend plain] at steps
    have below : [['p']] ++ ["dist".toList, "b.ts".toList] = [['p']] ++ names := steps
    obtain rfl := List.append_cancel_left below
    exact absurd (passes ["dist".toList] _ [] rfl (List.cons_ne_nil _ _)) (by decide +kernel)

end Discovery

end SourceAtlas
