import Mathlib.Data.List.Induction
import SourceAtlas.Proofs.Analysis.Survey
import SourceAtlas.Proofs.Discovery.Depth
/-!
What an analysis reads of a tree is what stands in the root and where the paths below the root lead as
long as they stay in it. Two trees that agree on this have the same files, and what comes out of each
file is the same, whatever else the trees hold. In a root without links it is enough that the same
nodes stand there.
-/

namespace SourceAtlas

theorem nodup_eraseDups [BEq α] [LawfulBEq α] : ∀ items : List α, items.eraseDups.Nodup
  | [] => by simp
  | a :: items => by
    rw [List.eraseDups_cons, List.nodup_cons]
    refine ⟨?_, nodup_eraseDups _⟩
    rw [List.mem_eraseDups, List.mem_filter]
    simp
  termination_by items => items.length
  decreasing_by
    have shorter := List.length_filter_le (fun b => !b == a) items
    rw [List.length_cons]
    omega

namespace FileTree

variable {t u v : FileTree}

/-! ### Names -/

/-- The names in a directory are listed in their order, each once. -/
theorem pairwise_names (t : FileTree) (p : Place) :
    (t.names p).Pairwise fun a b => decide (String.ofList a ≤ String.ofList b) = true := by
  refine List.pairwise_mergeSort (fun a b c ab bc => ?_) (fun a b => ?_) _
  · exact decide_eq_true (String.le_trans (of_decide_eq_true ab) (of_decide_eq_true bc))
  · rcases String.le_total (.ofList a) (.ofList b) with le | le <;> simp [le]

theorem nodup_names (t : FileTree) (p : Place) : (t.names p).Nodup :=
  (nodup_eraseDups _).perm (List.mergeSort_perm _ _).symm

/-- So the list depends on nothing but what stands in the directory. -/
theorem names_congr {p : Place} (same : ∀ s, u.node? (p ++ [s]) = t.node? (p ++ [s])) :
    u.names p = t.names p := by
  have perm : (u.names p).Perm (t.names p) := by
    rw [List.perm_ext_iff_of_nodup (u.nodup_names p) (t.nodup_names p)]
    intro s
    rw [mem_names, mem_names, same]
  refine perm.eq_of_pairwise (fun a b _ _ ab ba => ?_) (u.pairwise_names p) (t.pairwise_names p)
  exact String.ofList_inj.1 (String.le_antisymm (of_decide_eq_true ab) (of_decide_eq_true ba))

/-! ### Trees that agree below a path -/

/-- The root leads to the same place in both trees, the same stands there and below, and every path by
names below the root leads to the same of these places, or to none of them. -/
structure SameBelow (t u : FileTree) (root : List Char) : Prop where
  home : u.place? root = t.place? root
  nodes : ∀ h, t.place? root = some h → ∀ p, h <+: p → u.node? p = t.node? p
  ways : ∀ h, t.place? root = some h → ∀ names, (∀ name ∈ names, Path.isPlainName name) →
    ∀ p, h <+: p →
    (u.place? (Path.descend root names) = some p ↔ t.place? (Path.descend root names) = some p)

variable {root : List Char}

theorem SameBelow.refl (t : FileTree) (root : List Char) : t.SameBelow t root :=
  ⟨rfl, fun _ _ _ _ => rfl, fun _ _ _ _ _ _ => .rfl⟩

theorem SameBelow.symm (same : t.SameBelow u root) : u.SameBelow t root := by
  refine ⟨same.home.symm, fun h base p inside => ?_, fun h base names plain p inside => ?_⟩
  · exact (same.nodes h (same.home ▸ base) p inside).symm
  · exact (same.ways h (same.home ▸ base) names plain p inside).symm

theorem SameBelow.trans (first : t.SameBelow u root) (second : u.SameBelow v root) :
    t.SameBelow v root := by
  refine ⟨second.home.trans first.home, fun h base p inside => ?_,
    fun h base names plain p inside => ?_⟩
  · exact (second.nodes h (first.home ▸ base) p inside).trans (first.nodes h base p inside)
  · exact (second.ways h (first.home ▸ base) names plain p inside).trans
      (first.ways h base names plain p inside)

/-! ### Roots without links -/

theorem seat?_congr {path : List Char} (ne : path ≠ []) (same : u.place? path = t.place? path)
    (node : ∀ q, t.place? path = some q → u.node? q = t.node? q) : u.seat? path = t.seat? path := by
  rw [← filter_place? ne, ← filter_place? ne, same]
  cases found : t.place? path with
  | none => rfl
  | some q => rw [Option.filter_some, Option.filter_some, hasDirectory, hasDirectory, node q found]

theorem place?_join_congr {dir name : List Char} (plain : Path.isPlainName name)
    (seat : u.seat? dir = t.seat? dir)
    (node : ∀ q, t.seat? dir = some q → u.node? (q ++ [name]) = t.node? (q ++ [name]))
    (solid : ∀ q target, t.seat? dir = some q → t.node? (q ++ [name]) ≠ some (.link target)) :
    u.place? (Path.join dir name) = t.place? (Path.join dir name) ∧
      ∀ p, t.place? (Path.join dir name) = some p → ∃ q, t.seat? dir = some q ∧ p = q ++ [name] := by
  have solid' : ∀ q target, u.seat? dir = some q → u.node? (q ++ [name]) ≠ some (.link target) := by
    intro q target found
    rw [seat] at found
    rw [node q found]
    exact solid q target found
  rw [place?_join plain solid, place?_join plain solid', seat]
  cases found : t.seat? dir with
  | none => simp
  | some q =>
    rw [Option.bind_some, Option.bind_some, node q found]
    refine ⟨rfl, fun p reached => ⟨q, rfl, ?_⟩⟩
    obtain ⟨_, _, rfl⟩ := Option.map_eq_some_iff.1 reached
    rfl

/-- In a root without links names lead to what stands under them. So if the root stands in the same
place with the same nodes, the trees are the same below it. -/
theorem sameBelow_of_solid (home : u.place? root = t.place? root)
    (nodes : ∀ h, t.place? root = some h → ∀ p, h <+: p → u.node? p = t.node? p)
    (solid : ∀ h, t.place? root = some h → ∀ p target, h <+: p → t.node? p ≠ some (.link target)) :
    t.SameBelow u root := by
  refine ⟨home, nodes, fun h base names plain p inside => ?_⟩
  have start : root ≠ [] := by rintro rfl; simp [FileTree.place?] at base
  -- one name after the other, the path leads to the place of the names so far
  have way : u.place? (Path.descend root names) = t.place? (Path.descend root names) ∧
      ∀ q, t.place? (Path.descend root names) = some q → q = h ++ names := by
    clear inside p
    induction names using List.reverseRecOn with
    | nil =>
      refine ⟨home, fun q found => ?_⟩
      rw [List.append_nil]
      exact (Option.some.inj (base.symm.trans found)).symm
    | append_singleton names name ih =>
      have before : ∀ name ∈ names, Path.isPlainName name := fun s mem =>
        plain s (List.mem_append_left _ mem)
      obtain ⟨same, there⟩ := ih before
      have ne := Path.descend_ne_nil start before
      have place : ∀ q, t.seat? (Path.descend root names) = some q → q = h ++ names :=
        fun q seat => there q (place?_of_seat? ne seat)
      have inside : ∀ q, q = h ++ names → h <+: q ++ [name] := by
        rintro q rfl
        exact ⟨names ++ [name], by simp⟩
      have seat := seat?_congr ne same fun q found =>
        nodes h base q (there q found ▸ List.prefix_append h names)
      obtain ⟨joined, reached⟩ := place?_join_congr (plain name (by simp)) seat
        (fun q found => nodes h base _ (inside q (place q found)))
        (fun q target found => solid h base _ target (inside q (place q found)))
      rw [Path.descend_concat]
      refine ⟨joined, fun p found => ?_⟩
      obtain ⟨q, seated, rfl⟩ := reached p found
      rw [place q seated, List.append_assoc]
  rw [way.1]

end FileTree

/-! ### Discovered files -/

namespace Discovery

variable {w : Terrain} {u : FileTree}

/-- A step leads to the same stop in a tree that agrees below the root. -/
theorem Terrain.enter?_congr (wf : w.tree.WellFormed) (base : w.tree.place? w.root = some w.home)
    (same : w.tree.SameBelow u w.root) {here : Stop} (tracks : Tracks w here) (above : List Place)
    (name : List Char) :
    Terrain.enter? { w with tree := u } above here name = w.enter? above here name := by
  have node := same.nodes _ base (here.place ++ [name])
    (tracks.inside.trans (List.prefix_append _ _))
  cases listed : w.tree.node? (here.place ++ [name]) with
  | none =>
    rw [listed] at node
    simp only [Terrain.enter?, listed, node]
  | some n =>
    rw [listed] at node
    by_cases link : ∃ target, n = .link target
    · obtain ⟨target, rfl⟩ := link
      have plain := wf.plain listed
      obtain ⟨names, plains, below⟩ := tracks.deeper plain
      -- the link counts only if it leads into the root, and there the trees agree
      refine Option.ext fun next => ?_
      rw [Terrain.enter?_of_link listed,
        Terrain.enter?_of_link (w := { w with tree := u }) node]
      refine and_congr_right fun path => ?_
      rw [path, below, and_left_comm, and_left_comm (b := w.home <+: next.place)]
      refine and_congr_right fun inside => and_congr ?_ ?_
      · exact same.ways _ base names plains _ inside
      · rw [FileTree.hasDirectory, FileTree.hasDirectory, same.nodes _ base _ inside]
    · have solid : ∀ target, n ≠ .link target := fun target eq => link ⟨target, eq⟩
      rw [Terrain.enter?_of_solid listed solid,
        Terrain.enter?_of_solid (w := { w with tree := u }) node solid]

/-- The walk finds the same files there. -/
theorem Terrain.filesFrom_congr (wf : w.tree.WellFormed)
    (base : w.tree.place? w.root = some w.home) (same : w.tree.SameBelow u w.root) {fuel : Nat}
    {above : List Place} {here : Stop} (tracks : Tracks w here) :
    Terrain.filesFrom { w with tree := u } fuel above here = w.filesFrom fuel above here := by
  induction fuel generalizing above here with
  | zero => rfl
  | succ fuel ih =>
    rw [filesFrom, filesFrom]
    have node := same.nodes _ base here.place tracks.inside
    have names : u.names here.place = w.tree.names here.place := FileTree.names_congr fun s =>
      same.nodes _ base _ (tracks.inside.trans (List.prefix_append _ _))
    simp only [node]
    cases listed : w.tree.node? here.place with
    | none => rfl
    | some n =>
      cases n with
      | file content modified => rfl
      | link target => rfl
      | directory =>
        have directory := FileTree.hasDirectory_iff.2 listed
        have entered : (u.names here.place).filterMap
              (Terrain.enter? { w with tree := u } (here.place :: above) here) =
            (w.tree.names here.place).filterMap (w.enter? (here.place :: above) here) := by
          rw [names]
          exact List.filterMap_congr fun name _ => enter?_congr wf base same tracks _ name
        simp only [entered]
        refine if_congr Iff.rfl rfl (List.flatMap_congr fun next mem => ?_)
        obtain ⟨name, _, enters⟩ := List.mem_filterMap.1 mem
        exact ih (tracks.enter? wf directory enters)

variable {t : FileTree} {root : List Char}

/-- Trees that agree below a root have the same files there. Each walk has its own fuel, so both are
given enough for either. -/
theorem files_congr (wf : t.WellFormed) (same : t.SameBelow u root) (filter : FileFilter) :
    files u root filter = files t root filter := by
  cases base : t.place? root with
  | none => rw [files, files, same.home, base]
  | some home =>
    rw [files_eq_filesFrom (same.home.trans base) filter (Nat.le_max_right (maxSteps t) (maxSteps u)),
      files_eq_filesFrom base filter (Nat.le_max_left (maxSteps t) (maxSteps u))]
    exact Terrain.filesFrom_congr (w := ⟨t, filter, root, home⟩) wf base same (tracks_root base filter)

/-- A file that is discovered is the same in both. -/
theorem find?_congr (wf : t.WellFormed) (same : t.SameBelow u root) {filter : FileFilter}
    {path : List Char} (h : path ∈ files t root filter) : u.find? path = t.find? path := by
  obtain ⟨home, s, base, tracks, rfl, _⟩ := exists_stop wf h
  obtain ⟨names, plain, below⟩ := tracks.below
  have ways := same.ways home base names plain s.place tracks.inside
  rw [← below] at ways
  have place := ways.2 tracks.place
  rw [FileTree.find?, FileTree.find?, place, tracks.place, Option.bind_some, Option.bind_some,
    same.nodes home base _ tracks.inside]

end Discovery

/-! ### Surveys -/

/-- What comes out of a file depends on the file alone. -/
theorem processFile_congr {t u : FileTree} {resolver : Resolver} {root path : List Char}
    (same : u.find? path = t.find? path) :
    processFile u resolver root path = processFile t resolver root path := by
  simp only [processFile, Discovery.record?, FileTree.readText?, same]

theorem Survey.foldl_advance_congr {p q : List Char → Option ProcessedFile} {total : Nat}
    {files : List (List Char)} (same : ∀ path ∈ files, p path = q path) (s : Survey) :
    files.foldl (fun s path => s.advance total (p path)) s =
      files.foldl (fun s path => s.advance total (q path)) s := by
  induction files generalizing s with
  | nil => rfl
  | cons path files ih =>
    rw [List.foldl_cons, List.foldl_cons, same path List.mem_cons_self]
    exact ih (fun other mem => same other (List.mem_cons_of_mem _ mem)) _

/-- The survey of a project is the same in trees that agree below its root. -/
theorem Survey.ofFiles_congr {t u : FileTree} {root : List Char} (wf : t.WellFormed)
    (same : t.SameBelow u root) (resolver : Resolver) (batchSize : Nat) (filter : FileFilter) :
    ofFiles u resolver root batchSize (Discovery.files u root filter) =
      ofFiles t resolver root batchSize (Discovery.files t root filter) := by
  rw [Discovery.files_congr wf same, ofFiles_eq, ofFiles_eq]
  exact foldl_advance_congr (fun path mem =>
    processFile_congr (Discovery.find?_congr wf same mem)) _

end SourceAtlas
