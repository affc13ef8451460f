import SourceAtlas.Config
import SourceAtlas.Proofs.Discovery.Listing
import SourceAtlas.Proofs.Glob.OpenEnd
import SourceAtlas.Proofs.Path.Relative
/-!
Directories that the walk does not enter. A directory is pruned when an exclusion matches it with a slash
behind it. If the exclusion ends in two asterisks, it matches all that stands below as well, as long as
the path goes on in one line: none of these files would be taken. So where only such exclusions prune, a
walk that enters every directory and asks the filter for each file finds the same files in the same order.
-/

namespace SourceAtlas

namespace Discovery

variable {w : Terrain}

/-- The walk that prunes nothing and takes every file. -/
def Terrain.unpruned (w : Terrain) : Terrain := { w with filter := .ofPatterns [] [] }

theorem Terrain.unpruned_leaf {above : List Place} {here : Stop}
    (leaf : w.tree.hasDirectory here.place = false) (fuel : Nat) :
    w.unpruned.filesFrom (fuel + 1) above here =
      if w.tree.hasFile here.place then [here.path] else [] := by
  rw [filesFrom_leaf (w := w.unpruned) leaf]
  simp [unpruned, FileFilter.takesFile, FileFilter.ofPatterns]

theorem Terrain.unpruned_inner {above : List Place} {here : Stop}
    (directory : w.tree.hasDirectory here.place) (fuel : Nat) :
    w.unpruned.filesFrom (fuel + 1) above here =
      ((w.tree.names here.place).filterMap (w.enter? (here.place :: above) here)).flatMap
        (w.unpruned.filesFrom fuel (here.place :: above)) := by
  rw [filesFrom_inner (w := w.unpruned) directory]
  exact if_neg fun pruned => by simp [unpruned, FileFilter.prunes, FileFilter.ofPatterns] at pruned

/-- What the walk gives lies below where it stands: a file is the stop itself, and from a directory the
path goes on. -/
theorem Terrain.exists_names_of_mem (wf : w.tree.WellFormed) {fuel : Nat} {above : List Place}
    {here : Stop} {path : List Char} (h : path ∈ w.filesFrom fuel above here) :
    ∃ names, (∀ name ∈ names, Path.isPlainName name) ∧ path = Path.descend here.path names ∧
      (w.tree.hasDirectory here.place → names ≠ []) := by
  induction fuel generalizing above here with
  | zero => simp [filesFrom] at h
  | succ fuel ih =>
    cases directory : w.tree.hasDirectory here.place with
    | false =>
      rw [filesFrom_leaf directory, List.mem_ite_nil_right, List.mem_singleton] at h
      exact ⟨[], by simp, h.2, by simp⟩
    | true =>
      rw [filesFrom_inner directory, List.mem_ite_nil_left] at h
      obtain ⟨next, entered, later⟩ := List.mem_flatMap.1 h.2
      obtain ⟨name, _, enters⟩ := List.mem_filterMap.1 entered
      obtain ⟨n, listed, path, _⟩ := Terrain.enter?_cases enters
      obtain ⟨names, plain, below, _⟩ := ih later
      refine ⟨name :: names, List.forall_mem_cons.2 ⟨wf.plain listed, plain⟩, ?_, by simp⟩
      rw [below, path]
      rfl

/-- The filter does not take the path below a directory that it prunes. -/
def Terrain.Spares (w : Terrain) (path : List Char) : Prop :=
  ∀ front back, front ≠ [] → back ≠ [] → (∀ name ∈ front ++ back, Path.isPlainName name) →
    path = Path.descend w.root (front ++ back) →
    w.filter.prunes (w.relative (Path.descend w.root front)) →
    w.filter.takesFile (w.relative path) = false

/-- Of paths that are spared, the walk finds those that it would find by entering every directory and
asking for each file. -/
theorem Terrain.filter_filesFrom (wf : w.tree.WellFormed) {kept : List Char → Bool} {fuel : Nat}
    {above : List Place} {here : Stop} {names : List (List Char)}
    (spares : ∀ path ∈ w.unpruned.filesFrom fuel above here, kept path → w.Spares path)
    (plain : ∀ name ∈ names, Path.isPlainName name) (path : here.path = Path.descend w.root names)
    (below : above ≠ [] → names ≠ []) :
    (w.filesFrom fuel above here).filter kept =
      (w.unpruned.filesFrom fuel above here).filter fun p =>
        kept p && w.filter.takesFile (w.relative p) := by
  induction fuel generalizing above here names with
  | zero => rfl
  | succ fuel ih =>
    cases directory : w.tree.hasDirectory here.place with
    | false =>
      rw [filesFrom_leaf directory, unpruned_leaf directory]
      by_cases taken : w.filter.takesFile (w.relative here.path) <;>
        by_cases file : w.tree.hasFile here.place <;> simp [taken, file, List.filter_cons]
    | true =>
      rw [filesFrom_inner directory]
      split
      · -- nothing is found below, and nothing there would be taken
        rename_i pruned
        obtain ⟨inside, prunes⟩ := pruned
        rw [List.filter_nil, eq_comm, List.filter_eq_nil_iff]
        intro p mem taken
        obtain ⟨more, plain', down, further⟩ := exists_names_of_mem (w := w.unpruned) wf mem
        rw [path, Path.descend_append] at down
        rw [Bool.and_eq_true] at taken
        have lost := spares p mem taken.1 names more (below inside) (further directory)
          (List.forall_mem_append.2 ⟨plain, plain'⟩) down (path ▸ prunes)
        rw [lost] at taken
        cases taken.2
      · rw [unpruned_inner directory, List.filter_flatMap, List.filter_flatMap]
        refine List.flatMap_congr fun next entered => ?_
        obtain ⟨name, _, enters⟩ := List.mem_filterMap.1 entered
        obtain ⟨n, listed, down, _⟩ := Terrain.enter?_cases enters
        have longer : ∀ s ∈ names ++ [name], Path.isPlainName s :=
          List.forall_mem_append.2 ⟨plain, by simpa using wf.plain listed⟩
        refine ih (fun p mem => spares p ?_) longer ?_ (by simp)
        · rw [unpruned_inner directory]
          exact List.mem_flatMap.2 ⟨next, entered, mem⟩
        · rw [down, path, Path.descend_concat]

end Discovery

/-! ### Open exclusions -/

namespace FileFilter

variable {included excluded : List String} {pattern path : String}

/-- What an exclusion matches is not taken. -/
theorem takesFile_of_accepts (among : pattern ∈ excluded) (h : (Glob.ofString pattern).accepts path) :
    (ofPatterns included excluded).takesFile path = false := by
  have excludes : (ofPatterns included excluded).excluded.any (·.accepts path) :=
    List.any_eq_true.2 ⟨_, List.mem_map_of_mem among, h⟩
  rw [takesFile, excludes]
  rfl

theorem prunes_iff {directory : String} : (ofPatterns included excluded).prunes directory ↔
    ∃ pattern ∈ excluded, (Glob.ofString pattern).accepts (directory ++ "/") := by
  simp [prunes, ofPatterns]

/-- Whatever is pruned above a path is pruned by an exclusion that ends in two asterisks, and from there
the path goes on in one line. -/
def PrunedOpenly (excluded : List String) (path : String) : Prop :=
  ∀ directory rest : String, path = directory ++ "/" ++ rest →
    (∃ pattern ∈ excluded, (Glob.ofString pattern).accepts (directory ++ "/")) →
    '\n' ∉ rest.toList ∧
      ∃ pattern ∈ excluded, Glob.IsOpen pattern ∧ (Glob.ofString pattern).accepts (directory ++ "/")

/-- If all exclusions end so, every path of one line is such a path. -/
theorem prunedOpenly_of_line (ends : ∀ pattern ∈ excluded, Glob.IsOpen pattern)
    (line : '\n' ∉ path.toList) : PrunedOpenly excluded path := by
  rintro directory rest rfl ⟨pattern, among, pruned⟩
  refine ⟨fun mem => line ?_, pattern, among, ends pattern among, pruned⟩
  simp [mem]

/-- It is not taken if anything above it is pruned. -/
theorem PrunedOpenly.takesFile {directory rest : String}
    (h : PrunedOpenly excluded (directory ++ "/" ++ rest))
    (pruned : (ofPatterns included excluded).prunes directory) :
    (ofPatterns included excluded).takesFile (directory ++ "/" ++ rest) = false := by
  obtain ⟨line, pattern, among, ends, accepts⟩ := h directory rest rfl (prunes_iff.1 pruned)
  exact takesFile_of_accepts among (Glob.accepts_below ends line accepts)

end FileFilter

namespace Discovery

theorem Terrain.spares_of_prunedOpenly {w : Terrain} {included excluded : List String}
    (filter : w.filter = .ofPatterns included excluded) (ne : w.root ≠ []) {path : List Char}
    (h : FileFilter.PrunedOpenly excluded (w.relative path)) : w.Spares path := by
  rintro front back above below plain rfl pruned
  have shown : w.relative (Path.descend w.root (front ++ back)) =
      Path.shownNames front ++ "/" ++ Path.shownNames back := by
    rw [relative, Path.relative_descend ne plain, Path.shownNames_append above below]
  have directory : w.relative (Path.descend w.root front) = Path.shownNames front :=
    Path.relative_descend ne fun name mem => plain name (List.mem_append_left _ mem)
  rw [filter] at pruned ⊢
  rw [shown] at h ⊢
  rw [directory] at pruned
  exact h.takesFile pruned

/-- Pruning by exclusions that end in two asterisks, as those of the default settings do, loses nothing.
What such a pattern matches at a directory, it matches at every path of one line below; a filter with it
prunes the directory and takes none of these paths. In any tree, links included, and of whatever choice
of paths below which only such exclusions prune, the walk finds the same files in the same order as a walk
that enters every directory and asks the filter for each file. -/
theorem pruning_loses_nothing :
    (∀ pattern, Glob.IsOpen pattern → ∀ directory rest : String, '\n' ∉ rest.toList →
      (Glob.ofString pattern).accepts (directory ++ "/") →
      (Glob.ofString pattern).accepts (directory ++ "/" ++ rest) ∧
        ∀ included excluded, pattern ∈ excluded →
          (FileFilter.ofPatterns included excluded).prunes directory ∧
          (FileFilter.ofPatterns included excluded).takesFile (directory ++ "/" ++ rest) = false) ∧
    (∀ pattern ∈ (default : IndexingConfig).excluded, Glob.IsOpen pattern) ∧
    ∀ t : FileTree, t.WellFormed → ∀ (root : List Char) (included excluded : List String)
      (kept : List Char → Bool),
      (∀ path ∈ files t root (.ofPatterns [] []), kept path →
        FileFilter.PrunedOpenly excluded (Path.relative (.ofList root) (.ofList path))) →
      (files t root (.ofPatterns included excluded)).filter kept =
        (files t root (.ofPatterns [] [])).filter fun path => kept path &&
          (FileFilter.ofPatterns included excluded).takesFile
            (Path.relative (.ofList root) (.ofList path)) := by
  refine ⟨fun pattern ends directory rest line accepts => ?_, by decide,
    fun t wf root included excluded kept openly => ?_⟩
  · have below := Glob.accepts_below ends line accepts
    exact ⟨below, fun included excluded among =>
      ⟨FileFilter.prunes_iff.2 ⟨pattern, among, accepts⟩, FileFilter.takesFile_of_accepts among below⟩⟩
  · cases base : t.place? root with
    | none => simp [files, base]
    | some home =>
      have ne : root ≠ [] := by
        rintro rfl
        simp [FileTree.place?] at base
      have walk : ∀ filter, files t root filter =
          Terrain.filesFrom ⟨t, filter, root, home⟩ (maxSteps t) [] ⟨root, home⟩ := fun filter => by
        rw [files, base]
      rw [walk] at openly
      rw [walk, walk]
      have here : ∀ name ∈ ([] : List (List Char)), Path.isPlainName name := by simp
      exact Terrain.filter_filesFrom (w := ⟨t, .ofPatterns included excluded, root, home⟩) wf
        (fun path mem keeps => Terrain.spares_of_prunedOpenly rfl ne (openly path mem keeps)) here rfl
        fun below => absurd rfl below

/-- The path is shown in one line. -/
def isLine (root path : List Char) : Bool :=
  !(Path.relative (.ofList root) (.ofList path)).toList.contains '\n'

/-- A pattern with an odd number of asterisks at its end, and a project with a directory that is left
out. -/
theorem pruning_loses_nothing_sample :
    Glob.IsOpen "b?ild***" ∧ (Glob.ofString "b?ild***").accepts ("build-a" ++ "/") ∧
      (Glob.ofString "b?ild***").accepts ("build-a" ++ "/" ++ "x/y.ts") ∧
      prunedProject.WellFormed ∧
      (∀ path, isLine "/p".toList path → FileFilter.PrunedOpenly ["dist/**"]
        (Path.relative (.ofList "/p".toList) (.ofList path))) ∧
      (files prunedProject "/p".toList sourceFilter).filter (isLine "/p".toList) =
        (files prunedProject "/p".toList (.ofPatterns [] [])).filter fun path =>
          isLine "/p".toList path &&
            sourceFilter.takesFile (Path.relative (.ofList "/p".toList) (.ofList path)) := by
  obtain ⟨below, _, walk⟩ := pruning_loses_nothing
  have ends : Glob.IsOpen "b?ild***" := by decide
  have here : (Glob.ofString "b?ild***").accepts ("build-a" ++ "/") := by decide +kernel
  have wf : prunedProject.WellFormed := by decide
  have openly : ∀ path, isLine "/p".toList path → FileFilter.PrunedOpenly ["dist/**"]
      (Path.relative (.ofList "/p".toList) (.ofList path)) := fun path line =>
    FileFilter.prunedOpenly_of_line (by decide) (by simpa [isLine] using line)
  exact ⟨ends, here, (below _ ends "build-a" "x/y.ts" (by decide) here).1, wf, openly,
    walk prunedProject wf "/p".toList ["**/*.ts"] ["dist/**"] _ fun path _ line => openly path line⟩

/-- Other patterns prune more than they exclude: this one matches no file. -/
example : (FileFilter.ofPatterns [] ["dist/"]).prunes "dist" ∧
    (FileFilter.ofPatterns [] ["dist/"]).takesFile "dist/app.js" := by decide +kernel

end Discovery

end SourceAtlas
