import SourceAtlas.Proofs.Analysis.Survey
/-!
Nothing outside a project is found in it. The walk tests only the links it meets, but each stop stands
at a place in the root's, and its path leads there: so the canonical form of every discovered path
begins with the canonical root, whatever links lie on the way. The catalog of an analysis that reads
files has records of such paths only.
-/

namespace SourceAtlas

namespace FileTree

variable {t : FileTree}

/-! ### Canonical paths -/

/-- The canonical form of a path: the text of the place it leads to, all links followed. -/
def canonical? (t : FileTree) (path : List Char) : Option (List Char) := (t.place? path).map placeText

/-- Names on the way to a node are plain. -/
theorem WellFormed.plain_of_mem (wf : t.WellFormed) {p : Place} {n : Node} (h : t.node? p = some n) :
    ∀ s ∈ p, Path.isPlainName s := by
  intro s hs
  obtain ⟨front, rest, rfl⟩ := List.append_of_mem hs
  have shorter : front ++ s :: rest = front ++ [s] ++ rest := by simp
  rw [shorter] at h
  cases rest with
  | nil => exact wf.plain (by simpa using h)
  | cons r rest => exact wf.plain (hasDirectory_iff.1 (wf.above (by simp) h))

theorem components_placeText {p : Place} (plain : ∀ s ∈ p, Path.isPlainName s) :
    Path.components (placeText p) = .root :: p.map .name := by
  have busy : ∀ s ∈ p, (!Path.isIdle s) = true := by
    intro s hs
    simp [(Path.isPlainName_iff.1 (plain s hs)).1]
  have steps : Path.steps (placeText p) = p := by
    rw [placeText, Path.steps_slash, Path.steps_join fun s hs => (Path.isPlainName_iff.1 (plain s hs)).2.2,
      List.filter_eq_self.2 busy]
  have absolute : Path.isAbsolute (placeText p) := rfl
  rw [Path.components_of_absolute absolute, steps]
  refine congrArg (Component.root :: ·) (List.map_congr_left fun s hs => ?_)
  rcases Path.ofStep_cases s with ⟨_, up⟩ | ⟨name, _⟩
  · exact absurd up (Path.isPlainName_iff.1 (plain s hs)).2.1
  · exact name

/-- Names that lead down to a node meet no link before it. -/
theorem trail_names (wf : t.WellFormed) (links : Nat) {names : List (List Char)} {here : Place}
    {n : Node} (node : t.node? (here ++ names) = some n) (solid : ∀ target, n ≠ .link target) :
    t.trail links here names = some (links, here ++ names) := by
  induction names generalizing here with
  | nil => simp [trail]
  | cons s rest ih =>
    have inside : t.hasDirectory here := wf.above (by simp) node
    have longer : here ++ s :: rest = here ++ [s] ++ rest := by simp
    rw [longer] at node ⊢
    have plain : Path.isPlainName s := wf.plain_of_mem node s (by simp)
    have next : t.trail links here [s] = some (links, here ++ [s]) := by
      rw [trail_name plain, if_pos inside]
      cases rest with
      | nil =>
        rw [List.append_nil] at node
        rw [node]
        cases n with
        | file content modified => rfl
        | directory => rfl
        | link target => exact absurd rfl (solid target)
      | cons r rest => rw [hasDirectory_iff.1 (wf.above (by simp) node)]
    rw [trail_cons, next, Option.bind_some]
    exact ih node

/-- The text of a place leads to it, unless a link stands there. -/
theorem place?_placeText (wf : t.WellFormed) {p : Place} {n : Node} (node : t.node? p = some n)
    (solid : ∀ target, n ≠ .link target) : t.place? (placeText p) = some p := by
  have start : startOf t.working (placeText p) = [] := rfl
  have root : t.hasDirectory [] := rfl
  rw [place?_eq_trail (by simp [placeText]), start]
  cases p with
  | nil => simp [placeText, Path.segments, Text.join, Text.split, trail, root, Path.isIdle]
  | cons s rest =>
    have slash : ∀ name ∈ s :: rest, '/' ∉ name := fun name mem =>
      (Path.isPlainName_iff.1 (wf.plain_of_mem node name mem)).2.2
    have segments : Path.segments (placeText (s :: rest)) = [] :: s :: rest := by
      rw [placeText, Path.segments, Text.split, if_pos rfl, Text.split_join (by simp) slash]
    have idle : Path.isIdle [] = true := rfl
    rw [segments, trail]
    simp only [root, idle, Bool.not_true, Bool.false_eq_true, if_false, if_true]
    rw [trail_names wf maxLinks node solid, Option.map_some, List.nil_append]

/-- The path leads into the root: its canonical form begins with the components of the canonical
root, and is a path of its own to the same place. -/
def LeadsInto (t : FileTree) (root path : List Char) : Prop :=
  ∃ home file, t.canonical? root = some home ∧ t.canonical? path = some file ∧
    t.canonical? file = some file ∧ Path.components home <+: Path.components file

theorem leadsInto_of_place? (wf : t.WellFormed) {root path : List Char} {home p : Place} {n : Node}
    (base : t.place? root = some home) (found : t.place? path = some p)
    (node : t.node? p = some n) (solid : ∀ target, n ≠ .link target) (inside : home <+: p) :
    t.LeadsInto root path := by
  have plain := wf.plain_of_mem node
  refine ⟨placeText home, placeText p, by rw [canonical?, base]; rfl, by rw [canonical?, found]; rfl,
    by rw [canonical?, place?_placeText wf node solid]; rfl, ?_⟩
  rw [components_placeText plain, components_placeText fun s hs => plain s (inside.subset hs)]
  exact List.prefix_cons_inj _ |>.2 (inside.map _)

end FileTree

/-! ### Discovered paths -/

/-- What is discovered in a part of a tree leads into the root in the whole. -/
theorem Discovery.leadsInto_of_mem_files {t u : FileTree} (wf : t.WellFormed) (part : u.PartOf t)
    (wf' : u.WellFormed) {root path : List Char} {filter : FileFilter}
    (h : path ∈ files u root filter) : t.LeadsInto root path := by
  obtain ⟨home, s, base, tracks, rfl, content, modified, node⟩ := exists_stop wf' h
  exact FileTree.leadsInto_of_place? wf (part.place? base) (part.place? tracks.place)
    (part.node? _ _ node) (by simp) tracks.inside

theorem Workspace.partOf_consult (w : Workspace) (t : FileTree) (now : Int) (key : String)
    (force : Bool) : (w.consult t now key force).2.2.PartOf t := by
  rcases (w.consult_spec t now key force).2 with same | dropped
  · rw [same]
    exact .refl
  · rw [dropped]
    exact w.cache.partOf_dropFile t key

/-- A catalog that is built holds nothing of a path that does not lead into the root. -/
theorem Workspace.holdsAt_of_outside {w : Workspace} {t : FileTree} {now : Int} {o : AnalyzeOptions}
    {a : Analysis} (wf : t.WellFormed) (ok : w.analyze t now o = .ok a)
    (built : a.summary.fromCache = false) {root : String} (here : a.workspace.root = some root)
    {k : String} (outside : ¬ t.LeadsInto root.toList k.toList) :
    a.workspace.catalog.HoldsAt k none none := by
  obtain ⟨s, _, rfl⟩ := analyze_eq_ok ok
  rcases w.analyzeRoot_cases t now s o.force with
    ⟨catalog, cache, u, consulted, result⟩ | ⟨cache, u, consulted, result⟩
  · rw [result] at built
    cases built
  · rw [result] at here ⊢
    obtain rfl : s.root = root := Option.some.inj here
    have part := w.partOf_consult t now s.key o.force
    have wf' : (w.consult t now s.key o.force).2.2.WellFormed := wellFormed_consult wf
    rw [consulted] at part wf'
    have absent : k.toList ∉ Discovery.files u s.root.toList s.filter := fun found =>
      outside (Discovery.leadsInto_of_mem_files wf part wf' found)
    exact (Survey.exact_ofFiles wf' _ _ _ _).2 k absent

/-- Nothing outside a project is found or catalogued. Whatever links the tree has, every discovered
path leads into the root, by its canonical form; and a catalog that an analysis builds holds nothing,
neither a record nor anything read from a text, of a path that does not. -/
theorem Discovery.files_inside {t : FileTree} (wf : t.WellFormed) :
    (∀ (root : List Char) (filter : FileFilter), ∀ path ∈ files t root filter,
      t.LeadsInto root path) ∧
    ∀ (w : Workspace) (now : Int) (o : AnalyzeOptions) (a : Analysis),
      w.analyze t now o = .ok a → a.summary.fromCache = false →
      ∃ root, a.workspace.root = some root ∧ ∀ k : String, ¬ t.LeadsInto root.toList k.toList →
        a.workspace.catalog.HoldsAt k none none := by
  refine ⟨fun root filter path found => leadsInto_of_mem_files wf .refl wf found,
    fun w now o a ok built => ?_⟩
  obtain ⟨s, _, rfl⟩ := Workspace.analyze_eq_ok ok
  exact ⟨s.root, w.root_analyzeRoot t now s o.force, fun k outside =>
    Workspace.holdsAt_of_outside wf ok built (w.root_analyzeRoot t now s o.force) outside⟩

/-- A project with a link that leaves it and comes back through another, one that leads to itself, one
that leads nowhere and one to a file outside. -/
def Discovery.linkedProject : FileTree :=
  ⟨[([['p']], .directory), ([['q']], .directory),
    ([['p'], "a.ts".toList], .file "class A {}".toUTF8 1),
    ([['p'], "back.ts".toList], .link "../q/on".toList),
    ([['p'], "loop.ts".toList], .link "loop.ts".toList),
    ([['p'], "lost.ts".toList], .link "nowhere".toList),
    ([['p'], "out.ts".toList], .link "/q/o.ts".toList),
    ([['q'], "o.ts".toList], .file "class O {}".toUTF8 2),
    ([['q'], "on".toList], .link "/p/a.ts".toList)], []⟩

/-- The link that comes back is the only one that is followed. -/
theorem Discovery.inside_linkedProject :
    files linkedProject "/p".toList ⟨[], []⟩ = ["/p/a.ts".toList, "/p/back.ts".toList] ∧
      linkedProject.LeadsInto "/p".toList "/p/back.ts".toList := by
  have home : linkedProject.place? "/p".toList = some [['p']] := by rfl
  have here : linkedProject.node? [['p']] = some .directory := rfl
  have names : linkedProject.names [['p']] =
      ["a.ts".toList, "back.ts".toList, "loop.ts".toList, "lost.ts".toList, "out.ts".toList] := by
    rw [FileTree.names]
    exact List.mergeSort_of_pairwise (by decide)
  have found : files linkedProject "/p".toList ⟨[], []⟩ =
      ["/p/a.ts".toList, "/p/back.ts".toList] := by
    rw [files, home]
    show Terrain.filesFrom _ 121 _ _ = _
    rw [Terrain.filesFrom]
    simp only [here, names]
    decide +kernel
  exact ⟨found, (files_inside (t := linkedProject) (by decide)).1 _ _ _ (by rw [found]; simp)⟩

end SourceAtlas
