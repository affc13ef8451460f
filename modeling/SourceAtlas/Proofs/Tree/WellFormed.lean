import SourceAtlas.Proofs.Association
import SourceAtlas.Proofs.Tree.Resolution
import SourceAtlas.Tree.Edit
/-!
Well-formed trees: every node stands in a directory, under a name that can be one. Making
directories, writing a file and removing one keep a tree well-formed, and each of them changes the
tree only where it says so.
-/

namespace SourceAtlas.FileTree

open SourceAtlas.Path (isIdle segments steps isPlainName)

variable {t u : FileTree}

/-! ### Nodes after a change -/

@[simp] theorem node?_nil : t.node? [] = some .directory := rfl

theorem node?_put {p : Place} (ne : p ≠ []) (n : Node) (q : Place) :
    (t.put p n).node? q = if q = p then some n else t.node? q := by
  by_cases root : q = []
  · subst root
    rw [if_neg (Ne.symm ne)]
    rfl
  · have others := lookup_filter (fun k => k != p) q t.nodes
    have full : q.isEmpty = false := by simpa using root
    simp only [node?, put, full, lookup_cons_ite, others]
    by_cases same : q = p <;> simp [same]

theorem node?_prune {p : Place} (ne : p ≠ []) (q : Place) :
    (t.prune p).node? q = if p.isPrefixOf q then none else t.node? q := by
  by_cases root : q = []
  · subst root
    have outside : p.isPrefixOf ([] : Place) = false := by
      cases p with
      | nil => exact absurd rfl ne
      | cons => rfl
    rw [outside]
    rfl
  · have others := lookup_filter (fun k => !p.isPrefixOf k) q t.nodes
    have full : q.isEmpty = false := by simpa using root
    simp only [node?, prune, full, others]
    by_cases below : p.isPrefixOf q <;> simp [below]

/-! ### Well-formed trees -/

/-- Every node is listed under a plain name in a directory, and so relative paths start in one. -/
structure WellFormed (t : FileTree) : Prop where
  listed : ∀ e ∈ t.nodes, t.hasDirectory e.1.dropLast ∧ e.1.getLast?.any isPlainName
  working : t.hasDirectory t.working

instance : Decidable t.WellFormed :=
  decidable_of_iff ((∀ e ∈ t.nodes, t.hasDirectory e.1.dropLast ∧ e.1.getLast?.any isPlainName) ∧
    t.hasDirectory t.working) ⟨fun h => ⟨h.1, h.2⟩, fun h => ⟨h.1, h.2⟩⟩

theorem mem_nodes_of_node? {p : Place} {s : List Char} {n : Node}
    (h : t.node? (p ++ [s]) = some n) : (p ++ [s], n) ∈ t.nodes := by
  rw [node?, if_neg (by simp)] at h
  exact mem_of_lookup h

/-- The names in a directory are those under which something stands. -/
theorem mem_names {p : Place} {s : List Char} : s ∈ t.names p ↔ (t.node? (p ++ [s])).isSome := by
  rw [names, List.mem_mergeSort, List.mem_eraseDups, List.mem_filterMap, node?, if_neg (by simp),
    List.lookup_isSome_iff]
  constructor
  · rintro ⟨⟨q, n⟩, here, last⟩
    obtain ⟨listed, place⟩ := List.mem_filter.1 here
    obtain ⟨front, rfl⟩ := List.getLast?_eq_some_iff.1 last
    obtain rfl : front = p := by simpa using place
    exact ⟨(front ++ [s], n), listed, by simp⟩
  · rintro ⟨⟨q, n⟩, mem, same⟩
    obtain rfl : p ++ [s] = q := by simpa using same
    exact ⟨(p ++ [s], n), List.mem_filter.2 ⟨mem, by simp⟩, by simp⟩

namespace WellFormed

theorem plain (wf : t.WellFormed) {p : Place} {s : List Char} {n : Node}
    (h : t.node? (p ++ [s]) = some n) : isPlainName s := by
  simpa using (wf.listed _ (mem_nodes_of_node? h)).2

theorem inside (wf : t.WellFormed) {p : Place} {s : List Char} {n : Node}
    (h : t.node? (p ++ [s]) = some n) : t.hasDirectory p := by
  simpa using (wf.listed _ (mem_nodes_of_node? h)).1

/-- What stands above a node is a directory. -/
theorem above (wf : t.WellFormed) : ∀ {q p : Place} {n : Node}, q ≠ [] →
    t.node? (p ++ q) = some n → t.hasDirectory p
  | [s], p, n, _, h => wf.inside h
  | s :: r :: rest, p, n, _, h => by
    have next : t.node? ((p ++ [s]) ++ r :: rest) = some n := by simpa using h
    exact wf.inside (hasDirectory_iff.1 (wf.above (by simp) next))

/-- Without a node that is no directory, everything else stands as before. -/
theorem node?_prune (wf : t.WellFormed) {p : Place} (leaf : t.hasDirectory p = false) (q : Place) :
    (t.prune p).node? q = if q = p then none else t.node? q := by
  have ne : p ≠ [] := by rintro rfl; simp [hasDirectory] at leaf
  rw [FileTree.node?_prune ne]
  by_cases same : q = p
  · simp [same]
  · rw [if_neg same]
    split
    · rename_i below
      obtain ⟨r, rfl⟩ := List.isPrefixOf_iff_prefix.1 below
      cases node : t.node? (p ++ r) with
      | none => rfl
      | some n =>
        have directory := wf.above (by rintro rfl; simp at same) node
        simp [leaf] at directory
    · rfl

/-- A node set under a plain name in a directory keeps the tree well-formed, unless it takes the
place of a directory. -/
theorem put (wf : t.WellFormed) {p : Place} {s : List Char} {n : Node} (inside : t.hasDirectory p)
    (plain : isPlainName s) (keeps : t.hasDirectory (p ++ [s]) → n = .directory) :
    (t.put (p ++ [s]) n).WellFormed := by
  have stays : ∀ q, t.hasDirectory q → (t.put (p ++ [s]) n).hasDirectory q := by
    intro q h
    rw [hasDirectory_iff, node?_put (by simp)]
    by_cases same : q = p ++ [s]
    · rw [if_pos same, keeps (same ▸ h)]
    · rw [if_neg same, hasDirectory_iff.1 h]
  refine ⟨?_, stays _ wf.working⟩
  intro e he
  rcases List.mem_cons.1 he with rfl | he
  · simpa [plain] using stays p inside
  · have listed := wf.listed e ((List.mem_filter.1 he).1)
    exact ⟨stays _ listed.1, listed.2⟩

theorem prune (wf : t.WellFormed) {p : Place} (leaf : t.hasDirectory p = false) :
    (t.prune p).WellFormed := by
  have stays : ∀ q, t.hasDirectory q → (t.prune p).hasDirectory q := by
    intro q h
    have ne : q ≠ p := by rintro rfl; simp [leaf] at h
    rw [hasDirectory_iff, wf.node?_prune leaf, if_neg ne, hasDirectory_iff.1 h]
  refine ⟨?_, stays _ wf.working⟩
  intro e he
  have listed := wf.listed e ((List.mem_filter.1 he).1)
  exact ⟨stays _ listed.1, listed.2⟩

end WellFormed

/-! ### Kept ways -/

/-- A file set in place of nothing or of a file keeps all ways. -/
theorem Keeps.put {p : Place} (ne : p ≠ []) {n : Node} (leaf : t.hasDirectory p = false)
    (solid : ∀ target, t.node? p ≠ some (.link target)) : t.Keeps (t.put p n) := by
  refine ⟨rfl, ?_, ?_⟩
  · intro q h
    have other : q ≠ p := by rintro rfl; simp [leaf] at h
    rw [hasDirectory_iff, node?_put ne, if_neg other, hasDirectory_iff.1 h]
  · intro q target h
    have other : q ≠ p := by rintro rfl; exact solid target h
    rw [node?_put ne, if_neg other, h]

/-- So does a tree without a file. -/
theorem Keeps.prune (wf : t.WellFormed) {p : Place} (leaf : t.hasDirectory p = false)
    (solid : ∀ target, t.node? p ≠ some (.link target)) : t.Keeps (t.prune p) := by
  refine ⟨rfl, ?_, ?_⟩
  · intro q h
    have other : q ≠ p := by rintro rfl; simp [leaf] at h
    rw [hasDirectory_iff, wf.node?_prune leaf, if_neg other, hasDirectory_iff.1 h]
  · intro q target h
    have other : q ≠ p := by rintro rfl; exact solid target h
    rw [wf.node?_prune leaf, if_neg other, h]

/-! ### Parts of a tree -/

/-- Every node of the first tree stands in the second. -/
structure PartOf (u t : FileTree) : Prop where
  working : t.working = u.working
  node? : ∀ p n, u.node? p = some n → t.node? p = some n

theorem PartOf.refl : t.PartOf t := ⟨rfl, fun _ _ h => h⟩

theorem PartOf.trans {v : FileTree} (first : t.PartOf u) (second : u.PartOf v) : t.PartOf v :=
  ⟨second.working.trans first.working, fun p n h => second.node? p n (first.node? p n h)⟩

theorem partOf_prune (t : FileTree) {p : Place} (leaf : t.hasDirectory p = false) :
    (t.prune p).PartOf t := by
  have ne : p ≠ [] := by rintro rfl; simp [hasDirectory] at leaf
  refine ⟨rfl, fun q n node => ?_⟩
  rw [node?_prune ne] at node
  split at node
  · cases node
  · exact node

theorem PartOf.keeps (part : u.PartOf t) : u.Keeps t := by
  refine ⟨part.working, fun q directory => ?_, fun q target => part.node? q _⟩
  exact hasDirectory_iff.2 (part.node? q _ (hasDirectory_iff.1 directory))

/-- A path that leads somewhere in a part of a tree leads there in the tree. -/
theorem PartOf.place? (part : u.PartOf t) {path : List Char} {p : Place}
    (h : u.place? path = some p) : t.place? path = some p :=
  part.keeps.place? h (part.node? p)

/-! ### Making directories -/

/-- The second tree has the nodes of the first, and new directories. -/
def Grows (t u : FileTree) : Prop :=
  u.working = t.working ∧
    ∀ q, u.node? q = t.node? q ∨ t.node? q = none ∧ u.node? q = some .directory

theorem Grows.refl : t.Grows t := ⟨rfl, fun _ => .inl rfl⟩

theorem Grows.trans {v : FileTree} (first : t.Grows u) (second : u.Grows v) : t.Grows v := by
  refine ⟨second.1.trans first.1, fun q => ?_⟩
  rcases second.2 q with same | ⟨none, new⟩
  · rw [same]
    exact first.2 q
  · rcases first.2 q with same | ⟨_, new'⟩
    · exact .inr ⟨same ▸ none, new⟩
    · rw [new'] at none
      cases none

theorem Grows.keeps (grows : t.Grows u) : t.Keeps u := by
  refine ⟨grows.1, ?_, ?_⟩
  · intro q h
    rw [hasDirectory_iff] at h ⊢
    rcases grows.2 q with same | ⟨_, new⟩
    · rw [same, h]
    · exact new
  · intro q target h
    rcases grows.2 q with same | ⟨none, _⟩
    · rw [same, h]
    · rw [h] at none
      cases none

theorem isPlainName_of_fileName? {path name : List Char} (h : Path.fileName? path = some name) :
    isPlainName name := by
  obtain ⟨ends, up⟩ := Path.steps_of_fileName? h
  have step : name ∈ steps path := by rw [ends]; simp
  obtain ⟨segment, busy⟩ := List.mem_filter.1 step
  exact Path.isPlainName_iff.2 ⟨by simpa using busy, up, Path.slash_not_mem_segments segment⟩

theorem addDirectory_of_isDirectory {path : List Char} (h : t.isDirectory path) :
    t.addDirectory path = some t := by
  rw [addDirectory, if_pos h]

/-- A directory that was added is there, and nothing else is new. -/
theorem addDirectory_spec (wf : t.WellFormed) {path : List Char} (ne : path ≠ [])
    (h : t.addDirectory path = some u) : u.WellFormed ∧ t.Grows u ∧ u.seat? path ≠ none := by
  rw [addDirectory] at h
  split at h
  · rename_i there
    obtain rfl := Option.some.inj h
    rw [isDirectory_eq ne, Option.isSome_iff_ne_none] at there
    exact ⟨wf, .refl, there⟩
  · split at h
    · rename_i p entry
      split at h
      · cases h
      · rename_i free
        obtain rfl := Option.some.inj h
        have free : t.node? p = none := by simpa using free
        obtain ⟨name, named⟩ : ∃ name, Path.fileName? path = some name := by
          cases named : Path.fileName? path with
          | none => simp [FileTree.entry?, named] at entry
          | some name => exact ⟨name, rfl⟩
        rw [entry?_eq named, Option.map_eq_some_iff] at entry
        obtain ⟨d, seat, rfl⟩ := entry
        have plain := isPlainName_of_fileName? named
        have inside := hasDirectory_of_seatFrom? seat
        have empty : t.hasDirectory (d ++ [name]) = false := by rw [hasDirectory, free]
        have grows : t.Grows (t.put (d ++ [name]) .directory) := by
          refine ⟨rfl, fun q => ?_⟩
          rw [node?_put (by simp)]
          by_cases same : q = d ++ [name]
          · rw [same, if_pos rfl]
            exact .inr ⟨free, rfl⟩
          · rw [if_neg same]
            exact .inl rfl
        have made : (t.put (d ++ [name]) .directory).seat? path = some (d ++ [name]) := by
          rw [seat?, (Path.steps_of_fileName? named).1]
          refine seatFrom?_append_name plain (grows.keeps.seatFrom? seat) ?_
          rw [node?_put (by simp), if_pos rfl]
        exact ⟨wf.put inside plain fun _ => rfl, grows, by rw [made]; simp⟩
    · cases h

theorem foldlM_addDirectory_spec {paths : List (List Char)} (wf : t.WellFormed)
    (ne : ∀ path ∈ paths, path ≠ []) (h : paths.foldlM addDirectory t = some u) :
    u.WellFormed ∧ t.Grows u ∧ ∀ path ∈ paths, u.seat? path ≠ none := by
  induction paths generalizing t with
  | nil =>
    obtain rfl := Option.some.inj h
    exact ⟨wf, .refl, by simp⟩
  | cons path paths ih =>
    obtain ⟨v, first, rest⟩ := Option.bind_eq_some_iff.1 h
    obtain ⟨wf', grows, made⟩ := addDirectory_spec wf (ne path List.mem_cons_self) first
    obtain ⟨wf'', grows', others⟩ := ih wf' (fun p hp => ne p (List.mem_cons_of_mem _ hp)) rest
    refine ⟨wf'', grows.trans grows', List.forall_mem_cons.2 ⟨?_, others⟩⟩
    obtain ⟨p, seat⟩ := Option.ne_none_iff_exists'.1 made
    rw [grows'.keeps.seat? seat]
    simp

/-- Directories that were made lead to a seat, and nothing but directories is new. -/
theorem makeDirectories_spec (wf : t.WellFormed) {path : List Char}
    (h : t.makeDirectories path = some u) :
    u.WellFormed ∧ t.Grows u ∧ ∃ p, u.seat? path = some p := by
  have filled : ∀ q ∈ (Path.ancestors (path.length + 1) path).reverse.filter fun p => !p.isEmpty,
      q ≠ [] := by
    intro q hq
    simpa using (List.mem_filter.1 hq).2
  obtain ⟨wf', grows, made⟩ := foldlM_addDirectory_spec wf filled h
  refine ⟨wf', grows, ?_⟩
  cases path with
  | nil =>
    refine ⟨u.working, ?_⟩
    simp [seat?, seatFrom?, trail, startOf, Path.isAbsolute, Option.filter_some, wf'.working]
  | cons c cs =>
    have last := made (c :: cs) (by simp [Path.ancestors])
    exact Option.ne_none_iff_exists'.1 last

theorem seat?_parent? {path up : List Char} (h : Path.parent? path = some up)
    (seat : t.seat? path ≠ none) : t.seat? up ≠ none := by
  obtain ⟨before, start⟩ := Path.steps_parent? h
  rw [seat?, before, startOf, start, ← startOf]
  rcases List.eq_nil_or_concat (steps path) with none | ⟨front, last, eq⟩
  · rw [seat?, none] at seat
    rw [none]
    exact seat
  · rw [seat?, eq, List.concat_eq_append] at seat
    rw [eq, List.concat_eq_append, List.dropLast_concat]
    exact seatFrom?_append_singleton seat

theorem seat?_ancestors {n : Nat} {path : List Char} (seat : t.seat? path ≠ none) :
    ∀ up ∈ Path.ancestors n path, t.seat? up ≠ none := by
  induction n generalizing path with
  | zero => simp [Path.ancestors]
  | succ n ih =>
    intro up h
    rw [Path.ancestors] at h
    rcases List.mem_cons.1 h with rfl | h
    · exact seat
    · split at h
      · rename_i q parent
        exact ih (seat?_parent? parent seat) up h
      · cases h

/-- Where the directory is there, nothing is made. -/
theorem makeDirectories_of_seat? {path : List Char} {p : Place} (seat : t.seat? path = some p) :
    t.makeDirectories path = some t := by
  have there : ∀ up ∈ (Path.ancestors (path.length + 1) path).reverse.filter fun p => !p.isEmpty,
      t.addDirectory up = some t := by
    intro up h
    obtain ⟨mem, filled⟩ := List.mem_filter.1 h
    have seated := seat?_ancestors (by rw [seat]; simp) up (List.mem_reverse.1 mem)
    refine addDirectory_of_isDirectory ?_
    rw [isDirectory_eq (by simpa using filled), Option.isSome_iff_ne_none]
    exact seated
  rw [makeDirectories]
  generalize (Path.ancestors (path.length + 1) path).reverse.filter (fun p => !p.isEmpty) = ups at there
  induction ups with
  | nil => rfl
  | cons up ups ih =>
    rw [List.foldlM_cons, there up List.mem_cons_self]
    exact ih fun q hq => there q (List.mem_cons_of_mem _ hq)

end SourceAtlas.FileTree
