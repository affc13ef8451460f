import Mathlib.Data.Finset.Card
import SourceAtlas.Proofs.Discovery.Walk
/-!
The walk through a project ends by itself. From a directory it goes down, to fewer places below, or it
follows a link to a directory that it does not stand in yet, of which fewer are left. So the depth
that is left to a stop falls with every step, and the fuel that the walk starts with is more than it
can use: any other amount that suffices gives the same files.
-/

namespace SourceAtlas.Discovery

variable {t : FileTree} {w : Terrain}

/-- The places of a tree: its root, and those with a node of their own. -/
def spots (t : FileTree) : Finset Place := insert [] (t.nodes.map (·.1)).toFinset

theorem mem_spots {p : Place} (h : t.hasDirectory p) : p ∈ spots t := by
  rw [spots, Finset.mem_insert, List.mem_toFinset]
  rcases List.eq_nil_or_concat p with rfl | ⟨front, name, rfl⟩
  · exact .inl rfl
  · have listed := FileTree.mem_nodes_of_node? (List.concat_eq_append ▸ FileTree.hasDirectory_iff.1 h)
    exact .inr (List.concat_eq_append ▸ List.mem_map_of_mem listed)

theorem card_spots_le (t : FileTree) : (spots t).card ≤ t.nodes.length + 1 := by
  have listed : (t.nodes.map (·.1)).toFinset.card ≤ t.nodes.length := by
    simpa using List.toFinset_card_le (t.nodes.map (·.1))
  have root := Finset.card_insert_le ([] : Place) (t.nodes.map (·.1)).toFinset
  rw [spots]
  omega

/-- The places that are none of some directories. -/
def fresh (t : FileTree) (above : List Place) : Finset Place := (spots t).filter (· ∉ above)

/-- The places at and below one. -/
def under (t : FileTree) (p : Place) : Finset Place := (spots t).filter (p <+: ·)

/-- A bound of the steps that the walk may still go down from a stop: between two links it passes
places below one another, and each link leads it to a fresh place. -/
def Terrain.depth (w : Terrain) (above : List Place) (here : Stop) : Nat :=
  if w.tree.hasDirectory here.place then
    (fresh w.tree (here.place :: above)).card * ((spots w.tree).card + 1) +
      (under w.tree here.place).card
  else 0

theorem card_under_le (t : FileTree) (p : Place) : (under t p).card ≤ (spots t).card :=
  Finset.card_le_card (Finset.filter_subset _ _)

theorem fresh_cons_subset (t : FileTree) (p : Place) (above : List Place) :
    fresh t (p :: above) ⊆ fresh t above := by
  intro q mem
  obtain ⟨spot, other⟩ := Finset.mem_filter.1 mem
  exact Finset.mem_filter.2 ⟨spot, fun old => other (List.mem_cons_of_mem p old)⟩

/-- A directory that was not above is fresh no longer. -/
theorem card_fresh_cons_lt {p : Place} {above : List Place} (directory : t.hasDirectory p)
    (new : p ∉ above) : (fresh t (p :: above)).card < (fresh t above).card := by
  refine Finset.card_lt_card (Finset.ssubset_iff_subset_ne.2 ⟨fresh_cons_subset t p above, ?_⟩)
  intro same
  have here : p ∈ fresh t above := Finset.mem_filter.2 ⟨mem_spots directory, new⟩
  rw [← same] at here
  exact (Finset.mem_filter.1 here).2 List.mem_cons_self

/-- A name below a directory has less below it. -/
theorem card_under_lt {p : Place} (directory : t.hasDirectory p) (name : List Char) :
    (under t (p ++ [name])).card < (under t p).card := by
  refine Finset.card_lt_card (Finset.ssubset_iff_subset_ne.2 ⟨fun q mem => ?_, fun same => ?_⟩)
  · obtain ⟨spot, below⟩ := Finset.mem_filter.1 mem
    exact Finset.mem_filter.2 ⟨spot, (List.prefix_append p [name]).trans below⟩
  · have here : p ∈ under t p := Finset.mem_filter.2 ⟨mem_spots directory, List.prefix_refl p⟩
    rw [← same] at here
    have shorter := (Finset.mem_filter.1 here).2.length_le
    rw [List.length_append, List.length_singleton] at shorter
    omega

/-- Every step from a directory leaves less depth. -/
theorem Terrain.depth_lt_of_enter? {above : List Place} {here next : Stop} {name : List Char}
    (directory : w.tree.hasDirectory here.place)
    (h : w.enter? (here.place :: above) here name = some next) :
    w.depth (here.place :: above) next < w.depth above here := by
  have below := card_under_lt directory name
  rw [depth, depth, if_pos directory]
  by_cases goes : w.tree.hasDirectory next.place
  · rw [if_pos goes]
    obtain ⟨_, _, _, ⟨_, place⟩ | ⟨_, _, new⟩⟩ := Terrain.enter?_cases h
    · -- down by a name: no place becomes fresh, and fewer lie below
      have fewer := Finset.card_le_card (fresh_cons_subset w.tree next.place (here.place :: above))
      have product := Nat.mul_le_mul_right ((spots w.tree).card + 1) fewer
      rw [place] at product ⊢
      omega
    · -- along a link: a fresh place is used up, which outweighs all that lies below it
      have fewer := card_fresh_cons_lt goes (new goes)
      have product := Nat.mul_le_mul_right ((spots w.tree).card + 1) (Nat.succ_le_of_lt fewer)
      have most := card_under_le w.tree next.place
      rw [Nat.succ_mul] at product
      omega
  · rw [if_neg goes]
    omega

/-- All fuel that exceeds the depth gives the same files. -/
theorem Terrain.filesFrom_congr_fuel {fuel fuel' : Nat} {above : List Place} {here : Stop}
    (enough : w.depth above here < fuel) (enough' : w.depth above here < fuel') :
    w.filesFrom fuel above here = w.filesFrom fuel' above here := by
  induction fuel generalizing fuel' above here with
  | zero => omega
  | succ fuel ih =>
    cases fuel' with
    | zero => omega
    | succ fuel' =>
      rw [filesFrom, filesFrom]
      cases node : w.tree.node? here.place with
      | none => rfl
      | some n =>
        cases n with
        | file content modified => rfl
        | link target => rfl
        | directory =>
          have directory := FileTree.hasDirectory_iff.2 node
          simp only
          split
          · rfl
          · refine List.flatMap_congr fun next entered => ?_
            obtain ⟨name, _, enters⟩ := List.mem_filterMap.1 entered
            have less := depth_lt_of_enter? directory enters
            exact ih (by omega) (by omega)

/-- The fuel of a walk exceeds the depth of its start. -/
theorem Terrain.depth_lt_maxSteps (w : Terrain) (here : Stop) :
    w.depth [] here < maxSteps w.tree := by
  have spots_le := card_spots_le w.tree
  have fresh_le : (fresh w.tree [here.place]).card ≤ (spots w.tree).card :=
    Finset.card_le_card (Finset.filter_subset _ _)
  have under_le := card_under_le w.tree here.place
  rw [depth, maxSteps]
  split
  · calc (fresh w.tree [here.place]).card * ((spots w.tree).card + 1) + (under w.tree here.place).card
        ≤ (w.tree.nodes.length + 1) * (w.tree.nodes.length + 2) + (w.tree.nodes.length + 1) :=
          Nat.add_le_add (Nat.mul_le_mul (by omega) (by omega)) (by omega)
      _ < (w.tree.nodes.length + 2) * (w.tree.nodes.length + 2) := by
          rw [Nat.succ_mul (w.tree.nodes.length + 1)]
          omega
  · exact Nat.mul_pos (by omega) (by omega)

/-- A walk needs no more fuel than it is given. -/
theorem files_eq_filesFrom {root : List Char} {home : Place} (base : t.place? root = some home)
    (filter : FileFilter) {fuel : Nat} (enough : maxSteps t ≤ fuel) :
    files t root filter = Terrain.filesFrom ⟨t, filter, root, home⟩ fuel [] ⟨root, home⟩ := by
  have depth := Terrain.depth_lt_maxSteps ⟨t, filter, root, home⟩ ⟨root, home⟩
  rw [files, base]
  exact Terrain.filesFrom_congr_fuel depth (Nat.lt_of_lt_of_le depth enough)

end SourceAtlas.Discovery
