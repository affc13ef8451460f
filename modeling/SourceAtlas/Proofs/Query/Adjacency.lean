import Mathlib.Data.List.Basic
import SourceAtlas.Proofs.Catalog.TextMap
import SourceAtlas.Query.Dependency
/-!
The graph beside the edges of a walk. It is told by the edges alone: a name has an entry if an edge
comes from it, and there stand the targets of the edges from it, each once, in the order of the first
edges to them. Linking one edge more keeps that, so it holds of the edges of both walks together.
-/

namespace SourceAtlas

/-- The targets of the edges that come from a name, in the order of the edges. -/
def targetsFrom (edges : List DependencyEdge) (name : String) : List String :=
  (edges.filter (·.source == name)).map (·.target)

section

variable {edges : List DependencyEdge} {e : DependencyEdge} {name target : String}

theorem mem_targetsFrom :
    target ∈ targetsFrom edges name ↔ ∃ e ∈ edges, e.source = name ∧ e.target = target := by
  simp [targetsFrom, and_assoc]

theorem targetsFrom_concat_self (edges : List DependencyEdge) (e : DependencyEdge) :
    targetsFrom (edges ++ [e]) e.source = targetsFrom edges e.source ++ [e.target] := by
  simp [targetsFrom]

theorem targetsFrom_concat_other (other : name ≠ e.source) :
    targetsFrom (edges ++ [e]) name = targetsFrom edges name := by
  simp [targetsFrom, Ne.symm other]

end

/-- A list has the items of another one, each once, in the order in which they first appear there. -/
structure IsFirsts (all firsts : List String) : Prop where
  mem : ∀ item, item ∈ firsts ↔ item ∈ all
  once : firsts.Nodup
  order : firsts.Pairwise fun a b => all.idxOf a < all.idxOf b

namespace IsFirsts

variable {all firsts : List String} {item : String}

theorem nil : IsFirsts [] [] := ⟨fun _ => Iff.rfl, List.nodup_nil, .nil⟩

/-- What comes behind does not change where the items first appear. -/
theorem order_append (h : IsFirsts all firsts) (later : List String) :
    firsts.Pairwise fun a b => (all ++ later).idxOf a < (all ++ later).idxOf b := by
  refine h.order.imp_of_mem fun {a b} ha hb before => ?_
  rw [List.idxOf_append_of_mem ((h.mem a).1 ha), List.idxOf_append_of_mem ((h.mem b).1 hb)]
  exact before

/-- An item that is there already changes nothing, -/
theorem concat_known (h : IsFirsts all firsts) (known : item ∈ firsts) :
    IsFirsts (all ++ [item]) firsts := by
  refine ⟨fun other => ?_, h.once, h.order_append [item]⟩
  rw [List.mem_append, List.mem_singleton, ← h.mem]
  constructor
  · exact .inl
  · rintro (old | rfl)
    · exact old
    · exact known

/-- and a new one comes last. -/
theorem concat_new (h : IsFirsts all firsts) (new : item ∉ firsts) :
    IsFirsts (all ++ [item]) (firsts ++ [item]) := by
  have absent : item ∉ all := fun mem => new ((h.mem item).2 mem)
  refine ⟨fun other => ?_, ?_, ?_⟩
  · rw [List.mem_append, List.mem_append, h.mem]
  · refine List.nodup_append.2 ⟨h.once, List.pairwise_singleton _ _, ?_⟩
    rintro a ha b hb rfl
    exact new (List.mem_singleton.1 hb ▸ ha)
  · refine List.pairwise_append.2 ⟨h.order_append [item], List.pairwise_singleton _ _, ?_⟩
    intro a ha b hb
    rw [List.mem_singleton.1 hb, List.idxOf_append_of_mem ((h.mem a).1 ha),
      List.idxOf_append_of_notMem absent]
    have early := List.idxOf_lt_length_of_mem ((h.mem a).1 ha)
    omega

end IsFirsts

/-- A graph lists edges: its names are those that edges come from, each with the targets of the edges
from it. -/
structure ListsEdges (edges : List DependencyEdge) (graph : TextMap (List String)) : Prop where
  keys : ∀ name, name ∈ graph.keys ↔ ∃ e ∈ edges, e.source = name
  targets : ∀ name targets, graph.get? name = some targets → IsFirsts (targetsFrom edges name) targets

namespace ListsEdges

variable {edges : List DependencyEdge} {graph : TextMap (List String)}

theorem empty : ListsEdges [] .empty :=
  ⟨fun name => by simp [TextMap.keys, TextMap.empty], fun name targets found => by cases found⟩

/-- A name without an entry has no targets, and an entry without targets would list them too. -/
theorem isFirsts_getD (h : ListsEdges edges graph) (name : String) :
    IsFirsts (targetsFrom edges name) ((graph.get? name).getD []) := by
  cases found : graph.get? name with
  | some targets => exact h.targets name targets found
  | none =>
    have unnamed : targetsFrom edges name = [] := by
      refine List.eq_nil_iff_forall_not_mem.2 fun target mem => ?_
      obtain ⟨e, he, source, _⟩ := mem_targetsFrom.1 mem
      have key := (h.keys name).2 ⟨e, he, source⟩
      rw [TextMap.mem_keys_iff, found] at key
      cases key
    rw [unnamed]
    exact .nil

/-- One edge more is linked. -/
theorem link (h : ListsEdges edges graph) (e : DependencyEdge) :
    ListsEdges (edges ++ [e]) (DependencyGraph.link graph e) := by
  have before := h.isFirsts_getD e.source
  have names : ∀ name, (∃ d ∈ edges ++ [e], d.source = name) ↔
      name ∈ graph.keys ∨ name = e.source := by
    intro name
    rw [h.keys]
    simp [or_and_right, exists_or, eq_comm]
  rw [DependencyGraph.link]
  split
  · rename_i linked
    have known : e.target ∈ (graph.get? e.source).getD [] := by simpa using linked
    refine ⟨fun name => ?_, fun name targets found => ?_⟩
    · rw [names]
      -- where the target is linked already, its source has an entry
      have key : e.source ∈ graph.keys := by
        obtain ⟨d, hd, source, _⟩ := mem_targetsFrom.1 ((before.mem _).1 known)
        exact (h.keys _).2 ⟨d, hd, source⟩
      constructor
      · exact .inl
      · rintro (old | rfl)
        · exact old
        · exact key
    · by_cases same : name = e.source
      · subst same
        rw [found] at known
        rw [targetsFrom_concat_self]
        exact (h.targets _ _ found).concat_known known
      · rw [targetsFrom_concat_other same]
        exact h.targets name targets found
  · rename_i unlinked
    have new : e.target ∉ (graph.get? e.source).getD [] := by simpa using unlinked
    refine ⟨fun name => ?_, fun name targets found => ?_⟩
    · rw [names, TextMap.mem_keys_iff, TextMap.get?_insert, TextMap.mem_keys_iff]
      split
      · rename_i same
        simp [same]
      · rename_i other
        simp [other]
    · rw [TextMap.get?_insert] at found
      split at found
      · rename_i same
        rw [← Option.some.inj found, same, targetsFrom_concat_self]
        exact before.concat_new new
      · rename_i other
        rw [targetsFrom_concat_other other]
        exact h.targets name targets found

/-- Edges are linked one after the other. -/
theorem foldl_link (h : ListsEdges edges graph) (more : List DependencyEdge) :
    ListsEdges (edges ++ more) (more.foldl DependencyGraph.link graph) := by
  induction more generalizing edges graph with
  | nil =>
    rw [List.append_nil]
    exact h
  | cons e more ih =>
    have rest := ih (h.link e)
    rw [List.append_assoc] at rest
    exact rest

end ListsEdges

/-- The graph lists exactly the edges that are given beside it, the outgoing ones before the incoming
ones. Asked for both ways, the edges of either way are those that this way gives alone. -/
theorem Atlas.graph_exact (a : Atlas) (entity : String) (direction : Direction) (depth : Nat) :
    let found := a.dependencies entity direction depth
    ListsEdges (found.outgoing ++ found.incoming) found.graph ∧
      (a.dependencies entity .both depth).outgoing =
        (a.dependencies entity .outgoing depth).outgoing ∧
      (a.dependencies entity .both depth).incoming =
        (a.dependencies entity .incoming depth).incoming :=
  ⟨ListsEdges.empty.foldl_link _, rfl, rfl⟩

end SourceAtlas
