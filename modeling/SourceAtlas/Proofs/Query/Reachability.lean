import Mathlib.Data.List.Infix
import SourceAtlas.Query.Dependency
/-!
Which edges a walk around a name meets. The names after `i` hops are given by a relation that knows
nothing of what was visited: each hop goes from all names along all the edges that belong to them.
The walk leaves every name only once, and still meets exactly the edges that belong to a name of one
of its hops, each key once; with more hops it only adds edges behind those it has.
-/

namespace SourceAtlas

/-! ### Edges of a name -/

theorem Text.occursIn_iff {needle : List Char} : ∀ {text : List Char},
    occursIn needle text ↔ needle <:+: text
  | [] => by simp [occursIn]
  | c :: cs => by
    rw [occursIn, Bool.or_eq_true, List.isPrefixOf_iff_prefix, occursIn_iff, List.infix_cons_iff]

namespace DependencyEdge

/-- The name is a part of the importing file's path. -/
def Leaves (e : DependencyEdge) (name : String) : Prop := name.toList <:+: e.source.toList

/-- The name is a part of what is imported, as it is written or as it is resolved. -/
def Enters (e : DependencyEdge) (name : String) : Prop :=
  name.toList <:+: e.specifier.toList ∨ ∃ path ∈ e.resolved, name.toList <:+: path.toList

end DependencyEdge

namespace Following

theorem belongs_outgoing (e : DependencyEdge) (name : String) :
    outgoing.belongs e name ↔ e.Leaves name :=
  Text.occursIn_iff

theorem belongs_incoming (e : DependencyEdge) (name : String) :
    incoming.belongs e name ↔ e.Enters name := by
  rw [incoming, DependencyEdge.Enters, Bool.or_eq_true, Text.within, Text.occursIn_iff]
  cases e.resolved with
  | none => simp
  | some path => simp [Text.within, Text.occursIn_iff]

end Following

/-! ### Hops without a memory -/

/-- The names after a number of hops: the entity, and then what comes next on all the edges that
belong to a name of the hop before. -/
inductive Reached (belongs : DependencyEdge → String → Prop) (next : DependencyEdge → String)
    (all : List DependencyEdge) (entity : String) : (hops : Nat) → String → Prop where
  | entity : Reached belongs next all entity 0 entity
  | hop {i : Nat} {name : String} {e : DependencyEdge}
      (before : Reached belongs next all entity i name) (stored : e ∈ all) (along : belongs e name) :
      Reached belongs next all entity (i + 1) (next e)

/-- The edges are exactly those that belong to a name after fewer than `n` hops, as far as their
keys tell them apart. -/
structure MeetsExactly (belongs : DependencyEdge → String → Prop) (next : DependencyEdge → String)
    (all : List DependencyEdge) (entity : String) (n : Nat) (edges : List DependencyEdge) : Prop where
  stored : ∀ e ∈ edges, e ∈ all
  keys : ∀ key, (∃ e ∈ edges, e.key = key) ↔
    ∃ e ∈ all, e.key = key ∧ ∃ i < n, ∃ name, Reached belongs next all entity i name ∧ belongs e name
  once : (edges.map (·.key)).Nodup

/-! ### What one edge, one name and one hop add -/

/-- The second list has the edges of the first, and behind them some that belong to given names, so
that it has every key of such an edge and none twice. -/
structure Adds (f : Following) (all : List DependencyEdge) (names : String → Prop)
    (old new : List DependencyEdge) : Prop where
  behind : old <+: new
  once : (old.map (·.key)).Nodup → (new.map (·.key)).Nodup
  stored : ∀ e ∈ new, e ∈ old ∨ e ∈ all
  keys : ∀ key, key ∈ new.map (·.key) ↔ key ∈ old.map (·.key) ∨
    ∃ e ∈ all, e.key = key ∧ ∃ name, names name ∧ f.belongs e name

namespace Adds

variable {f : Following} {all old mid new : List DependencyEdge} {names more : String → Prop}

theorem nothing : Adds f all (fun _ => False) old old :=
  ⟨List.prefix_refl old, fun h => h, fun _ h => .inl h, by simp⟩

theorem trans (first : Adds f all names old mid) (second : Adds f all more mid new) :
    Adds f all (fun name => names name ∨ more name) old new := by
  refine ⟨first.behind.trans second.behind, fun h => second.once (first.once h), ?_, ?_⟩
  · intro e he
    rcases second.stored e he with before | stored
    · exact first.stored e before
    · exact .inr stored
  · intro key
    rw [second.keys, first.keys, or_assoc]
    refine or_congr_right ⟨?_, ?_⟩
    · rintro (⟨e, stored, same, name, mem, along⟩ | ⟨e, stored, same, name, mem, along⟩)
      · exact ⟨e, stored, same, name, .inl mem, along⟩
      · exact ⟨e, stored, same, name, .inr mem, along⟩
    · rintro ⟨e, stored, same, name, mem | mem, along⟩
      · exact .inl ⟨e, stored, same, name, mem, along⟩
      · exact .inr ⟨e, stored, same, name, mem, along⟩

theorem congr (h : Adds f all names old new) (same : ∀ name, names name ↔ more name) :
    Adds f all more old new := by
  obtain rfl : names = more := funext fun name => propext (same name)
  exact h

end Adds

namespace Walk

variable {f : Following} {all : List DependencyEdge} {w : Walk} {name : String}
  {frontier : List String}

/-- Edges are met one after the other, and the walk has left no name by that. -/
theorem foldl_meet (out : List DependencyEdge) (w : Walk) :
    (out.foldl meet w).visited = w.visited ∧ w.edges <+: (out.foldl meet w).edges ∧
      ((w.edges.map (·.key)).Nodup → ((out.foldl meet w).edges.map (·.key)).Nodup) ∧
      (∀ e ∈ (out.foldl meet w).edges, e ∈ w.edges ∨ e ∈ out) ∧
      ∀ key, key ∈ (out.foldl meet w).edges.map (·.key) ↔
        key ∈ w.edges.map (·.key) ∨ ∃ e ∈ out, e.key = key := by
  induction out generalizing w with
  | nil => simp
  | cons d out ih =>
    obtain ⟨visited, behind, once, stored, keys⟩ := ih (w.meet d)
    rw [List.foldl_cons]
    by_cases known : d.key ∈ w.edges.map (·.key)
    · have same : w.meet d = w := by
        rw [meet, if_pos]
        simpa using known
      rw [same] at visited behind once stored keys ⊢
      refine ⟨visited, behind, once, fun e he => (stored e he).imp_right (List.mem_cons_of_mem _),
        fun key => ?_⟩
      rw [keys, List.exists_mem_cons_iff]
      constructor
      · exact Or.imp_right .inr
      · rintro (old | rfl | later)
        · exact .inl old
        · exact .inl known
        · exact .inr later
    · have met : w.meet d = { w with edges := w.edges ++ [d] } := by
        rw [meet, if_neg]
        simpa using known
      rw [met] at visited behind once stored keys ⊢
      refine ⟨visited, (List.prefix_append _ _).trans behind, fun h => once ?_, fun e he => ?_,
        fun key => ?_⟩
      · rw [List.map_append, List.nodup_append]
        refine ⟨h, by simp, ?_⟩
        rintro k hk l hl rfl
        obtain rfl : k = d.key := List.mem_singleton.1 hl
        exact known hk
      · rcases stored e he with before | later
        · rcases List.mem_append.1 before with old | own
          · exact .inl old
          · exact .inr (List.mem_singleton.1 own ▸ List.mem_cons_self)
        · exact .inr (List.mem_cons_of_mem _ later)
      · rw [keys, List.exists_mem_cons_iff, List.map_append, List.mem_append, or_assoc]
        simp [eq_comm]

theorem leave_visited (seen : name ∈ w.visited) : leave f all name w = (w, []) := by
  rw [leave, if_pos]
  simpa using seen

/-- Leaving a new name adds the edges that belong to it. -/
theorem leave_new (f : Following) (all : List DependencyEdge) (new : name ∉ w.visited) :
    (leave f all name w).1.visited = name :: w.visited ∧
      Adds f all (· = name) w.edges (leave f all name w).1.edges ∧
      ∀ m, m ∈ (leave f all name w).2 ↔ ∃ e ∈ all, f.belongs e name ∧ f.next e = m := by
  have out : leave f all name w =
      ((all.filter (f.belongs · name)).foldl meet { w with visited := name :: w.visited },
        (all.filter (f.belongs · name)).map f.next) := by
    rw [leave, if_neg]
    simpa using new
  obtain ⟨visited, behind, once, stored, keys⟩ := foldl_meet (all.filter (f.belongs · name))
    { w with visited := name :: w.visited }
  rw [out]
  refine ⟨visited, ⟨behind, once, fun e he => ?_, fun key => ?_⟩, fun m => ?_⟩
  · exact (stored e he).imp_right fun h => (List.mem_filter.1 h).1
  · rw [keys]
    refine or_congr_right (exists_congr fun e => ?_)
    rw [List.mem_filter]
    constructor
    · rintro ⟨⟨mem, along⟩, same⟩
      exact ⟨mem, same, name, rfl, along⟩
    · rintro ⟨mem, same, _, rfl, along⟩
      exact ⟨⟨mem, along⟩, same⟩
  · simp only [List.mem_map, List.mem_filter, and_assoc]

/-- A hop leaves the names of the frontier that are new to the walk: afterwards all of them are
visited, the edges that belong to them are added, and the names that come next on these edges are
the new frontier. -/
theorem hop_spec (f : Following) (all : List DependencyEdge) (frontier : List String) (w : Walk) :
    (∀ name, name ∈ (hop f all frontier w).1.visited ↔ name ∈ w.visited ∨ name ∈ frontier) ∧
      Adds f all (fun name => name ∈ frontier ∧ name ∉ w.visited) w.edges
        (hop f all frontier w).1.edges ∧
      ∀ m, m ∈ (hop f all frontier w).2 ↔
        ∃ name ∈ frontier, name ∉ w.visited ∧ ∃ e ∈ all, f.belongs e name ∧ f.next e = m := by
  induction frontier generalizing w with
  | nil => simpa [hop] using Adds.nothing
  | cons first rest ih =>
    have split : hop f all (first :: rest) w =
        ((hop f all rest (leave f all first w).1).1,
          (leave f all first w).2 ++ (hop f all rest (leave f all first w).1).2) := rfl
    rw [split]
    by_cases seen : first ∈ w.visited
    · obtain ⟨visited, adds, upcoming⟩ := ih w
      rw [leave_visited seen]
      refine ⟨fun name => ?_, adds.congr fun name => ?_, fun m => ?_⟩
      · rw [visited, List.mem_cons]
        constructor
        · exact Or.imp_right .inr
        · rintro (old | rfl | later)
          · exact .inl old
          · exact .inl seen
          · exact .inr later
      · rw [List.mem_cons]
        constructor
        · exact fun h => ⟨.inr h.1, h.2⟩
        · rintro ⟨rfl | later, new⟩
          · exact absurd seen new
          · exact ⟨later, new⟩
      · rw [List.nil_append, upcoming, List.exists_mem_cons_iff]
        constructor
        · exact .inr
        · rintro (⟨new, _⟩ | later)
          · exact absurd seen new
          · exact later
    · obtain ⟨left, own, next⟩ := leave_new f all seen
      obtain ⟨visited, adds, upcoming⟩ := ih (leave f all first w).1
      rw [left] at visited adds upcoming
      refine ⟨fun name => ?_, (own.trans adds).congr fun name => ?_, fun m => ?_⟩
      · rw [visited, List.mem_cons, List.mem_cons]
        tauto
      · -- a name that the frontier lists again was left with its first mention
        rw [List.mem_cons, List.mem_cons]
        constructor
        · rintro (rfl | ⟨later, new⟩)
          · exact ⟨.inl rfl, seen⟩
          · exact ⟨.inr later, fun old => new (.inr old)⟩
        · rintro ⟨rfl | later, new⟩
          · exact .inl rfl
          · by_cases same : name = first
            · exact .inl same
            · exact .inr ⟨later, by simp [same, new]⟩
      · rw [List.mem_append, next, upcoming, List.exists_mem_cons_iff]
        constructor
        · rintro (here | ⟨name, later, new, e, rest⟩)
          · exact .inl ⟨seen, here⟩
          · exact .inr ⟨name, later, fun old => new (List.mem_cons_of_mem _ old), e, rest⟩
        · rintro (⟨_, here⟩ | ⟨name, later, new, e, rest⟩)
          · exact .inl here
          · by_cases same : name = first
            · exact .inl ⟨e, same ▸ rest⟩
            · exact .inr ⟨name, later, by simp [same, new], e, rest⟩

/-! ### Stages of a walk -/

/-- The walk after `n` hops. It has visited the names of all hops before, its frontier holds names of
the hop to come, and no edge of a visited name leads anywhere else: so leaving a name once is
enough. -/
structure Stage (f : Following) (all : List DependencyEdge) (entity : String) (n : Nat) (w : Walk)
    (frontier : List String) : Prop where
  visited : ∀ name ∈ w.visited,
    ∃ i < n, Reached (fun e m => f.belongs e m) f.next all entity i name
  ahead : ∀ name ∈ frontier, Reached (fun e m => f.belongs e m) f.next all entity n name
  closed : ∀ name ∈ w.visited, ∀ e ∈ all, f.belongs e name →
    f.next e ∈ w.visited ∨ f.next e ∈ frontier
  start : entity ∈ w.visited ∨ entity ∈ frontier
  complete : ∀ i < n, ∀ name, Reached (fun e m => f.belongs e m) f.next all entity i name →
    name ∈ w.visited
  edges : Adds f all (· ∈ w.visited) [] w.edges

variable {entity : String} {n : Nat}

theorem stage_start (f : Following) (all : List DependencyEdge) (entity : String) :
    Stage f all entity 0 {} [entity] := by
  refine ⟨by simp, fun name mem => ?_, by simp, by simp, by simp,
    Adds.nothing.congr fun name => by simp⟩
  obtain rfl := List.mem_singleton.1 mem
  exact .entity

/-- One hop leads from stage to stage. -/
theorem Stage.hop (h : Stage f all entity n w frontier) :
    Stage f all entity (n + 1) (Walk.hop f all frontier w).1 (Walk.hop f all frontier w).2 := by
  obtain ⟨visited, adds, upcoming⟩ := hop_spec f all frontier w
  have reached : ∀ name ∈ (Walk.hop f all frontier w).1.visited, ∃ i < n + 1,
      Reached (fun e m => f.belongs e m) f.next all entity i name := by
    intro name mem
    rcases (visited name).1 mem with old | new
    · obtain ⟨i, lt, here⟩ := h.visited name old
      exact ⟨i, Nat.lt_succ_of_lt lt, here⟩
    · exact ⟨n, Nat.lt_succ_self n, h.ahead name new⟩
  have closed : ∀ name ∈ (Walk.hop f all frontier w).1.visited, ∀ e ∈ all, f.belongs e name →
      f.next e ∈ (Walk.hop f all frontier w).1.visited ∨ f.next e ∈ (Walk.hop f all frontier w).2 := by
    intro name mem e stored along
    by_cases old : name ∈ w.visited
    · exact .inl ((visited _).2 (h.closed name old e stored along))
    · have new := ((visited name).1 mem).resolve_left old
      exact .inr ((upcoming _).2 ⟨name, new, old, e, stored, along, rfl⟩)
  have start : entity ∈ (Walk.hop f all frontier w).1.visited := (visited entity).2 h.start
  refine ⟨reached, fun m mem => ?_, closed, .inl start, ?_, ?_⟩
  · obtain ⟨name, new, _, e, stored, along, rfl⟩ := (upcoming m).1 mem
    exact (h.ahead name new).hop stored along
  · -- a name of the last hop comes from one of the hop before it, which was visited in time
    rintro i lt name reach
    cases reach with
    | entity => exact start
    | hop before stored along =>
      have left := h.complete _ (by omega) _ before
      exact (visited _).2 (h.closed _ left _ stored along)
  · refine (h.edges.trans adds).congr fun name => ?_
    rw [visited]
    by_cases old : name ∈ w.visited
    · simp [old]
    · simp [old]

theorem Stage.hops (h : Stage f all entity n w frontier) (m : Nat) :
    ∃ last, Stage f all entity (n + m) (Walk.hops f all m frontier w) last := by
  induction m generalizing n w frontier with
  | zero => exact ⟨frontier, h⟩
  | succ m ih =>
    obtain ⟨last, stage⟩ := ih h.hop
    rw [Nat.add_right_comm] at stage
    exact ⟨last, stage⟩

/-- The edges of a stage are those of its hops. -/
theorem Stage.meetsExactly (h : Stage f all entity n w frontier) :
    MeetsExactly (fun e m => f.belongs e m) f.next all entity n w.edges := by
  refine ⟨fun e he => (h.edges.stored e he).resolve_left List.not_mem_nil, fun key => ?_,
    h.edges.once List.nodup_nil⟩
  rw [← List.mem_map, h.edges.keys]
  simp only [List.map_nil, List.not_mem_nil, false_or]
  refine exists_congr fun e => and_congr_right fun stored => and_congr_right fun _ => ?_
  constructor
  · rintro ⟨name, left, along⟩
    obtain ⟨i, lt, reach⟩ := h.visited name left
    exact ⟨i, lt, name, reach, along⟩
  · rintro ⟨i, lt, name, reach, along⟩
    exact ⟨name, h.complete i lt name reach, along⟩

/-- More hops add edges behind those that are there. -/
theorem hops_prefix {m : Nat} (le : n ≤ m) (frontier : List String) (w : Walk) :
    (hops f all n frontier w).edges <+: (hops f all m frontier w).edges := by
  induction n generalizing m frontier w with
  | zero =>
    induction m generalizing frontier w with
    | zero => exact List.prefix_refl _
    | succ m ih =>
      have first := (hop_spec f all frontier w).2.1.behind
      exact first.trans (ih (Nat.zero_le m) _ _)
  | succ n ih =>
    obtain ⟨m, rfl⟩ : ∃ k, m = k + 1 := ⟨m - 1, by omega⟩
    exact ih (by omega) _ _

end Walk

/-! ### Dependencies -/

namespace Atlas

theorem meetsExactly_edgesAround (a : Atlas) (f : Following) (entity : String) (depth : Nat) :
    MeetsExactly (fun e m => f.belongs e m) f.next a.catalog.allDependencies entity
      (min (max depth 1) maxHops) (a.edgesAround f entity depth) := by
  obtain ⟨last, stage⟩ := (Walk.stage_start f a.catalog.allDependencies entity).hops
    (min (max depth 1) maxHops)
  rw [Nat.zero_add] at stage
  exact stage.meetsExactly

theorem edgesAround_prefix (a : Atlas) (f : Following) (entity : String) {depth larger : Nat}
    (le : depth ≤ larger) : a.edgesAround f entity depth <+: a.edgesAround f entity larger :=
  Walk.hops_prefix (by omega) _ _

/-- The lists that are asked for hold exactly the edges within the hops: outgoing edges belong to the
names that are part of their source and lead to their target, incoming edges belong to the names that
are part of what they import and lead to their source. A list that is asked for with a larger depth
begins with the one for the smaller depth. -/
theorem dependencies_exact (a : Atlas) (entity : String) (direction : Direction) (depth : Nat) :
    (direction ≠ .incoming →
      MeetsExactly DependencyEdge.Leaves DependencyEdge.target a.catalog.allDependencies entity
        (min (max depth 1) 10) (a.dependencies entity direction depth).outgoing) ∧
    (direction ≠ .outgoing →
      MeetsExactly DependencyEdge.Enters DependencyEdge.source a.catalog.allDependencies entity
        (min (max depth 1) 10) (a.dependencies entity direction depth).incoming) ∧
    ∀ more, (a.dependencies entity direction depth).outgoing <+:
        (a.dependencies entity direction (depth + more)).outgoing ∧
      (a.dependencies entity direction depth).incoming <+:
        (a.dependencies entity direction (depth + more)).incoming := by
  have leaves : (fun e m => Following.outgoing.belongs e m = true) = DependencyEdge.Leaves :=
    funext₂ fun e m => propext (Following.belongs_outgoing e m)
  have enters : (fun e m => Following.incoming.belongs e m = true) = DependencyEdge.Enters :=
    funext₂ fun e m => propext (Following.belongs_incoming e m)
  refine ⟨fun asked => ?_, fun asked => ?_, fun more => ⟨?_, ?_⟩⟩
  · have list : (a.dependencies entity direction depth).outgoing =
        a.edgesAround .outgoing entity depth := if_neg (by simpa using asked)
    rw [list, ← leaves]
    exact a.meetsExactly_edgesAround .outgoing entity depth
  · have list : (a.dependencies entity direction depth).incoming =
        a.edgesAround .incoming entity depth := if_neg (by simpa using asked)
    rw [list, ← enters]
    exact a.meetsExactly_edgesAround .incoming entity depth
  · simp only [dependencies]
    split
    · exact List.prefix_refl _
    · exact a.edgesAround_prefix .outgoing entity (Nat.le_add_right depth more)
  · simp only [dependencies]
    split
    · exact List.prefix_refl _
    · exact a.edgesAround_prefix .incoming entity (Nat.le_add_right depth more)

end Atlas

end SourceAtlas
