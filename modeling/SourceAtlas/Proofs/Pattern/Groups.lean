import SourceAtlas.Proofs.Association
import SourceAtlas.Proofs.Pattern.Search
/-!
The groups of a match. Which of them a reading sets is told by the pattern, and a group that was set
holds what a part of the pattern has read, at places of the line from the start of the match on. So its
text stands in the line, and what all readings of that part have in common is known of it.
-/

namespace SourceAtlas

/-! ### Texts between places -/

namespace Cursor

variable {k e : Cursor} {accepts : Char → Bool}

/-- What stands between two places is followed by what stands behind the second. -/
theorem Passes.upTo_append (h : k.Passes accepts e) : k.upTo e ++ e.after = k.after := by
  obtain ⟨t, whole⟩ := h.suffix
  have lengths := h.read_add_length
  rw [← whole, List.length_append] at lengths
  have size : e.read - k.read = t.length := by omega
  rw [upTo, ← whole, size, List.take_left]

/-- The text between two places of a line stands in the line. -/
theorem Passes.upTo_within (h : k.Passes accepts e) {line : List Char} (inside : k.after <:+ line) :
    k.upTo e <:+: line := by
  have front : k.upTo e <+: k.after := ⟨e.after, h.upTo_append⟩
  exact front.isInfix.trans inside.isInfix

end Cursor

namespace Pattern

/-- The parts of a pattern whose text it keeps under a number. -/
def kept (i : Nat) : Pattern → List Pattern
  | both p q => p.kept i ++ q.kept i
  | either p q => p.kept i ++ q.kept i
  | many p => p.kept i
  | only _ p => p.kept i
  | group j p => if i = j then p :: p.kept i else p.kept i
  | _ => []

/-- Every reading of the pattern keeps a text under the number. -/
def sets (i : Nat) : Pattern → Bool
  | both p q => p.sets i || q.sets i
  | either p q => p.sets i && q.sets i
  | only _ p => p.sets i
  | group j p => i == j || p.sets i
  | _ => false

variable {p q : Pattern} {m d e : Match} {i : Nat} {parts more : Nat → List Pattern}

/-- The group begins and ends where one of the parts with its number was read, no earlier than at a
place. -/
def SetBy (parts : Nat → List Pattern) (k : Cursor) (g : Nat × Cursor × Cursor) : Prop :=
  k.Passes (fun _ => true) g.2.1 ∧ ∃ q ∈ parts g.1, q.Ends g.2.1 g.2.2

/-- The second match has the groups of the first one, and others that were set by some parts. -/
structure Grows (parts : Nat → List Pattern) (m e : Match) : Prop where
  old : ∀ g ∈ m.groups, g ∈ e.groups
  new : ∀ g ∈ e.groups, g ∈ m.groups ∨ SetBy parts m.cursor g

theorem Grows.of_eq (same : e.groups = m.groups) : Grows parts m e :=
  ⟨fun _ mem => same ▸ mem, fun _ mem => .inl (same ▸ mem)⟩

theorem Grows.mono (h : Grows parts m e) (less : ∀ i, parts i ⊆ more i) : Grows more m e := by
  refine ⟨h.old, fun g mem => (h.new g mem).imp_right ?_⟩
  rintro ⟨passes, q, part, ends⟩
  exact ⟨passes, q, less g.1 part, ends⟩

theorem Grows.trans (first : Grows parts m d) (second : Grows parts d e)
    (passes : m.cursor.Passes (fun _ => true) d.cursor) : Grows parts m e := by
  refine ⟨fun g mem => second.old g (first.old g mem), fun g mem => ?_⟩
  rcases second.new g mem with before | ⟨further, set⟩
  · exact first.new g before
  · exact .inr ⟨passes.trans further, set⟩

/-- A reading keeps the groups that were there, and sets others as the pattern says. -/
theorem Reads.grows (h : p.Reads m e) : Grows (p.kept ·) m e := by
  induction p generalizing m e with
  | empty => exact .of_eq (congrArg Match.groups h)
  | one accepts =>
    obtain ⟨c, k, _, _, rfl⟩ := h
    exact .of_eq rfl
  | wordEdge => exact .of_eq (congrArg Match.groups h.2)
  | lineEnd => exact .of_eq (congrArg Match.groups h.2)
  | both p q first second =>
    obtain ⟨d, front, back⟩ := h
    have left := (first front).mono fun i => List.subset_append_left _ (q.kept i)
    have right := (second back).mono fun i => List.subset_append_right (p.kept i) _
    exact left.trans right front.ends.passes
  | either p q first second =>
    rcases h with h | h
    · exact (first h).mono fun i => List.subset_append_left _ (q.kept i)
    · exact (second h).mono fun i => List.subset_append_right (p.kept i) _
  | run accepts =>
    obtain rfl : e = m.moveTo (m.cursor.skip accepts) := h
    exact .of_eq rfl
  | fewest accepts =>
    obtain ⟨k, _, rfl⟩ := h
    exact .of_eq rfl
  | many p ih =>
    induction h using Relation.ReflTransGen.head_induction_on with
    | refl => exact .of_eq rfl
    | head step _ rest => exact (ih step).trans rest step.ends.passes
  | only fits p ih => exact ih h.1
  | group j p ih =>
    obtain ⟨d, reads, rfl⟩ := h
    have inner : Grows ((group j p).kept ·) m d := by
      refine (ih reads).mono fun i => ?_
      rw [kept]
      split
      · exact List.subset_cons_self _ _
      · exact List.Subset.refl _
    refine ⟨fun g mem => List.mem_cons_of_mem _ (inner.old g mem), fun g mem => ?_⟩
    rcases List.mem_cons.1 mem with rfl | mem
    · exact .inr ⟨.here _, p, by simp [kept], reads.ends⟩
    · exact inner.new g mem

/-- A group that every reading sets is there. -/
theorem Reads.exists_group (h : p.Reads m e) (sets : p.sets i) : ∃ g ∈ e.groups, g.1 = i := by
  induction p generalizing m e with
  | both p q first second =>
    obtain ⟨d, front, back⟩ := h
    rcases Bool.or_eq_true_iff.1 sets with left | right
    · obtain ⟨g, mem, number⟩ := first front left
      exact ⟨g, back.grows.old g mem, number⟩
    · exact second back right
  | either p q first second =>
    obtain ⟨left, right⟩ := Bool.and_eq_true_iff.1 sets
    rcases h with h | h
    · exact first h left
    · exact second h right
  | only fits p ih => exact ih h.1 sets
  | group j p ih =>
    obtain ⟨d, reads, rfl⟩ := h
    rcases Bool.or_eq_true_iff.1 sets with same | inner
    · exact ⟨_, List.mem_cons_self, (eq_of_beq same).symm⟩
    · obtain ⟨g, mem, number⟩ := ih reads inner
      exact ⟨g, List.mem_cons_of_mem _ mem, number⟩
  | _ => cases sets

/-! ### Groups of a match -/

/-- The pattern keeps a text under the number in every match, and always one that `q` has read. -/
structure Keeps (p : Pattern) (i : Nat) (q : Pattern) : Prop where
  sets : p.sets i
  kept : p.kept i = [q]

/-- The text of such a group is what that part has read, at places behind the start of the match. -/
theorem Keeps.exists_group {k : Cursor} (h : p.Keeps i q) (found : p.matchAt? k = some m) :
    ∃ first last, k.Passes (fun _ => true) first ∧ q.Ends first last ∧
      m.group i = first.upTo last := by
  obtain ⟨e, reads, same⟩ := reads_of_find? found
  obtain rfl := Option.some.inj same
  obtain ⟨g, mem, number⟩ := reads.exists_group h.sets
  have taken : (e.groups.lookup i).isSome := List.lookup_isSome_iff.2 ⟨g, mem, by simp [number]⟩
  obtain ⟨⟨first, last⟩, found⟩ := Option.isSome_iff_exists.1 taken
  rcases reads.grows.new _ (mem_of_lookup found) with before | ⟨passes, part, inside, ends⟩
  · cases before
  · have inside : part ∈ p.kept i := inside
    rw [h.kept, List.mem_singleton] at inside
    refine ⟨first, last, passes, inside ▸ ends, ?_⟩
    rw [Match.group, Match.group?, found]
    rfl

variable {k : Cursor} {line : List Char}

theorem Keeps.group_within (h : p.Keeps i q) (inside : (Cursor.start line).Passes (fun _ => true) k)
    (found : p.matchAt? k = some m) : m.group i <:+: line := by
  obtain ⟨first, last, passes, ends, text⟩ := h.exists_group found
  rw [text]
  exact ends.passes.upTo_within (inside.trans passes).suffix

theorem Keeps.group_ne_nil (h : p.Keeps i q) (filled : q.Filled) (found : p.matchAt? k = some m) :
    m.group i ≠ [] := by
  obtain ⟨first, last, _, ends, text⟩ := h.exists_group found
  have further := filled first last ends
  have lengths := ends.passes.read_add_length.1
  have whole := congrArg List.length ends.passes.upTo_append
  rw [List.length_append] at whole
  rw [text, ← List.length_pos_iff]
  omega

theorem Keeps.group_oneOrMore {accepts : Char → Bool} (h : p.Keeps i (oneOrMore accepts))
    (found : p.matchAt? k = some m) : ∀ c ∈ m.group i, accepts c := by
  obtain ⟨first, last, _, ends, text⟩ := h.exists_group found
  have whole := ends.passes.upTo_append
  rw [ends.after_oneOrMore.2] at whole
  have same : first.upTo last = first.after.takeWhile accepts :=
    List.append_cancel_right (whole.trans List.takeWhile_append_dropWhile.symm)
  rw [text, same]
  exact List.all_eq_true.1 List.all_takeWhile

end Pattern

end SourceAtlas
