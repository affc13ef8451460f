/-!
Sorting that keeps the order of ties. A sorted list is determined by its classes of ties, each in its
own order, and `mergeSort` keeps all of them. So it goes through filters, and it does not matter
whether the parts of a list were sorted before.
-/

namespace SourceAtlas

variable {α : Type} {le : α → α → Bool}

/-- Neither of the two comes before the other. -/
def tied (le : α → α → Bool) (a b : α) : Bool := le a b && le b a

theorem tied_iff {a b : α} : tied le a b ↔ le a b ∧ le b a := by
  rw [tied, Bool.and_eq_true]

/-- A sorted list is determined by its classes of ties. -/
theorem eq_of_filter_tied (total : ∀ a b, le a b || le b a) {l m : List α}
    (hl : l.Pairwise fun a b => le a b) (hm : m.Pairwise fun a b => le a b)
    (same : ∀ x, l.filter (tied le x) = m.filter (tied le x)) : l = m := by
  have own : ∀ a, tied le a a := fun a => by simpa [tied] using total a a
  have subset : ∀ {l m : List α}, (∀ x, l.filter (tied le x) = m.filter (tied le x)) →
      ∀ a ∈ l, a ∈ m := by
    intro l m same a mem
    have kept : a ∈ l.filter (tied le a) := List.mem_filter.2 ⟨mem, own a⟩
    rw [same a] at kept
    exact (List.mem_filter.1 kept).1
  induction l generalizing m with
  | nil =>
    cases m with
    | nil => rfl
    | cons b m => exact absurd (subset (fun x => (same x).symm) b List.mem_cons_self) List.not_mem_nil
  | cons a l ih =>
    cases m with
    | nil => exact absurd (subset same a List.mem_cons_self) List.not_mem_nil
    | cons b m =>
      rw [List.pairwise_cons] at hl hm
      -- each head is somewhere in the other list, so the heads are tied
      have ab : le a b := by
        rcases List.mem_cons.1 (subset (fun x => (same x).symm) b List.mem_cons_self) with eq | later
        · exact eq ▸ (tied_iff.1 (own b)).1
        · exact hl.1 b later
      have ba : le b a := by
        rcases List.mem_cons.1 (subset same a List.mem_cons_self) with eq | later
        · exact eq ▸ (tied_iff.1 (own a)).1
        · exact hm.1 a later
      have heads := same a
      rw [List.filter_cons_of_pos (own a), List.filter_cons_of_pos (tied_iff.2 ⟨ab, ba⟩)] at heads
      obtain rfl := (List.cons.inj heads).1
      refine congrArg _ (ih hl.2 hm.2 fun x => ?_)
      have rest := same x
      by_cases first : tied le x a
      · rw [List.filter_cons_of_pos first, List.filter_cons_of_pos first] at rest
        exact (List.cons.inj rest).2
      · rwa [List.filter_cons_of_neg first, List.filter_cons_of_neg first] at rest

section
variable (trans : ∀ a b c, le a b → le b c → le a c) (total : ∀ a b, le a b || le b a)
include trans total

/-- Sorting keeps each class of ties as it stands. -/
theorem filter_tied_mergeSort (l : List α) (x : α) :
    (l.mergeSort le).filter (tied le x) = l.filter (tied le x) := by
  have class_sorted : (l.filter (tied le x)).Pairwise fun a b => le a b := by
    refine List.pairwise_iff_forall_sublist.2 fun {a b} sub => ?_
    have mem : ∀ c ∈ [a, b], tied le x c := fun c hc => (List.mem_filter.1 (sub.subset hc)).2
    have xa := tied_iff.1 (mem a (by simp))
    have xb := tied_iff.1 (mem b (by simp))
    exact trans a x b xa.2 xb.1
  have kept := (List.sublist_mergeSort trans total class_sorted List.filter_sublist).filter (tied le x)
  simp only [List.filter_filter, Bool.and_self] at kept
  exact (kept.eq_of_length ((List.mergeSort_perm l le).filter _).length_eq.symm).symm

/-- Lists with the same classes of ties are sorted into the same list. -/
theorem mergeSort_congr {l m : List α} (same : ∀ x, l.filter (tied le x) = m.filter (tied le x)) :
    l.mergeSort le = m.mergeSort le := by
  refine eq_of_filter_tied total (List.pairwise_mergeSort trans total l)
    (List.pairwise_mergeSort trans total m) fun x => ?_
  rw [filter_tied_mergeSort trans total, filter_tied_mergeSort trans total, same]

/-- It does not matter whether the two parts of a list were sorted before. -/
theorem mergeSort_append_mergeSort (l m : List α) :
    (l.mergeSort le ++ m.mergeSort le).mergeSort le = (l ++ m).mergeSort le := by
  refine mergeSort_congr trans total fun x => ?_
  rw [List.filter_append, List.filter_append, filter_tied_mergeSort trans total,
    filter_tied_mergeSort trans total]

/-- A filter may be applied before or after sorting. -/
theorem filter_mergeSort (p : α → Bool) (l : List α) :
    (l.mergeSort le).filter p = (l.filter p).mergeSort le := by
  refine eq_of_filter_tied total ((List.pairwise_mergeSort trans total l).filter p)
    (List.pairwise_mergeSort trans total _) fun x => ?_
  have swap : ∀ m : List α, (m.filter p).filter (tied le x) = (m.filter (tied le x)).filter p := by
    intro m
    simp only [List.filter_filter, Bool.and_comm]
  rw [filter_tied_mergeSort trans total, swap, filter_tied_mergeSort trans total, swap]

end

end SourceAtlas
