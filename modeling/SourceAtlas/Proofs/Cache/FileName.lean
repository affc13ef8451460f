import Mathlib.Data.List.Chain
import SourceAtlas.Proofs.Cache.Entry
import SourceAtlas.Proofs.Tree.Resolution
/-!
The names of cache files. A key may be any text; its file is named by the letters and digits in it, with
one underscore for whatever stands between them, and cut where it gets too long. Nothing in such a name
leads out of the directory. The stem is in a form that sanitizing leaves as it is, so it is itself a key
of the same file.
-/

namespace SourceAtlas.Cache

/-- One of two neighbours is no underscore. -/
def Spaced (a b : Char) : Prop := a ≠ '_' ∨ b ≠ '_'

/-- A stem in canonical form: at most 200 ASCII letters, digits and underscores, and no two underscores
side by side. -/
structure IsStem (s : List Char) : Prop where
  short : s.length ≤ maxStem
  plain : ∀ c ∈ s, c.isAlphanum ∨ c = '_'
  spaced : s.IsChain Spaced

/-! ### Sanitizing -/

theorem ne_underscore_of_isAlphanum {c : Char} (h : c.isAlphanum) : c ≠ '_' := by
  rintro rfl
  exact absurd h (by decide)

/-- No two underscores come out side by side, and none at the start of a run that has had its own. -/
theorem spaced_sanitize (inRun : Bool) (cs : List Char) :
    (sanitize inRun cs).IsChain Spaced ∧ (inRun → (sanitize inRun cs).head? ≠ some '_') := by
  fun_induction sanitize inRun cs with
  | case1 => exact ⟨.nil, by simp⟩
  | case2 inRun c cs letter ih =>
    have other := ne_underscore_of_isAlphanum letter
    exact ⟨List.isChain_cons.2 ⟨fun _ _ => .inl other, ih.1⟩, by simpa using fun _ => other⟩
  | case3 c cs _ ih => exact ih
  | case4 inRun c cs _ fresh ih =>
    have next : ∀ b ∈ (sanitize true cs).head?, Spaced '_' b := fun b first =>
      .inr fun score => ih.2 rfl (score ▸ first)
    exact ⟨List.isChain_cons.2 ⟨next, ih.1⟩, fun run => absurd run fresh⟩

/-- Letters and digits stay, in their order. -/
theorem filter_sanitize (inRun : Bool) (cs : List Char) :
    (sanitize inRun cs).filter Char.isAlphanum = cs.filter Char.isAlphanum := by
  fun_induction sanitize inRun cs with
  | case1 => rfl
  | case2 inRun c cs letter ih => rw [List.filter_cons_of_pos letter, List.filter_cons_of_pos letter, ih]
  | case3 c cs other ih => rw [List.filter_cons_of_neg other, ih]
  | case4 inRun c cs other _ ih =>
    rw [List.filter_cons_of_neg (by decide), List.filter_cons_of_neg other, ih]

/-- What is spaced already stays as it is. -/
theorem sanitize_eq_self {inRun : Bool} {s : List Char} (plain : ∀ c ∈ s, c.isAlphanum ∨ c = '_')
    (spaced : s.IsChain Spaced) (start : inRun → s.head? ≠ some '_') : sanitize inRun s = s := by
  induction s generalizing inRun with
  | nil => rfl
  | cons c s ih =>
    obtain ⟨first, rest⟩ := List.forall_mem_cons.1 plain
    obtain ⟨next, later⟩ := List.isChain_cons.1 spaced
    rw [sanitize]
    by_cases letter : c.isAlphanum
    · have same : sanitize false s = s := ih rest later (by simp)
      rw [if_pos letter, same]
    · obtain rfl := first.resolve_left letter
      have fresh : ¬inRun := fun run => start run rfl
      have other : s.head? ≠ some '_' := fun same => by simpa [Spaced] using next '_' same
      rw [if_neg letter, if_neg fresh, ih rest later fun _ => other]

/-- Each character takes one byte, so that a cut between bytes is one between characters. -/
theorem utf8Size_of_mem_sanitize {c : Char} {inRun : Bool} {cs : List Char}
    (h : c ∈ sanitize inRun cs) : c.utf8Size = 1 := by
  rcases mem_sanitize h with letter | rfl
  · rw [Char.utf8Size_eq_one_iff, UInt32.le_iff_toNat_le]
    delta Char.isAlphanum Char.isAlpha Char.isUpper Char.isLower Char.isDigit at letter
    simp only [Bool.or_eq_true, Bool.and_eq_true, decide_eq_true_eq, UInt32.le_iff_toNat_le] at letter
    simp at letter ⊢
    omega
  · rfl

/-! ### Stems -/

theorem isStem_stem (key : String) : IsStem (stem key) where
  short := List.length_take_le _ _
  plain := fun _ mem => mem_sanitize (List.mem_of_mem_take mem)
  spaced := (spaced_sanitize false key.toList).1.take _

/-- A stem in canonical form is its own. -/
theorem IsStem.stem_eq {s : List Char} (h : IsStem s) : stem (.ofList s) = s := by
  have same : sanitize false s = s := sanitize_eq_self h.plain h.spaced (by simp)
  rw [stem, String.toList_ofList, same, List.take_of_length_le h.short]

theorem fileName_eq (key : String) : fileName key = .ofList (stem key) ++ ".json" := by
  rw [← String.toList_inj, fileName_toList, String.toList_append, String.toList_ofList]
  simp

/-- The letters and digits of a stem are the first ones of its key, and all of them unless it was cut. -/
theorem filter_stem (key : String) :
    (stem key).filter Char.isAlphanum <+: key.toList.filter Char.isAlphanum ∧
      ((stem key).length < maxStem →
        (stem key).filter Char.isAlphanum = key.toList.filter Char.isAlphanum) := by
  rw [← filter_sanitize false key.toList]
  refine ⟨(List.take_prefix _ _).filter _, fun room => ?_⟩
  rw [stem, List.length_take] at room
  rw [stem, List.take_of_length_le (by omega)]

/-! ### Paths -/

/-- A file name is the name of an entry in a directory, that of the empty key included. -/
theorem isPlainName_fileName_all (key : String) : Path.isPlainName (fileName key).toList := by
  by_cases empty : key = ""
  · subst empty
    decide
  · exact isPlainName_fileName empty

theorem components_pathOf (c : Cache) (key : String) :
    Path.components (c.pathOf key) = Path.components c.directory ++ [.name (fileName key).toList] := by
  have plain := isPlainName_fileName_all key
  by_cases empty : c.directory = []
  · obtain ⟨busy, up, slash⟩ := Path.isPlainName_iff.1 plain
    have relative := Path.isAbsolute_of_not_mem slash
    have alone : Path.segments (fileName key).toList = [(fileName key).toList] :=
      Text.split_of_not_mem slash
    have joined : c.pathOf key = (fileName key).toList := by simp [pathOf, empty, Path.join, relative]
    have named : (fileName key).toList ≠ ['.'] := fun dot => by simp [dot, Path.isIdle] at busy
    have none : Path.components [] = [] := rfl
    rw [joined, empty, none, Path.components, relative, alone]
    simp [Path.component?, busy, up, named]
  · exact Path.components_join_name plain empty

/-- Whatever the key, its file is named by a stem in canonical form with the extension `json`. The stem
has the first letters and digits of the key, in their order, and it is a key of the same file. As every
character that is left of a key takes one byte, the stem could be cut by bytes as well. And the path for
the key adds a single name to that of the directory: in every tree, it names an entry that stands in the
directory itself. -/
theorem fileName_canonical (key : String) :
    (∃ s, fileName key = .ofList s ++ ".json" ∧ IsStem s ∧
      s.filter Char.isAlphanum <+: key.toList.filter Char.isAlphanum ∧
      (s.length < maxStem → s.filter Char.isAlphanum = key.toList.filter Char.isAlphanum) ∧
      fileName (.ofList s) = fileName key) ∧
    (∀ c ∈ sanitize false key.toList, c.utf8Size = 1) ∧
    ∀ c : Cache,
      Path.components (c.pathOf key) = Path.components c.directory ++ [.name (fileName key).toList] ∧
      ∀ t : FileTree,
        t.entry? (c.pathOf key) = (t.seat? c.directory).map (· ++ [(fileName key).toList]) := by
  have form := isStem_stem key
  obtain ⟨first, whole⟩ := filter_stem key
  refine ⟨⟨stem key, fileName_eq key, form, first, whole, ?_⟩, fun c mem => utf8Size_of_mem_sanitize mem,
    fun c => ⟨components_pathOf c key, fun t => ?_⟩⟩
  · rw [fileName_eq, form.stem_eq, ← fileName_eq]
  · exact FileTree.entry?_join (isPlainName_fileName_all key) c.directory

/-- What would lead up and out of a directory is one underscore. -/
example : fileName "../..//ä__b-c" = "_b_c.json" := by decide

end SourceAtlas.Cache
