import SourceAtlas.Import.Resolver
import SourceAtlas.Proofs.Path.Normal
/-!
The extension rule. On a normal absolute path it acts on the last name alone: the name ends with an
extension afterwards, and the names in front of it stay. Two paths are apart from this. The root has
no name, so that the rule makes one which is nothing but an extension; and the name `..js` loses its
extension before it gets a new one, which leaves `..`.
-/

namespace SourceAtlas

open SourceAtlas.Path

namespace Resolver

/-- The extensions that a resolved path may have. -/
def settledExtensions : List String := "js" :: knownExtensions

theorem clean_of_settled : ∀ e ∈ settledExtensions, '.' ∉ e.toList ∧ '/' ∉ e.toList ∧ e.toList ≠ [] := by
  decide

/-- A file name that ends with an extension which a resolved path may have. No name is `..js`. -/
structure IsSettledName (stem : List Char) (ext : String) : Prop where
  filled : stem ≠ []
  slash : '/' ∉ stem
  mem : ext ∈ settledExtensions
  script : ext = "js" → stem ≠ ['.']

namespace IsSettledName

variable {stem : List Char} {ext : String}

theorem isPlainName (h : IsSettledName stem ext) : isPlainName (stem ++ '.' :: ext.toList) := by
  obtain ⟨_, slash, more⟩ := clean_of_settled ext h.mem
  have long : 2 < (stem ++ '.' :: ext.toList).length := by
    have front := List.length_pos_iff.2 h.filled
    have back := List.length_pos_iff.2 more
    rw [List.length_append, List.length_cons]
    omega
  refine isPlainName_iff.2 ⟨?_, ?_, by simp [h.slash, slash]⟩
  · rw [isIdle, Bool.or_eq_false_iff]
    refine ⟨by simp, beq_eq_false_iff_ne.2 fun same => ?_⟩
    rw [same] at long
    simp at long
  · intro same
    rw [same] at long
    simp at long

/-- The extension stands at the end of a path that ends with the name. -/
theorem join_ext (h : IsSettledName stem ext) (d : List Char) :
    join d stem ++ '.' :: ext.toList = join d (stem ++ '.' :: ext.toList) :=
  join_append h.slash (isPlainName_iff.1 h.isPlainName).2.2 d

theorem extension? (h : IsSettledName stem ext) (d : List Char) :
    Path.extension? (join d (stem ++ '.' :: ext.toList)) = some ext.toList :=
  extension?_join h.filled (clean_of_settled ext h.mem).1 h.isPlainName d

/-- A name that the rule has settled stays, unless it ends in `js`. -/
theorem withSourceExtension_eq (h : IsSettledName stem ext) (other : ext ≠ "js") (d : List Char) :
    withSourceExtension (join d (stem ++ '.' :: ext.toList)) =
      join d (stem ++ '.' :: ext.toList) := by
  have known : ext ∈ knownExtensions := (List.mem_cons.1 h.mem).resolve_left other
  have notScript : ext.toList ≠ ['j', 's'] := fun same =>
    other (String.toList_inj.1 (same.trans (by rfl)))
  rw [withSourceExtension, h.extension? d]
  simp [notScript, known]

/-- The source of a script is expected beside it. -/
theorem withSourceExtension_js (h : IsSettledName stem "js") (d : List Char) :
    withSourceExtension (join d (stem ++ ['.', 'j', 's'])) = join d (stem ++ ['.', 't', 's']) := by
  have bare : Path.isPlainName (stem ++ ['.']) := by
    refine isPlainName_iff.2 ⟨?_, fun same => ?_, by simp [h.slash]⟩
    · obtain ⟨c, cs, rfl⟩ := List.exists_cons_of_ne_nil h.filled
      simp [isIdle]
    · exact h.script rfl (List.append_inj_left same (by simpa using congrArg List.length same))
  have ext := h.extension? d
  have moved := withExtension_join h.filled (by decide) h.isPlainName bare
    (show '/' ∉ ['t', 's'] by decide) d
  change Path.extension? (join d (stem ++ ['.', 'j', 's'])) = some ['j', 's'] at ext
  rw [withSourceExtension, ext]
  exact moved

end IsSettledName

/-- A name that has no extension, or one that is not known, gets one more. -/
theorem withSourceExtension_other {t d : List Char} (name : isPlainName t)
    (unknown : ∀ e ∈ (splitName t).2, String.ofList e ∉ settledExtensions) :
    ∃ ext, IsSettledName t ext ∧ withSourceExtension (join d t) = join d (t ++ '.' :: ext.toList) := by
  obtain ⟨busy, _, slash⟩ := isPlainName_iff.1 name
  have ext : Path.extension? (join d t) = (splitName t).2 := by
    rw [Path.extension?, fileName?_join name, Option.bind_some]
  have settled : ∀ e ∈ ["ts", "js"], IsSettledName t e := by
    intro e mem
    refine ⟨fun none => ?_, slash, ?_, fun _ dot => ?_⟩
    · rw [none] at busy
      cases busy
    · revert e
      decide
    · rw [dot] at busy
      cases busy
  have appended : withSourceExtension (join d t) =
      join d t ++ if inSources (join d t) then ['.', 't', 's'] else ['.', 'j', 's'] := by
    rw [withSourceExtension, ext]
    cases after : (splitName t).2 with
    | none => rfl
    | some e =>
      have new := unknown e after
      rw [settledExtensions, List.mem_cons, not_or] at new
      have notScript : e ≠ ['j', 's'] := by
        rintro rfl
        exact new.1 rfl
      simp [notScript, new.2]
  rw [appended]
  split
  · exact ⟨"ts", settled "ts" (by simp), join_append slash (by simp [slash]) d⟩
  · exact ⟨"js", settled "js" (by simp), join_append slash (by simp [slash]) d⟩

/-- The rule settles every name but `..js`. -/
theorem exists_settled_name {t : List Char} (name : isPlainName t) (other : t ≠ ['.', '.', 'j', 's'])
    (d : List Char) : ∃ stem ext, IsSettledName stem ext ∧
      withSourceExtension (join d t) = join d (stem ++ '.' :: ext.toList) := by
  by_cases known : ∃ e ∈ (splitName t).2, String.ofList e ∈ settledExtensions
  · obtain ⟨e, split, mem⟩ := known
    have cut : splitName t = ((splitName t).1, some e) := Prod.ext rfl split
    have filled := stem_ne_nil_of_splitName cut
    have whole := eq_append_of_splitName cut
    generalize (splitName t).1 = stem at *
    subst whole
    have slash : '/' ∉ stem := fun mem =>
      (isPlainName_iff.1 name).2.2 (List.mem_append_left _ mem)
    have ext : (String.ofList e).toList = e := String.toList_ofList
    have settled : IsSettledName stem (String.ofList e) := by
      refine ⟨filled, slash, mem, fun script dot => other ?_⟩
      rw [dot, ← ext, script]
      rfl
    by_cases script : String.ofList e = "js"
    · obtain rfl : e = ['j', 's'] := ext.symm.trans (congrArg String.toList script)
      have source : IsSettledName stem "ts" := ⟨filled, slash, by decide, fun no => absurd no (by decide)⟩
      exact ⟨stem, "ts", source, (script ▸ settled).withSourceExtension_js d⟩
    · have same := settled.withSourceExtension_eq script d
      rw [ext] at same
      exact ⟨stem, String.ofList e, settled, by rw [ext, same]⟩
  · obtain ⟨ext, settled, eq⟩ := withSourceExtension_other (d := d) name
      fun e split mem => known ⟨e, split, mem⟩
    exact ⟨t, ext, settled, eq⟩

/-- The name `..js` loses its extension, and what is left gets no other. -/
theorem withSourceExtension_dots (d : List Char) :
    withSourceExtension (join d ['.', '.', 'j', 's']) = join d ['.', '.'] := by
  have ext : Path.extension? (join d ['.', '.', 'j', 's']) = some ['j', 's'] :=
    extension?_join (show ['.'] ≠ [] by simp) (by decide) (by decide) d
  have cut : (join d ['.', '.', 'j', 's']).take ((join d ['.', '.', 'j', 's']).length - 2) =
      join d ['.', '.'] :=
    take_join (show '/' ∉ ['.', '.'] by decide) (show '/' ∉ ['.', '.'] ++ ['j', 's'] by decide) d
  rw [withSourceExtension, ext]
  simp [withExtension, ext, cut, addExtension, fileName?_up]

/-- The root has no name, and gets an extension alone. -/
theorem withSourceExtension_root : withSourceExtension ['/'] = ['/', '.', 'j', 's'] := by decide +kernel

/-- Where an absolute path comes to by the rule: to a settled name below the root, but for the root
itself and for the name `..js`. -/
theorem settlePath_cases {p : List Char} (absolute : isAbsolute p) :
    normalize p = ['/'] ∧ settlePath p = ['/', '.', 'j', 's'] ∨
    ∃ front t, (∀ n ∈ front, isPlainName n) ∧ isPlainName t ∧
      normalize p = join (ofSteps true front) t ∧
      (t = ['.', '.', 'j', 's'] ∧ settlePath p = join (ofSteps true front) ['.', '.'] ∨
        t ≠ ['.', '.', 'j', 's'] ∧ ∃ stem ext, IsSettledName stem ext ∧
          settlePath p = join (ofSteps true front) (stem ++ '.' :: ext.toList)) := by
  obtain ⟨names, plain, normal⟩ := exists_names absolute
  rw [settlePath, normal]
  rcases List.eq_nil_or_concat names with rfl | ⟨front, t, eq⟩
  · exact .inl ⟨rfl, withSourceExtension_root⟩
  · rw [List.concat_eq_append] at eq
    subst eq
    have below : ∀ n ∈ front, isPlainName n := fun n mem => plain n (List.mem_append_left _ mem)
    have name : isPlainName t := plain t (by simp)
    have whole := join_ofSteps true (fun n mem => isStep_of_isPlainName (below n mem))
      (isStep_of_isPlainName name)
    refine .inr ⟨front, t, below, name, whole.symm, ?_⟩
    rw [← whole]
    by_cases dots : t = ['.', '.', 'j', 's']
    · exact .inl ⟨dots, dots ▸ withSourceExtension_dots _⟩
    · exact .inr ⟨dots, exists_settled_name name dots _⟩

end Resolver

end SourceAtlas
