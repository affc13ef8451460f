import SourceAtlas.Proofs.Path.Normal
/-!
Paths below a root, and the texts by which they are seen from there. Seen from a root, a path that goes
down from it by plain names is the text of these names, whatever the root looks like. An absolute root in
normal form is a run of plain names, so below it such a path is in normal form too, and the text of the
names leads back to it.
-/

namespace SourceAtlas

theorem Text.replaceChar_of_not_mem {old new : Char} {t : List Char} (h : old ∉ t) :
    replaceChar old new t = t := by
  refine (List.map_congr_left fun c mem => ?_).trans (List.map_id t)
  exact if_neg fun same : c = old => h (same ▸ mem)

theorem Text.join_append {sep : Char} {front back : List (List Char)} (ne : front ≠ [])
    (ne' : back ≠ []) : join sep (front ++ back) = join sep front ++ sep :: join sep back := by
  induction front with
  | nil => exact absurd rfl ne
  | cons piece front ih =>
    cases front with
    | nil =>
      obtain ⟨next, others, rfl⟩ := List.exists_cons_of_ne_nil ne'
      exact join_cons_cons sep piece next others
    | cons next front =>
      have later := ih (List.cons_ne_nil _ _)
      rw [List.cons_append] at later
      rw [List.cons_append, List.cons_append, join_cons_cons, join_cons_cons, later, List.append_assoc]
      rfl

namespace Path

variable {root : List Char} {names front back : List (List Char)}

/-! ### Going down by names -/

theorem descend_append (p : List Char) (front back : List (List Char)) :
    descend (descend p front) back = descend p (front ++ back) :=
  List.foldl_append.symm

theorem descend_ofSteps {absolute : Bool} {s : List (List Char)} (steps : ∀ x ∈ s, IsStep x)
    (plain : ∀ name ∈ names, isPlainName name) :
    descend (ofSteps absolute s) names = ofSteps absolute (s ++ names) := by
  induction names generalizing s with
  | nil => simp [descend]
  | cons name names ih =>
    obtain ⟨first, rest⟩ := List.forall_mem_cons.1 plain
    have step := isStep_of_isPlainName first
    have longer : ∀ x ∈ s ++ [name], IsStep x := by
      simpa [or_imp, forall_and] using ⟨steps, step⟩
    have deeper := ih longer rest
    rw [← join_ofSteps absolute steps step, List.append_assoc] at deeper
    exact deeper

/-- Names below a root in normal form give a path in normal form. -/
theorem normalize_descend (absolute : isAbsolute root) (normal : normalize root = root)
    (plain : ∀ name ∈ names, isPlainName name) :
    normalize (descend root names) = descend root names := by
  obtain ⟨s, above, form⟩ := exists_names absolute
  obtain rfl := normal.symm.trans form
  have whole : ∀ x ∈ s ++ names, isPlainName x := fun x mem =>
    (List.mem_append.1 mem).elim (above x) (plain x)
  rw [descend_ofSteps (fun x mem => isStep_of_isPlainName (above x mem)) plain, normalize_names whole]

/-! ### Seen from the root -/

/-- The text of names below a root leads back to the path. -/
theorem normalize_join_names (absolute : isAbsolute root) (normal : normalize root = root)
    (plain : ∀ name ∈ names, isPlainName name) :
    normalize (join root (Text.join '/' names)) = descend root names := by
  have steps : ∀ x ∈ names, IsStep x := fun x mem => isStep_of_isPlainName (plain x mem)
  have relative : isAbsolute (Text.join '/' names) = false := isAbsolute_ofSteps false steps
  have inner : Path.steps (Text.join '/' names) = names := steps_ofSteps false steps
  rw [← normalize_descend absolute normal plain]
  refine normalize_congr ?_ ?_
  · rw [isAbsolute_join_relative relative, isAbsolute_descend plain]
  · rw [steps_join_relative relative, inner, steps_descend plain]

theorem dropWhile_steps {s : List (List Char)} (steps : ∀ x ∈ s, IsStep x) :
    s.dropWhile isIdle = s := by
  cases s with
  | nil => rfl
  | cons x s => rw [List.dropWhile_cons, if_neg (by simp [(steps x List.mem_cons_self).1])]

/-- An empty segment at the end says nothing. -/
theorem dropIdleEnd_dropWhile_concat {s : List (List Char)} (steps : ∀ x ∈ s, IsStep x) :
    dropIdleEnd ((s ++ [[]]).dropWhile isIdle) = s := by
  cases s with
  | nil => rfl
  | cons x s =>
    have first := (steps x List.mem_cons_self).1
    have last : dropIdleEnd (x :: s ++ [[]]) = dropIdleEnd (x :: s) := by simp [dropIdleEnd, isIdle]
    rw [List.cons_append, List.dropWhile_cons_of_neg (by simp [first]), ← List.cons_append, last,
      dropIdleEnd_steps steps]

/-- Behind as many steps as a list of segments has comes what stands behind the list, up to idle
segments. -/
theorem dropWhile_dropSegments (s rest : List (List Char)) :
    (dropSegments (s.filter fun x => !isIdle x).length (s ++ rest)).dropWhile isIdle =
      rest.dropWhile isIdle := by
  induction s with
  | nil => rw [List.filter_nil, List.length_nil, dropSegments, List.nil_append]
  | cons x s ih =>
    cases idle : isIdle x with
    | false =>
      rw [List.filter_cons_of_pos (by simp [idle]), List.length_cons, List.cons_append, dropSegments,
        idle]
      exact ih
    | true =>
      rw [List.filter_cons_of_neg (by simp [idle]), List.cons_append]
      cases count : (s.filter fun x => !isIdle x).length with
      | zero =>
        rw [count, dropSegments] at ih
        rw [dropSegments, List.dropWhile_cons_of_pos idle, ih]
      | succ n =>
        rw [count] at ih
        rw [dropSegments, if_pos idle, ih]

/-- A path has no segment but those before a joined name, and an empty one behind a final slash. -/
theorem segments_cases {p : List Char} (ne : p ≠ []) :
    segments p = lead p ∨ segments p = lead p ++ [[]] := by
  rw [lead, List.isEmpty_eq_false_iff.2 ne, if_neg (by decide)]
  by_cases ends : p.getLast? = some '/'
  · obtain ⟨d, rfl⟩ := List.getLast?_eq_some_iff.1 ends
    have whole : segments (d ++ ['/']) = segments d ++ [[]] := Text.split_append_sep '/' [] d
    rw [if_pos (by simp), whole, List.dropLast_concat]
    exact .inr rfl
  · rw [if_neg (by simpa using ends)]
    exact .inl rfl

/-- A name does not end in a slash, so it stands before the next name. -/
theorem lead_join {name : List Char} (plain : isPlainName name) (p : List Char) :
    lead (join p name) = lead p ++ [name] := by
  obtain ⟨busy, _, slash⟩ := isPlainName_iff.1 plain
  have segs := segments_join slash p
  rcases segments_cases (join_ne_nil plain p) with whole | whole
  · rw [← whole, segs]
  · -- an empty last segment is no name
    obtain ⟨_, last⟩ := List.append_inj' (segs.symm.trans whole) rfl
    rw [List.cons.inj last |>.1] at busy
    exact absurd busy (by decide)

theorem lead_descend (plain : ∀ name ∈ names, isPlainName name) (p : List Char) :
    lead (descend p names) = lead p ++ names := by
  induction names generalizing p with
  | nil => exact (List.append_nil _).symm
  | cons name names ih =>
    obtain ⟨first, rest⟩ := List.forall_mem_cons.1 plain
    have deeper := ih rest (join p name)
    rw [lead_join first, List.append_assoc] at deeper
    exact deeper

/-- Only the empty path has no component. -/
theorem components_ne_nil {p : List Char} (ne : p ≠ []) : components p ≠ [] := by
  intro none
  obtain ⟨front, whole, start⟩ := components_eq p
  obtain ⟨rfl, idle⟩ := List.append_eq_nil_iff.1 (whole.symm.trans none)
  have relative : isAbsolute p = false := by
    rcases start with ⟨_, root⟩ | ⟨relative, _⟩
    · cases root
    · exact relative
  obtain ⟨c, cs, rest, segs⟩ := segments_of_relative relative ne
  -- the first segment is not empty, so if it says nothing it is a leading dot
  have first : isIdle (c :: cs) := by
    have all : steps p = [] := List.map_eq_nil_iff.1 idle
    rw [steps, segs, List.filter_eq_nil_iff] at all
    simpa using all _ List.mem_cons_self
  have dot : c :: cs = ['.'] := by simpa [isIdle] using first
  simp [components, relative, segs, dot] at none

/-- The components are the steps and at most a mark of where the path begins. -/
theorem length_named (p : List Char) :
    ((components p).filter fun c => c != .root && c != .current).length = (steps p).length := by
  obtain ⟨front, whole, start⟩ := components_eq p
  have marks : (front.filter fun c => c != .root && c != .current) = [] := by
    rcases start with ⟨_, rfl⟩ | ⟨_, rfl | rfl⟩ <;> rfl
  have kept : (((steps p).map ofStep).filter fun c => c != .root && c != .current) =
      (steps p).map ofStep := by
    refine List.filter_eq_self.2 fun c mem => ?_
    obtain ⟨x, _, rfl⟩ := List.mem_map.1 mem
    rcases ofStep_cases x with ⟨up, _⟩ | ⟨name, _⟩
    · rw [up]; rfl
    · rw [name]; rfl
  rw [whole, List.filter_append, marks, kept, List.nil_append, List.length_map]

/-- Seen from a root, a path below it is the text of its names. -/
theorem relativeTo?_descend (ne : root ≠ []) (plain : ∀ name ∈ names, isPlainName name) :
    relativeTo? root (descend root names) = some (Text.join '/' names) := by
  have below : ∀ x ∈ names, IsStep x := fun x mem => isStep_of_isPlainName (plain x mem)
  have begins : (components root).isPrefixOf (components (descend root names)) := by
    rw [List.isPrefixOf_iff_prefix, components_descend ne plain]
    exact List.prefix_append _ _
  have path := lead_descend plain root
  have behind : dropIdleEnd ((dropSegments (steps root).length
      (segments (descend root names))).dropWhile isIdle) = names := by
    rw [← filter_lead]
    rcases segments_cases (descend_ne_nil ne plain) with whole | whole
    · rw [whole, path, dropWhile_dropSegments, dropWhile_steps below, dropIdleEnd_steps below]
    · rw [whole, path, List.append_assoc, dropWhile_dropSegments,
        dropIdleEnd_dropWhile_concat below]
  rw [relativeTo?]
  simp only [begins, if_true, List.isEmpty_eq_false_iff.2 (components_ne_nil ne), length_named, behind]
  rfl

/-- The text of names below a root, with forward slashes only. -/
def shownNames (names : List (List Char)) : String :=
  .ofList (Text.replaceChar '\\' '/' (Text.join '/' names))

theorem relative_descend (ne : root ≠ []) (plain : ∀ name ∈ names, isPlainName name) :
    relative (.ofList root) (.ofList (descend root names)) = shownNames names := by
  rw [relative, String.toList_ofList, String.toList_ofList, relativeTo?_descend ne plain,
    Option.getD_some, shownNames]

/-- Names below a directory stand behind its text and a slash. -/
theorem shownNames_append (ne : front ≠ []) (ne' : back ≠ []) :
    shownNames (front ++ back) = shownNames front ++ "/" ++ shownNames back := by
  rw [← String.toList_inj, shownNames, Text.join_append ne ne', Text.replaceChar, List.map_append,
    List.map_cons]
  simp [shownNames, Text.replaceChar]

end Path

end SourceAtlas
