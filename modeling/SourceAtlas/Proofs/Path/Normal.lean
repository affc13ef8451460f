import SourceAtlas.Proofs.Path.Steps
/-!
The normal form of a path text. A path that is built from steps is taken apart into the same steps
again, so a normal form is described by the steps that the fold over the components keeps: a run of
`..` that only a relative path has, then plain names. The invariant `IsKept` says so of each prefix
of the path, and every law below is read off from it.
-/

namespace SourceAtlas.Path

/-! ### Paths from steps -/

/-- A segment that says something and is no more than one segment. -/
def IsStep (s : List Char) : Prop := isIdle s = false ∧ '/' ∉ s

theorem isStep_up : IsStep ['.', '.'] := ⟨rfl, by decide⟩

theorem isStep_of_isPlainName {s : List Char} (h : isPlainName s) : IsStep s :=
  ⟨(isPlainName_iff.1 h).1, (isPlainName_iff.1 h).2.2⟩

theorem isStep_of_mem_steps {p s : List Char} (h : s ∈ steps p) : IsStep s := by
  obtain ⟨segment, busy⟩ := List.mem_filter.1 h
  exact ⟨by simpa using busy, slash_not_mem_segments segment⟩

theorem IsStep.eq_cons {s : List Char} (h : IsStep s) : ∃ c cs, s = c :: cs := by
  cases s with
  | nil => exact absurd h.1 (by decide)
  | cons c cs => exact ⟨c, cs, rfl⟩

/-- A step is `..` or a plain name. -/
theorem IsStep.cases {s : List Char} (h : IsStep s) : s = ['.', '.'] ∨ isPlainName s := by
  by_cases up : s = ['.', '.']
  · exact .inl up
  · exact .inr (isPlainName_iff.2 ⟨h.1, up, h.2⟩)

/-- The path text that takes the steps one after the other, from the root or from where one is. -/
def ofSteps (absolute : Bool) (s : List (List Char)) : List Char :=
  if absolute then '/' :: Text.join '/' s else Text.join '/' s

/-- No step is idle, so none is dropped. -/
theorem dropIdleEnd_steps {s : List (List Char)} (steps : ∀ x ∈ s, IsStep x) : dropIdleEnd s = s := by
  rcases List.eq_nil_or_concat s with rfl | ⟨front, last, eq⟩
  · rfl
  · rw [List.concat_eq_append] at eq
    rw [eq]
    exact dropIdleEnd_append_singleton _ (steps last (by simp [eq])).1

section
variable (absolute : Bool) {s : List (List Char)}

theorem filter_idle (h : ∀ x ∈ s, IsStep x) : s.filter (fun x => !isIdle x) = s :=
  List.filter_eq_self.2 fun x hx => by simp [(h x hx).1]

theorem steps_ofSteps (h : ∀ x ∈ s, IsStep x) : steps (ofSteps absolute s) = s := by
  have plain : steps (Text.join '/' s) = s := by
    rw [steps_join fun x hx => (h x hx).2, filter_idle h]
  rw [ofSteps]
  split
  · rw [steps_slash, plain]
  · exact plain

theorem isAbsolute_ofSteps (h : ∀ x ∈ s, IsStep x) : isAbsolute (ofSteps absolute s) = absolute := by
  cases absolute with
  | true => rfl
  | false =>
    cases s with
    | nil => rfl
    | cons first rest =>
      obtain ⟨c, cs, rfl⟩ := (h first List.mem_cons_self).eq_cons
      exact isAbsolute_join (h _ List.mem_cons_self).2

/-- The segments of a path from steps: an empty one in front of them if it is absolute. -/
theorem segments_ofSteps (h : ∀ x ∈ s, IsStep x) (ne : s ≠ []) :
    segments (ofSteps absolute s) = (if absolute then [[]] else []) ++ s := by
  have plain : segments (Text.join '/' s) = s := Text.split_join ne fun x hx => (h x hx).2
  cases absolute with
  | true => rw [ofSteps, if_pos rfl, segments, Text.split, if_pos rfl, ← segments, plain]; rfl
  | false => exact plain

theorem components_ofSteps (h : ∀ x ∈ s, IsStep x) : components (ofSteps absolute s) =
    (if absolute then [.root] else []) ++ s.map ofStep := by
  cases absolute with
  | true => rw [components_of_absolute rfl, steps_ofSteps _ h]; rfl
  | false =>
    cases s with
    | nil => rfl
    | cons first rest =>
      have relative := isAbsolute_ofSteps false h
      have segs := segments_ofSteps false h (by simp)
      have front : first ≠ ['.'] := by
        rintro rfl
        exact absurd (h _ List.mem_cons_self).1 (by decide)
      have body := filterMap_component? (segments (ofSteps false (first :: rest)))
      rw [← steps, steps_ofSteps _ h] at body
      have other : (segments (ofSteps false (first :: rest))).head? ≠ some ['.'] := by
        rw [segs]
        simpa using front
      simp only [components, relative, body]
      simp [other]

/-- What stands before a name that is joined to a path from steps. -/
theorem lead_ofSteps (h : ∀ x ∈ s, IsStep x) :
    lead (ofSteps absolute s) = (if absolute then [[]] else []) ++ s := by
  rcases List.eq_nil_or_concat s with rfl | ⟨front, last, eq⟩
  · cases absolute <;> rfl
  · rw [List.concat_eq_append] at eq
    have filled : s ≠ [] := by simp [eq]
    have segs := segments_ofSteps absolute h filled
    obtain ⟨c, cs, lastEq⟩ := (h last (by simp [eq])).eq_cons
    have proper : ofSteps absolute s ≠ [] := by
      intro empty
      have none := steps_ofSteps absolute h
      rw [empty] at none
      exact filled none.symm
    -- a final slash would make the last segment empty
    have ends : (ofSteps absolute s).getLast? ≠ some '/' := by
      intro slash
      obtain ⟨d, whole⟩ := List.getLast?_eq_some_iff.1 slash
      have split : segments (d ++ ['/']) = segments d ++ [[]] := Text.split_append_sep '/' [] d
      have final := congrArg List.getLast? (segs.symm.trans (congrArg segments whole))
      rw [split, eq] at final
      simp [lastEq, ← List.append_assoc] at final
    rw [lead, List.isEmpty_eq_false_iff.2 proper, if_neg (by decide),
      if_neg (by simpa using ends), segs]

theorem text_ofSteps (absolute : Bool) (s : List (List Char)) (last : List Char) :
    Text.join '/' ((if absolute then [[]] else []) ++ (s ++ [last])) =
      ofSteps absolute (s ++ [last]) := by
  cases absolute with
  | false => rfl
  | true => cases s <;> rfl

/-- A step more is joined. -/
theorem join_ofSteps {last : List Char} (h : ∀ x ∈ s, IsStep x) (step : IsStep last) :
    join (ofSteps absolute s) last = ofSteps absolute (s ++ [last]) := by
  rw [← join_text step.2, lead_ofSteps _ h, List.append_assoc, text_ofSteps]

/-- A step less is the parent. -/
theorem parent?_ofSteps {last : List Char} (h : ∀ x ∈ s ++ [last], IsStep x) :
    parent? (ofSteps absolute (s ++ [last])) = some (ofSteps absolute s) := by
  have front : ∀ x ∈ s, IsStep x := fun x hx => h x (List.mem_append_left _ hx)
  have busy : isIdle last = false := (h last (by simp)).1
  rw [parent?_eq (steps_ofSteps _ h), segments_ofSteps _ h (by simp), isAbsolute_ofSteps _ h,
    ← List.append_assoc, dropIdleEnd_append_singleton _ busy, List.dropLast_concat]
  cases absolute with
  | true => simp [ofSegments, ofSteps, dropIdleEnd_steps front]
  | false =>
    cases s with
    | nil => rfl
    | cons first rest =>
      have dot : first ≠ ['.'] := by
        rintro rfl
        exact absurd (front _ List.mem_cons_self).1 (by decide)
      simp [ofSegments, ofSteps, dot, dropIdleEnd_steps front]

end

/-! ### What the fold keeps -/

/-- The steps kept of a prefix of a path, the last first: plain names, and below them the run of `..`
with which a relative path may begin. -/
def IsKept (absolute : Bool) (kept : List (List Char)) : Prop :=
  ∃ names ups, kept = names ++ List.replicate ups ['.', '.'] ∧ (∀ n ∈ names, isPlainName n) ∧
    (absolute = true → ups = 0)

theorem isKept_nil (absolute : Bool) : IsKept absolute [] := ⟨[], 0, rfl, by simp, fun _ => rfl⟩

section
variable {absolute : Bool} {kept : List (List Char)}

theorem IsKept.isStep (h : IsKept absolute kept) : ∀ x ∈ kept.reverse, IsStep x := by
  obtain ⟨names, ups, rfl, plain, _⟩ := h
  intro x mem
  rw [List.mem_reverse, List.mem_append, List.mem_replicate] at mem
  rcases mem with name | ⟨_, rfl⟩
  · exact isStep_of_isPlainName (plain x name)
  · exact isStep_up

theorem IsKept.keep_name (h : IsKept absolute kept) {t : List Char} (name : isPlainName t) :
    IsKept absolute (t :: kept) := by
  obtain ⟨names, ups, rfl, plain, start⟩ := h
  exact ⟨t :: names, ups, rfl, List.forall_mem_cons.2 ⟨name, plain⟩, start⟩

/-- What a `..` does to the steps kept so far: it takes back the last name, or it is dropped at the
root, or it lengthens the run of `..`. -/
theorem IsKept.keep_up (h : IsKept absolute kept) :
    (∃ t rest, kept = t :: rest ∧ isPlainName t ∧ IsKept absolute rest ∧
      keep absolute kept .parent = rest) ∨
    (absolute = true ∧ kept = [] ∧ keep absolute kept .parent = []) ∨
    ∃ ups, absolute = false ∧ kept = List.replicate ups ['.', '.'] ∧
      keep absolute kept .parent = List.replicate (ups + 1) ['.', '.'] := by
  obtain ⟨names, ups, rfl, plain, start⟩ := h
  cases names with
  | cons t names =>
    obtain ⟨name, plain⟩ := List.forall_mem_cons.1 plain
    obtain ⟨_, up, _⟩ := isPlainName_iff.1 name
    exact .inl ⟨t, _, rfl, name, ⟨names, ups, rfl, plain, start⟩, by simp [keep, up]⟩
  | nil =>
    cases absolute with
    | true =>
      obtain rfl := start rfl
      exact .inr (.inl ⟨rfl, rfl, rfl⟩)
    | false => cases ups <;> exact .inr (.inr ⟨_, rfl, rfl, rfl⟩)

/-- Each step of a path leaves kept steps behind. -/
theorem IsKept.keep (h : IsKept absolute kept) {s : List Char} (step : IsStep s) :
    IsKept absolute (Path.keep absolute kept (ofStep s)) := by
  rcases ofStep_cases s with ⟨eq, _⟩ | ⟨eq, up⟩
  · rw [eq]
    rcases h.keep_up with ⟨_, _, _, _, rest, after⟩ | ⟨_, _, after⟩ | ⟨ups, rfl, _, after⟩
    · rwa [after]
    · exact after ▸ isKept_nil absolute
    · exact ⟨[], ups + 1, by rw [after]; rfl, by simp, by simp⟩
  · rw [eq]
    exact h.keep_name (isPlainName_iff.2 ⟨step.1, up, step.2⟩)

end

/-- The steps that are kept of a list of steps behind those kept before them, the last first. -/
def keepAll (absolute : Bool) (kept s : List (List Char)) : List (List Char) :=
  s.foldl (fun kept x => keep absolute kept (ofStep x)) kept

theorem keepAll_append (absolute : Bool) (kept s s' : List (List Char)) :
    keepAll absolute kept (s ++ s') = keepAll absolute (keepAll absolute kept s) s' :=
  List.foldl_append

theorem isKept_keepAll {absolute : Bool} {kept : List (List Char)} (h : IsKept absolute kept) :
    ∀ {s : List (List Char)}, (∀ x ∈ s, IsStep x) → IsKept absolute (keepAll absolute kept s)
  | [], _ => h
  | x :: s, steps => by
    obtain ⟨first, rest⟩ := List.forall_mem_cons.1 steps
    exact isKept_keepAll (h.keep first) rest

/-- Steps that were kept are kept again, all of them. -/
theorem keepAll_reverse {absolute : Bool} {kept : List (List Char)} (h : IsKept absolute kept) :
    keepAll absolute [] kept.reverse = kept := by
  obtain ⟨names, ups, rfl, plain, start⟩ := h
  have run : ∀ n, (absolute = true → n = 0) →
      keepAll absolute [] (List.replicate n ['.', '.']) = List.replicate n ['.', '.'] := by
    intro n start
    cases absolute with
    | true => rw [start rfl]; rfl
    | false =>
      induction n with
      | zero => rfl
      | succ n ih =>
        rw [List.replicate_succ', keepAll_append, ih (by simp), ← List.replicate_succ',
          List.replicate_succ]
        cases n <;> rfl
  rw [List.reverse_append, List.reverse_replicate, keepAll_append, run ups start]
  induction names with
  | nil => rfl
  | cons t names ih =>
    obtain ⟨name, plain⟩ := List.forall_mem_cons.1 plain
    obtain ⟨_, up, _⟩ := isPlainName_iff.1 name
    rw [List.reverse_cons, keepAll_append, ih plain]
    simp [keepAll, ofStep, up, Path.keep]

/-! ### The normal form by its steps -/

/-- The steps that are kept of a path. -/
def keptSteps (p : List Char) : List (List Char) := (keepAll (isAbsolute p) [] (steps p)).reverse

theorem isKept_steps (absolute : Bool) (p : List Char) :
    IsKept absolute (keepAll absolute [] (steps p)) :=
  isKept_keepAll (isKept_nil absolute) fun _ => isStep_of_mem_steps

theorem isStep_of_mem_keptSteps (p : List Char) : ∀ x ∈ keptSteps p, IsStep x :=
  (isKept_steps _ p).isStep

/-- What stands in front of a path's steps: the root, a leading `.`, or nothing. -/
theorem components_eq (p : List Char) :
    ∃ front, components p = front ++ (steps p).map ofStep ∧
      (isAbsolute p = true ∧ front = [.root] ∨
        isAbsolute p = false ∧ (front = [.current] ∨ front = [])) := by
  have body := filterMap_component? (segments p)
  rw [← steps] at body
  cases absolute : isAbsolute p with
  | true => exact ⟨[.root], by simp [components, absolute, body], .inl ⟨rfl, rfl⟩⟩
  | false =>
    by_cases dot : (segments p).head? = some ['.']
    · exact ⟨[.current], by simp [components, absolute, body, dot], .inr ⟨rfl, .inl rfl⟩⟩
    · exact ⟨[], by simp [components, absolute, body, dot], .inr ⟨rfl, .inr rfl⟩⟩

theorem normalize_eq (p : List Char) : normalize p = ofSteps (isAbsolute p) (keptSteps p) := by
  obtain ⟨front, whole, first⟩ := components_eq p
  have same : (components p).foldl (keep (isAbsolute p)) [] = keepAll (isAbsolute p) [] (steps p) := by
    rw [whole, List.foldl_append, List.foldl_map]
    rcases first with ⟨_, rfl⟩ | ⟨_, rfl | rfl⟩ <;> rfl
  rw [normalize, same]
  rfl

theorem isAbsolute_normal (p : List Char) : isAbsolute (normalize p) = isAbsolute p := by
  rw [normalize_eq, isAbsolute_ofSteps _ (isStep_of_mem_keptSteps p)]

theorem steps_normalize (p : List Char) : steps (normalize p) = keptSteps p := by
  rw [normalize_eq, steps_ofSteps _ (isStep_of_mem_keptSteps p)]

/-- Paths that start alike and keep the same steps have one normal form. -/
theorem normalize_congr {p q : List Char} (start : isAbsolute p = isAbsolute q)
    (kept : keepAll (isAbsolute q) [] (steps p) = keepAll (isAbsolute q) [] (steps q)) :
    normalize p = normalize q := by
  rw [normalize_eq, normalize_eq, keptSteps, keptSteps, start, kept]

/-- A path from steps that are all kept is normal. -/
theorem normalize_ofSteps {absolute : Bool} {kept : List (List Char)} (h : IsKept absolute kept) :
    normalize (ofSteps absolute kept.reverse) = ofSteps absolute kept.reverse := by
  rw [normalize_eq, isAbsolute_ofSteps _ h.isStep, keptSteps, isAbsolute_ofSteps _ h.isStep,
    steps_ofSteps _ h.isStep, keepAll_reverse h]

theorem normalize_normalize (p : List Char) : normalize (normalize p) = normalize p := by
  rw [normalize_eq p, keptSteps, normalize_ofSteps (isKept_steps _ p)]

theorem isKept_of_plain {names : List (List Char)} (plain : ∀ n ∈ names, isPlainName n) :
    IsKept true names.reverse :=
  ⟨names.reverse, 0, by simp, fun n mem => plain n (List.mem_reverse.1 mem), fun _ => rfl⟩

/-- Names below the root make a normal path. -/
theorem normalize_names {names : List (List Char)} (plain : ∀ n ∈ names, isPlainName n) :
    normalize (ofSteps true names) = ofSteps true names := by
  have normal := normalize_ofSteps (isKept_of_plain plain)
  rwa [List.reverse_reverse] at normal

/-- The normal form of an absolute path is made of names below the root. -/
theorem exists_names {p : List Char} (absolute : isAbsolute p) :
    ∃ names, (∀ n ∈ names, isPlainName n) ∧ normalize p = ofSteps true names := by
  obtain ⟨names, ups, kept, plain, start⟩ := isKept_steps true p
  refine ⟨names.reverse, fun n mem => plain n (List.mem_reverse.1 mem), ?_⟩
  rw [normalize_eq, keptSteps, absolute, kept, start rfl, List.replicate_zero, List.append_nil]

/-- Steps behind a normal form lead to what they lead to behind the path itself. -/
theorem keepAll_steps_normalize (p : List Char) (s : List (List Char)) :
    keepAll (isAbsolute p) [] (steps (normalize p) ++ s) =
      keepAll (isAbsolute p) [] (steps p ++ s) := by
  rw [steps_normalize, keptSteps, keepAll_append, keepAll_reverse (isKept_steps _ p), keepAll_append]

/-! ### Joining -/

theorem isAbsolute_join_relative {q : List Char} (relative : isAbsolute q = false) (p : List Char) :
    isAbsolute (join p q) = isAbsolute p := by
  rw [join, relative]
  cases p with
  | nil => exact relative
  | cons c cs =>
    simp only [Bool.false_eq_true, if_false]
    split <;> rfl

theorem steps_join_relative {q : List Char} (relative : isAbsolute q = false) (p : List Char) :
    steps (join p q) = steps p ++ steps q := by
  rw [steps, segments_join_relative relative, List.filter_append, filter_lead, ← steps]

theorem getLast?_components_up (p : List Char) :
    (components (join p ['.', '.'])).getLast? = some .parent :=
  getLast?_components (steps_join_relative (q := ['.', '.']) rfl p)

/-- A path that ends with `..` has no name at its end. -/
theorem fileName?_up (p : List Char) : fileName? (join p ['.', '.']) = none := by
  rw [fileName?, getLast?_components_up]

theorem normalize_join_normalize (a b : List Char) :
    normalize (join (normalize a) b) = normalize (join a b) := by
  cases absolute : isAbsolute b with
  | true => simp [join, absolute]
  | false =>
    have start : isAbsolute (join a b) = isAbsolute a := isAbsolute_join_relative absolute a
    refine normalize_congr ?_ ?_
    · rw [isAbsolute_join_relative absolute, isAbsolute_normal, start]
    · rw [start, steps_join_relative absolute, steps_join_relative absolute, keepAll_steps_normalize]

/-! ### The normal form by its components -/

/-- One component joins those kept so far. A `..` takes back the ordinary name before it; without one
it is dropped at the root and kept elsewhere. -/
def collapse (kept : List Component) : Component → List Component
  | .current => kept
  | .parent =>
    match kept.getLast? with
    | some (.name _) => kept.dropLast
    | some .root => kept
    | _ => kept ++ [.parent]
  | c => kept ++ [c]

/-- One component is followed from a path text: a `..` leads to the parent, but is written behind
another `..` and where there is no parent, except at the root. -/
def follow (absolute : Bool) (p : List Char) : Component → List Char
  | .current => p
  | .parent =>
    if (components p).getLast? == some .parent then join p ['.', '.']
    else match parent? p with
      | some q => q
      | none => if absolute then p else join p ['.', '.']
  | c => join p c.text

/-- The components of the path that the kept steps make. -/
def shown (absolute : Bool) (kept : List (List Char)) : List Component :=
  (if absolute then [.root] else []) ++ kept.reverse.map ofStep

theorem components_normalize (p : List Char) :
    components (normalize p) = shown (isAbsolute p) (keepAll (isAbsolute p) [] (steps p)) := by
  rw [normalize_eq, components_ofSteps _ (isStep_of_mem_keptSteps p)]
  rfl

theorem shown_cons (absolute : Bool) (t : List Char) (kept : List (List Char)) :
    shown absolute (t :: kept) = shown absolute kept ++ [ofStep t] := by
  simp [shown]

section
variable {absolute : Bool} {kept : List (List Char)}

theorem ofStep_of_isPlainName {t : List Char} (h : isPlainName t) : ofStep t = .name t := by
  obtain ⟨_, up, _⟩ := isPlainName_iff.1 h
  simp [ofStep, up]

theorem shown_keep (h : IsKept absolute kept) {s : List Char} (step : IsStep s) :
    shown absolute (keep absolute kept (ofStep s)) = collapse (shown absolute kept) (ofStep s) := by
  rcases step.cases with rfl | name
  · change shown absolute (keep absolute kept .parent) = collapse (shown absolute kept) .parent
    rcases h.keep_up with ⟨t, rest, rfl, name, _, after⟩ | ⟨rfl, rfl, after⟩ | ⟨ups, rfl, rfl, after⟩
    · rw [after, shown_cons, ofStep_of_isPlainName name, collapse, List.getLast?_concat,
        List.dropLast_concat]
    · rw [after]
      rfl
    · rw [after, List.replicate_succ, shown_cons]
      cases ups with
      | zero => rfl
      | succ ups =>
        rw [List.replicate_succ, shown_cons, collapse, List.getLast?_concat]
        rfl
  · have new : keep absolute kept (.name s) = s :: kept := rfl
    rw [ofStep_of_isPlainName name, new, shown_cons, ofStep_of_isPlainName name]
    rfl

/-- Following one more component keeps one more step. -/
theorem follow_ofSteps (h : IsKept absolute kept) {s : List Char} (step : IsStep s) :
    follow absolute (ofSteps absolute kept.reverse) (ofStep s) =
      ofSteps absolute (keep absolute kept (ofStep s)).reverse := by
  have last : (components (ofSteps absolute kept.reverse)).getLast? =
      (shown absolute kept).getLast? := by rw [components_ofSteps _ h.isStep]; rfl
  rcases step.cases with rfl | name
  · change follow absolute (ofSteps absolute kept.reverse) .parent =
      ofSteps absolute (keep absolute kept .parent).reverse
    rw [follow, last]
    rcases h.keep_up with ⟨t, rest, rfl, name, _, after⟩ | ⟨rfl, rfl, after⟩ | ⟨ups, rfl, rfl, after⟩
    · have steps := h.isStep
      rw [List.reverse_cons] at steps
      rw [after, shown_cons, List.getLast?_concat, ofStep_of_isPlainName name, if_neg (by simp),
        List.reverse_cons, parent?_ofSteps _ steps]
    · rw [after]
      rfl
    · have longer := join_ofSteps false h.isStep isStep_up
      rw [← List.reverse_cons, ← List.replicate_succ] at longer
      cases ups with
      | zero => rw [after]; rfl
      | succ ups =>
        rw [after, List.replicate_succ, shown_cons, List.getLast?_concat, if_pos (by decide),
          ← List.replicate_succ, longer]
  · have new : keep absolute kept (.name s) = s :: kept := rfl
    rw [ofStep_of_isPlainName name, new, List.reverse_cons, ← join_ofSteps _ h.isStep step]
    rfl

end

theorem shown_keepAll {absolute : Bool} {kept : List (List Char)} (h : IsKept absolute kept) :
    ∀ {s : List (List Char)}, (∀ x ∈ s, IsStep x) →
      shown absolute (keepAll absolute kept s) = (s.map ofStep).foldl collapse (shown absolute kept)
  | [], _ => rfl
  | x :: s, steps => by
    obtain ⟨first, rest⟩ := List.forall_mem_cons.1 steps
    rw [List.map_cons, List.foldl_cons, ← shown_keep h first]
    exact shown_keepAll (h.keep first) rest

theorem foldl_follow {absolute : Bool} {kept : List (List Char)} (h : IsKept absolute kept) :
    ∀ {s : List (List Char)}, (∀ x ∈ s, IsStep x) →
      (s.map ofStep).foldl (follow absolute) (ofSteps absolute kept.reverse) =
        ofSteps absolute (keepAll absolute kept s).reverse
  | [], _ => rfl
  | x :: s, steps => by
    obtain ⟨first, rest⟩ := List.forall_mem_cons.1 steps
    rw [List.map_cons, List.foldl_cons, follow_ofSteps h first]
    exact foldl_follow (h.keep first) rest

/-- The components of a normal form are those of the path, taken one by one from the left. -/
theorem components_normalize_foldl (p : List Char) :
    components (normalize p) = (components p).foldl collapse [] := by
  obtain ⟨front, whole, first⟩ := components_eq p
  have start : front.foldl collapse [] = shown (isAbsolute p) [] := by
    rcases first with ⟨absolute, rfl⟩ | ⟨absolute, rfl | rfl⟩ <;> rw [absolute] <;> rfl
  rw [components_normalize, whole, List.foldl_append, start,
    shown_keepAll (isKept_nil _) fun _ => isStep_of_mem_steps]

/-- The normal form is the text that is left when the components are followed one by one. -/
theorem normalize_eq_foldl (p : List Char) :
    normalize p = (components p).foldl (follow (isAbsolute p)) [] := by
  obtain ⟨front, whole, first⟩ := components_eq p
  have start : front.foldl (follow (isAbsolute p)) [] = ofSteps (isAbsolute p) [] := by
    rcases first with ⟨absolute, rfl⟩ | ⟨absolute, rfl | rfl⟩ <;> rw [absolute] <;> rfl
  have run := foldl_follow (isKept_nil (isAbsolute p)) (s := steps p) fun _ => isStep_of_mem_steps
  rw [normalize_eq, whole, List.foldl_append, start]
  exact run.symm

/-- A normal form is a run of names behind the root, or behind a run of `..`. -/
theorem exists_components_normalize (p : List Char) :
    ∃ (ups : Nat) (names : List (List Char)), components (normalize p) =
      (if isAbsolute p then [.root] else List.replicate ups .parent) ++ names.map .name := by
  obtain ⟨names, ups, kept, plain, start⟩ := isKept_steps (isAbsolute p) p
  have named : names.reverse.map ofStep = names.reverse.map .name :=
    List.map_congr_left fun n mem => ofStep_of_isPlainName (plain n (List.mem_reverse.1 mem))
  refine ⟨ups, names.reverse, ?_⟩
  rw [components_normalize, kept, shown, List.reverse_append, List.reverse_replicate,
    List.map_append, named, List.map_replicate, ← List.append_assoc]
  cases absolute : isAbsolute p with
  | true => rw [start absolute]; rfl
  | false => rfl

/-- The laws of the lexical normal form: it is its own normal form, starts where the path starts, has
no `.`, no `..` behind the root and elsewhere only a leading run of them; it is what the components of
the path come to when they are taken from the left, as components and as a text; and a path may be
normalized before anything is joined to it. -/
theorem normalize_laws (p : List Char) :
    normalize (normalize p) = normalize p ∧
      isAbsolute (normalize p) = isAbsolute p ∧
      .current ∉ components (normalize p) ∧
      (∃ (ups : Nat) (names : List (List Char)), components (normalize p) =
        (if isAbsolute p then [.root] else List.replicate ups .parent) ++ names.map .name) ∧
      components (normalize p) = (components p).foldl collapse [] ∧
      normalize p = (components p).foldl (follow (isAbsolute p)) [] ∧
      ∀ b, normalize (join (normalize p) b) = normalize (join p b) := by
  have shape := exists_components_normalize p
  have noDot : .current ∉ components (normalize p) := by
    obtain ⟨ups, names, eq⟩ := shape
    rw [eq]
    split <;> simp
  exact ⟨normalize_normalize p, isAbsolute_normal p, noDot, shape, components_normalize_foldl p,
    normalize_eq_foldl p, normalize_join_normalize p⟩

example : normalize "a/./../..//b/.".toList = "../b".toList := by decide

end SourceAtlas.Path
