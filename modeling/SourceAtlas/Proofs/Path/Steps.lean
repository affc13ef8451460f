import SourceAtlas.Path
/-!
The steps of a path text: its segments without the idle ones. A path leads where its start and its
steps lead, so the operations on path texts are described by what they do to these two.
-/

namespace SourceAtlas

namespace Text

theorem split_ne_nil (sep : Char) (t : List Char) : split sep t ≠ [] := by
  cases t with
  | nil => simp [split]
  | cons c cs =>
    rw [split]
    split
    · simp
    · split <;> simp

theorem split_cons_of_ne {sep c : Char} (h : c ≠ sep) {cs piece : List Char}
    {pieces : List (List Char)} (eq : split sep cs = piece :: pieces) :
    split sep (c :: cs) = (c :: piece) :: pieces := by
  rw [split, if_neg h, eq]

theorem split_append_sep (sep : Char) (b a : List Char) :
    split sep (a ++ sep :: b) = split sep a ++ split sep b := by
  induction a with
  | nil => simp [split]
  | cons c cs ih =>
    by_cases h : c = sep
    · rw [List.cons_append, split, split, if_pos h, if_pos h, ih, List.cons_append]
    · obtain ⟨piece, pieces, eq⟩ := List.exists_cons_of_ne_nil (split_ne_nil sep cs)
      have longer : split sep (cs ++ sep :: b) = piece :: (pieces ++ split sep b) := by
        rw [ih, eq, List.cons_append]
      rw [List.cons_append, split_cons_of_ne h longer, split_cons_of_ne h eq, List.cons_append]

theorem split_of_not_mem {sep : Char} {t : List Char} (h : sep ∉ t) : split sep t = [t] := by
  induction t with
  | nil => rfl
  | cons c cs ih =>
    obtain ⟨ne, rest⟩ := not_or.1 (mt List.mem_cons.2 h)
    exact split_cons_of_ne (Ne.symm ne) (ih rest)

theorem not_mem_of_mem_split {sep : Char} {t piece : List Char} (h : piece ∈ split sep t) :
    sep ∉ piece := by
  induction t generalizing piece with
  | nil => simp_all [split]
  | cons c cs ih =>
    by_cases same : c = sep
    · rw [split, if_pos same] at h
      rcases List.mem_cons.1 h with rfl | h
      · exact List.not_mem_nil
      · exact ih h
    · obtain ⟨first, others, eq⟩ := List.exists_cons_of_ne_nil (split_ne_nil sep cs)
      rw [split_cons_of_ne same eq] at h
      rcases List.mem_cons.1 h with rfl | h
      · have tail : sep ∉ first := ih (eq ▸ List.mem_cons_self)
        simp [tail, Ne.symm same]
      · exact ih (eq ▸ List.mem_cons_of_mem _ h)

/-- Pieces without separators are told apart again. -/
theorem split_join {sep : Char} : ∀ {pieces : List (List Char)}, pieces ≠ [] →
    (∀ piece ∈ pieces, sep ∉ piece) → split sep (join sep pieces) = pieces
  | [piece], _, h => split_of_not_mem (h piece List.mem_cons_self)
  | piece :: next :: pieces, _, h => by
    rw [join_cons_cons, split_append_sep, split_of_not_mem (h piece List.mem_cons_self),
      split_join (by simp) fun p hp => h p (List.mem_cons_of_mem _ hp), List.singleton_append]

theorem join_split (sep : Char) (t : List Char) : join sep (split sep t) = t := by
  induction t with
  | nil => rfl
  | cons c cs ih =>
    obtain ⟨piece, pieces, eq⟩ := List.exists_cons_of_ne_nil (split_ne_nil sep cs)
    have rest : join sep (piece :: pieces) = cs := eq ▸ ih
    by_cases same : c = sep
    · rw [split, if_pos same, eq, join_cons_cons, rest, same, List.nil_append]
    · rw [split_cons_of_ne same eq]
      cases pieces with
      | nil => exact congrArg (c :: ·) rest
      | cons next others => exact congrArg (c :: ·) rest

/-- What is joined holds the separator and the characters of the pieces. -/
theorem eq_or_mem_of_mem_join {sep c : Char} : ∀ {pieces : List (List Char)}, c ∈ join sep pieces →
    c = sep ∨ ∃ piece ∈ pieces, c ∈ piece
  | [], h => absurd h List.not_mem_nil
  | [piece], h => .inr ⟨piece, List.mem_cons_self, h⟩
  | piece :: next :: pieces, h => by
    rw [join_cons_cons] at h
    rcases List.mem_append.1 h with here | later
    · exact .inr ⟨piece, List.mem_cons_self, here⟩
    · rcases List.mem_cons.1 later with same | later
      · exact .inl same
      · exact (eq_or_mem_of_mem_join later).imp_right fun ⟨p, among, mem⟩ =>
          ⟨p, List.mem_cons_of_mem _ among, mem⟩

end Text

namespace Path

/-- The segments that say something. -/
def steps (p : List Char) : List (List Char) := (segments p).filter fun s => !isIdle s

/-- The text is the name of an entry in a directory. -/
def isPlainName (s : List Char) : Bool := !isIdle s && s != ['.', '.'] && !s.contains '/'

theorem isPlainName_iff {s : List Char} :
    isPlainName s ↔ isIdle s = false ∧ s ≠ ['.', '.'] ∧ '/' ∉ s := by
  simp [isPlainName, and_assoc]

theorem slash_not_mem_segments {p s : List Char} (h : s ∈ segments p) : '/' ∉ s :=
  Text.not_mem_of_mem_split h

/-! ### Idle ends -/

theorem filter_dropIdleEnd (s : List (List Char)) :
    (dropIdleEnd s).filter (fun x => !isIdle x) = s.filter fun x => !isIdle x := by
  have drop : ∀ r : List (List Char),
      (r.dropWhile isIdle).filter (fun x => !isIdle x) = r.filter fun x => !isIdle x := by
    intro r
    induction r with
    | nil => rfl
    | cons x xs ih =>
      by_cases idle : isIdle x
      · simp [idle, ih]
      · simp [idle]
  rw [dropIdleEnd, List.filter_reverse, drop, List.filter_reverse, List.reverse_reverse]

theorem dropIdleEnd_append_singleton (xs : List (List Char)) {s : List Char}
    (h : isIdle s = false) : dropIdleEnd (xs ++ [s]) = xs ++ [s] := by
  simp [dropIdleEnd, h]

theorem dropIdleEnd_cons {s : List Char} (h : isIdle s = false) (rest : List (List Char)) :
    dropIdleEnd (s :: rest) = s :: dropIdleEnd rest := by
  rw [dropIdleEnd, List.reverse_cons, List.dropWhile_append]
  split
  · rename_i idle
    rw [List.isEmpty_iff] at idle
    simp [h, dropIdleEnd, idle]
  · simp [dropIdleEnd]

/-- Without its idle end a list of segments is empty or ends with a segment that says something. -/
theorem dropIdleEnd_cases (s : List (List Char)) :
    dropIdleEnd s = [] ∧ (s.filter fun x => !isIdle x) = [] ∨
    ∃ xs last, dropIdleEnd s = xs ++ [last] ∧ isIdle last = false := by
  have same := filter_dropIdleEnd s
  rcases List.eq_nil_or_concat (dropIdleEnd s) with none | ⟨xs, last, eq⟩
  · rw [none] at same
    exact .inl ⟨none, same.symm⟩
  · refine .inr ⟨xs, last, by simpa using eq, ?_⟩
    rw [dropIdleEnd, List.concat_eq_append, List.reverse_eq_iff, List.reverse_append] at eq
    have first := List.head?_dropWhile_not isIdle s.reverse
    rw [eq] at first
    simpa using first

theorem exists_append_dropIdleEnd (s : List (List Char)) : ∃ more, s = dropIdleEnd s ++ more := by
  refine ⟨(s.reverse.takeWhile isIdle).reverse, ?_⟩
  rw [dropIdleEnd, ← List.reverse_append, List.takeWhile_append_dropWhile, List.reverse_reverse]

theorem mem_of_mem_dropIdleEnd {s : List (List Char)} {x : List Char} (h : x ∈ dropIdleEnd s) :
    x ∈ s := by
  rw [dropIdleEnd, List.mem_reverse] at h
  exact List.mem_reverse.1 ((List.dropWhile_sublist _).subset h)

/-! ### The beginning of a path -/

theorem segments_of_absolute {p : List Char} (h : isAbsolute p) :
    ∃ rest, segments p = [] :: rest := by
  cases p with
  | nil => simp [isAbsolute] at h
  | cons c cs =>
    have slash : c = '/' := by simpa [isAbsolute] using h
    exact ⟨Text.split '/' cs, by rw [segments, Text.split, if_pos slash]⟩

theorem segments_of_relative {p : List Char} (h : isAbsolute p = false) (ne : p ≠ []) :
    ∃ c cs rest, segments p = (c :: cs) :: rest := by
  cases p with
  | nil => exact absurd rfl ne
  | cons c cs =>
    have slash : c ≠ '/' := by simpa [isAbsolute] using h
    obtain ⟨piece, pieces, eq⟩ := List.exists_cons_of_ne_nil (Text.split_ne_nil '/' cs)
    exact ⟨c, piece, pieces, Text.split_cons_of_ne slash eq⟩

/-- A path that is not empty is absolute if its first segment is empty. -/
theorem isAbsolute_eq {p s : List Char} {rest : List (List Char)} (ne : p ≠ [])
    (h : segments p = s :: rest) : isAbsolute p = s.isEmpty := by
  cases absolute : isAbsolute p with
  | true =>
    obtain ⟨others, front⟩ := segments_of_absolute absolute
    obtain ⟨rfl, _⟩ := List.cons.inj (front.symm.trans h)
    rfl
  | false =>
    obtain ⟨c, cs, others, front⟩ := segments_of_relative absolute ne
    obtain ⟨rfl, _⟩ := List.cons.inj (front.symm.trans h)
    rfl

theorem isAbsolute_join {pieces : List (List Char)} {c : Char} {cs : List Char}
    (h : '/' ∉ c :: cs) : isAbsolute (Text.join '/' ((c :: cs) :: pieces)) = false := by
  have ne : c ≠ '/' := fun same => h (same ▸ List.mem_cons_self)
  cases pieces with
  | nil => simp [Text.join, isAbsolute, ne]
  | cons next rest => simp [Text.join, isAbsolute, ne]

@[simp] theorem steps_nil : steps [] = [] := rfl

theorem steps_join {pieces : List (List Char)} (h : ∀ s ∈ pieces, '/' ∉ s) :
    steps (Text.join '/' pieces) = pieces.filter fun s => !isIdle s := by
  cases pieces with
  | nil => rfl
  | cons s rest => rw [steps, segments, Text.split_join (by simp) h]

theorem steps_slash (p : List Char) : steps ('/' :: p) = steps p := by
  have front : segments ('/' :: p) = [] :: segments p := by simp [segments, Text.split]
  rw [steps, front, List.filter_cons, if_neg (by decide), steps]

/-- The text of segments has their steps and is absolute as it is said to be. -/
theorem steps_ofSegments (absolute : Bool) {segs : List (List Char)} (slash : ∀ s ∈ segs, '/' ∉ s)
    (first : ∀ s rest, segs = s :: rest → absolute = s.isEmpty) (empty : segs = [] → absolute = false) :
    steps (ofSegments absolute segs) = segs.filter (fun s => !isIdle s) ∧
      isAbsolute (ofSegments absolute segs) = absolute := by
  cases segs with
  | nil => exact ⟨rfl, (empty rfl).symm⟩
  | cons s rest =>
    have clean : ∀ x ∈ dropIdleEnd rest, '/' ∉ x := fun x hx =>
      slash x (List.mem_cons_of_mem _ (mem_of_mem_dropIdleEnd hx))
    have head := slash s List.mem_cons_self
    have lead := first s rest rfl
    rw [ofSegments]
    split
    · -- the slash in front stands for the empty first segment
      rename_i isAbs
      obtain rfl : s = [] := by simpa [isAbs] using lead.symm
      rw [steps_slash, steps_join clean, filter_dropIdleEnd]
      exact ⟨rfl, isAbs.symm⟩
    · obtain ⟨c, cs, rfl⟩ : ∃ c cs, s = c :: cs := by
        cases s with
        | nil => simp_all
        | cons c cs => exact ⟨c, cs, rfl⟩
      rename_i relative
      rw [Bool.not_eq_true] at relative
      rw [relative]
      split
      · refine ⟨?_, isAbsolute_join head⟩
        rw [steps_join (List.forall_mem_cons.2 ⟨head, clean⟩), List.filter_cons, List.filter_cons,
          filter_dropIdleEnd]
      · rename_i notDot
        have idle : isIdle (c :: cs) = false := by simpa [isIdle] using notDot
        rw [dropIdleEnd_cons idle]
        refine ⟨?_, isAbsolute_join head⟩
        rw [steps_join (List.forall_mem_cons.2 ⟨head, clean⟩), List.filter_cons, List.filter_cons,
          filter_dropIdleEnd]

/-! ### The end of a path -/

/-- The component that a step stands for. -/
def ofStep (s : List Char) : Component := if s == ['.', '.'] then .parent else .name s

theorem ofStep_cases (s : List Char) :
    ofStep s = .parent ∧ s = ['.', '.'] ∨ ofStep s = .name s ∧ s ≠ ['.', '.'] := by
  by_cases up : s = ['.', '.']
  · exact .inl ⟨by simp [ofStep, up], up⟩
  · exact .inr ⟨by simp [ofStep, up], up⟩

theorem filterMap_component? (segs : List (List Char)) :
    segs.filterMap component? = (segs.filter fun s => !isIdle s).map ofStep := by
  induction segs with
  | nil => rfl
  | cons s rest ih =>
    rw [List.filterMap_cons, component?, List.filter_cons]
    by_cases idle : isIdle s
    · simp [idle, ih]
    · by_cases up : s == ['.', '.']
      · simp [idle, up, ofStep, ih]
      · simp [idle, up, ofStep, ih]

theorem components_of_absolute {p : List Char} (h : isAbsolute p) :
    components p = .root :: (steps p).map ofStep := by
  simp [components, h, filterMap_component?, steps]

theorem getLast?_components {p s : List Char} {front : List (List Char)}
    (h : steps p = front ++ [s]) : (components p).getLast? = some (ofStep s) := by
  have body : (segments p).filterMap component? = front.map ofStep ++ [ofStep s] := by
    rw [filterMap_component?, ← steps, h, List.map_append, List.map_singleton]
  simp only [components, body]
  split
  · rw [← List.cons_append, List.getLast?_append]; rfl
  · split
    · rw [← List.cons_append, List.getLast?_append]; rfl
    · rw [List.getLast?_append]; rfl

theorem components_of_steps_nil {p : List Char} (h : steps p = []) :
    components p = [.root] ∧ isAbsolute p ∨ components p = [.current] ∧ isAbsolute p = false ∨
      components p = [] ∧ isAbsolute p = false := by
  have body : (segments p).filterMap component? = [] := by rw [filterMap_component?, ← steps, h]; rfl
  simp only [components, body]
  split
  · exact .inl ⟨rfl, ‹_›⟩
  · rename_i relative
    rw [Bool.not_eq_true] at relative
    split
    · exact .inr (.inl ⟨rfl, relative⟩)
    · exact .inr (.inr ⟨rfl, relative⟩)

theorem fileName?_eq {p s : List Char} {front : List (List Char)} (h : steps p = front ++ [s])
    (name : s ≠ ['.', '.']) : fileName? p = some s := by
  rw [fileName?, getLast?_components h, ofStep, if_neg (by simpa using name)]

/-- A path with a file name ends with it. -/
theorem steps_of_fileName? {p s : List Char} (h : fileName? p = some s) :
    steps p = (steps p).dropLast ++ [s] ∧ s ≠ ['.', '.'] := by
  rcases List.eq_nil_or_concat (steps p) with none | ⟨front, last, eq⟩
  · rcases components_of_steps_nil none with ⟨eq, _⟩ | ⟨eq, _⟩ | ⟨eq, _⟩ <;>
      simp [fileName?, eq] at h
  · rw [List.concat_eq_append] at eq
    rcases ofStep_cases last with ⟨up, _⟩ | ⟨named, ne⟩
    · simp [fileName?, getLast?_components eq, up] at h
    · obtain rfl : last = s := by simpa [fileName?, getLast?_components eq, named] using h
      exact ⟨by simp [eq], ne⟩

theorem parent?_eq {p s : List Char} {front : List (List Char)} (h : steps p = front ++ [s]) :
    parent? p = some (ofSegments (isAbsolute p) (dropIdleEnd (segments p)).dropLast) := by
  rcases ofStep_cases s with ⟨up, _⟩ | ⟨named, _⟩
  · rw [parent?, getLast?_components h, up]
  · rw [parent?, getLast?_components h, named]

/-- The parent of a path has its steps but the last, and starts where the path does. -/
theorem steps_parent? {p q : List Char} (h : parent? p = some q) :
    steps q = (steps p).dropLast ∧ isAbsolute q = isAbsolute p := by
  rcases List.eq_nil_or_concat (steps p) with none | ⟨front, last, eq⟩
  · rcases components_of_steps_nil none with ⟨eq, _⟩ | ⟨eq, rel⟩ | ⟨eq, _⟩
    · simp [parent?, eq] at h
    · obtain rfl : [] = q := by simpa [parent?, eq] using h
      exact ⟨by rw [none]; rfl, rel.symm⟩
    · simp [parent?, eq] at h
  · rw [List.concat_eq_append] at eq
    rw [parent?_eq eq, Option.some.injEq] at h
    subst h
    have ne : p ≠ [] := by rintro rfl; simp at eq
    obtain ⟨more, whole⟩ := exists_append_dropIdleEnd (segments p)
    have kept := filter_dropIdleEnd (segments p)
    rw [← steps, eq] at kept
    obtain ⟨_, idle⟩ | ⟨xs, last', trimmed, busy⟩ := dropIdleEnd_cases (segments p)
    · rw [← steps, eq] at idle
      simp at idle
    · rw [trimmed] at whole
      rw [trimmed, List.filter_append, List.filter_cons, busy] at kept
      have slash : ∀ s ∈ xs, '/' ∉ s := by
        intro s hs
        have inside : s ∈ segments p := by simp [whole, hs]
        exact slash_not_mem_segments inside
      have first : ∀ s rest, xs = s :: rest → isAbsolute p = s.isEmpty := by
        rintro s rest rfl
        exact isAbsolute_eq ne whole
      have empty : xs = [] → isAbsolute p = false := by
        rintro rfl
        rw [isAbsolute_eq ne whole]
        simp only [isIdle, Bool.or_eq_false_iff] at busy
        exact busy.1
      obtain ⟨same, start⟩ := steps_ofSegments (isAbsolute p) slash first empty
      rw [trimmed, List.dropLast_concat, eq, List.dropLast_concat, same]
      exact ⟨(List.append_inj' kept rfl).1, start⟩

/-! ### A name below a path -/

/-- The segments that stand before a name joined to a path. -/
def lead (p : List Char) : List (List Char) :=
  if p.isEmpty then [] else if p.getLast? == some '/' then (segments p).dropLast else segments p

theorem isAbsolute_of_not_mem {s : List Char} (h : '/' ∉ s) : isAbsolute s = false := by
  cases s with
  | nil => rfl
  | cons c cs =>
    have ne : c ≠ '/' := fun same => h (same ▸ List.mem_cons_self)
    simp [isAbsolute, ne]

/-- What is relative is joined segment by segment. -/
theorem segments_join_relative {q : List Char} (relative : isAbsolute q = false) (p : List Char) :
    segments (join p q) = lead p ++ segments q := by
  rw [join, relative, lead]
  cases p with
  | nil => rfl
  | cons c cs =>
    by_cases ends : (c :: cs).getLast? = some '/'
    · obtain ⟨d, eq⟩ := List.getLast?_eq_some_iff.1 ends
      have whole : segments (d ++ ['/']) = segments d ++ [[]] := Text.split_append_sep '/' [] d
      have below : segments (d ++ '/' :: q) = segments d ++ segments q :=
        Text.split_append_sep '/' q d
      simp [eq, whole, below]
    · have below : segments (c :: (cs ++ '/' :: q)) = segments (c :: cs) ++ segments q :=
        Text.split_append_sep '/' q (c :: cs)
      simp [ends, below]

theorem segments_join {name : List Char} (slash : '/' ∉ name) (p : List Char) :
    segments (join p name) = lead p ++ [name] := by
  have alone : segments name = [name] := Text.split_of_not_mem slash
  rw [segments_join_relative (isAbsolute_of_not_mem slash), alone]

theorem filter_lead (p : List Char) : (lead p).filter (fun s => !isIdle s) = steps p := by
  cases p with
  | nil => rfl
  | cons c cs =>
    by_cases ends : (c :: cs).getLast? = some '/'
    · obtain ⟨d, eq⟩ := List.getLast?_eq_some_iff.1 ends
      have whole : segments (d ++ ['/']) = segments d ++ [[]] := Text.split_append_sep '/' [] d
      rw [eq, lead, steps, whole]
      simp [isIdle]
    · simp [lead, ends, steps]

/-- A name adds one step. -/
theorem steps_join_name {name : List Char} (h : isPlainName name) (p : List Char) :
    steps (join p name) = steps p ++ [name] := by
  obtain ⟨busy, _, slash⟩ := isPlainName_iff.1 h
  rw [steps, segments_join slash, List.filter_append, filter_lead, List.filter_cons, busy]
  rfl

theorem head?_lead {p : List Char} (ne : p ≠ []) (name : List Char) :
    (lead p ++ [name]).head? = (segments p).head? := by
  cases p with
  | nil => exact absurd rfl ne
  | cons c cs =>
    by_cases ends : (c :: cs).getLast? = some '/'
    · obtain ⟨d, eq⟩ := List.getLast?_eq_some_iff.1 ends
      have whole : segments (d ++ ['/']) = segments d ++ [[]] := Text.split_append_sep '/' [] d
      obtain ⟨first, rest, pieces⟩ := List.exists_cons_of_ne_nil (Text.split_ne_nil '/' d)
      have front : segments d = first :: rest := pieces
      rw [eq, lead, whole, List.dropLast_concat, front]
      simp
    · obtain ⟨first, rest, pieces⟩ := List.exists_cons_of_ne_nil (Text.split_ne_nil '/' (c :: cs))
      have front : segments (c :: cs) = first :: rest := pieces
      simp [lead, ends, front]

theorem isAbsolute_join_name {name : List Char} (h : isPlainName name) (p : List Char) :
    isAbsolute (join p name) = isAbsolute p := by
  obtain ⟨_, _, slash⟩ := isPlainName_iff.1 h
  have relative := isAbsolute_of_not_mem slash
  rw [join, relative]
  cases p with
  | nil => exact relative
  | cons c cs =>
    simp only [Bool.false_eq_true, if_false]
    split <;> rfl

/-- A name adds one component to a path. -/
theorem components_join_name {name : List Char} (h : isPlainName name) {p : List Char} (ne : p ≠ []) :
    components (join p name) = components p ++ [.name name] := by
  obtain ⟨_, up, slash⟩ := isPlainName_iff.1 h
  have last : ofStep name = .name name := by simp [ofStep, up]
  have body : (segments (join p name)).filterMap component? =
      (segments p).filterMap component? ++ [.name name] := by
    rw [filterMap_component?, filterMap_component?, ← steps, ← steps, steps_join_name h,
      List.map_append, List.map_singleton, last]
  have first : (segments (join p name)).head? = (segments p).head? := by
    rw [segments_join slash, head?_lead ne]
  simp only [components, body, first, isAbsolute_join_name h]
  split
  · rfl
  · split <;> rfl

theorem fileName?_join {name : List Char} (h : isPlainName name) (p : List Char) :
    fileName? (join p name) = some name :=
  fileName?_eq (steps_join_name h p) (isPlainName_iff.1 h).2.1

theorem join_ne_nil {name : List Char} (h : isPlainName name) (p : List Char) :
    join p name ≠ [] := by
  intro empty
  have last := steps_join_name h p
  rw [empty] at last
  simp at last

/-- The path that names lead to below another. -/
def descend (p : List Char) (names : List (List Char)) : List Char := names.foldl join p

theorem descend_concat (p : List Char) (names : List (List Char)) (name : List Char) :
    descend p (names ++ [name]) = join (descend p names) name := by
  rw [descend, List.foldl_append]
  rfl

theorem descend_ne_nil {p : List Char} (ne : p ≠ []) {names : List (List Char)}
    (plain : ∀ name ∈ names, isPlainName name) : descend p names ≠ [] := by
  induction names generalizing p with
  | nil => exact ne
  | cons name names ih =>
    obtain ⟨first, rest⟩ := List.forall_mem_cons.1 plain
    exact ih (join_ne_nil first p) rest

theorem steps_descend {names : List (List Char)} (plain : ∀ name ∈ names, isPlainName name)
    (p : List Char) : steps (descend p names) = steps p ++ names := by
  induction names generalizing p with
  | nil => simp [descend]
  | cons name names ih =>
    obtain ⟨first, rest⟩ := List.forall_mem_cons.1 plain
    have deeper := ih rest (join p name)
    rw [steps_join_name first, List.append_assoc] at deeper
    exact deeper

theorem isAbsolute_descend {names : List (List Char)} (plain : ∀ name ∈ names, isPlainName name)
    (p : List Char) : isAbsolute (descend p names) = isAbsolute p := by
  induction names generalizing p with
  | nil => rfl
  | cons name names ih =>
    obtain ⟨first, rest⟩ := List.forall_mem_cons.1 plain
    exact (ih rest (join p name)).trans (isAbsolute_join_name first p)

theorem components_descend {p : List Char} (ne : p ≠ []) {names : List (List Char)}
    (plain : ∀ name ∈ names, isPlainName name) :
    components (descend p names) = components p ++ names.map .name := by
  induction names generalizing p with
  | nil => simp [descend]
  | cons name names ih =>
    obtain ⟨first, rest⟩ := List.forall_mem_cons.1 plain
    have deeper := ih (join_ne_nil first p) rest
    rw [components_join_name first ne, List.append_assoc] at deeper
    exact deeper

theorem join_text {name : List Char} (slash : '/' ∉ name) (p : List Char) :
    Text.join '/' (lead p ++ [name]) = join p name := by
  rw [← segments_join slash]
  exact Text.join_split '/' (join p name)

/-! ### Extensions -/

theorem splitName_dot {stem ext : List Char} (ne : stem ≠ []) (dot : '.' ∉ ext) :
    splitName (stem ++ '.' :: ext) = (stem, some ext) := by
  have after : ((stem ++ '.' :: ext).reverse.takeWhile (· != '.')).reverse = ext := by
    have ends : (stem ++ '.' :: ext).reverse = ext.reverse ++ '.' :: stem.reverse := by simp
    have all : ∀ c ∈ ext.reverse, (c != '.') = true := by
      intro c hc
      simp only [bne_iff_ne, ne_eq]
      rintro rfl
      exact dot (List.mem_reverse.1 hc)
    rw [ends, List.takeWhile_append_of_pos all]
    simp
  have before : (stem ++ '.' :: ext).take ((stem ++ '.' :: ext).length - ext.length - 1) = stem := by
    have count : (stem ++ '.' :: ext).length - ext.length - 1 = stem.length := by
      rw [List.length_append, List.length_cons]
      omega
    rw [count, List.take_left]
  simp only [splitName, after, before]
  simp [ne]

/-- A name with an extension is the two parts that it is cut into, with a dot between them. -/
theorem eq_append_of_splitName {t stem ext : List Char} (h : splitName t = (stem, some ext)) :
    t = stem ++ '.' :: ext := by
  have tail : ∃ front, t.reverse = t.reverse.takeWhile (· != '.') ++ front ∧
      ∀ c cs, front = c :: cs → c = '.' := by
    refine ⟨t.reverse.dropWhile (· != '.'), (List.takeWhile_append_dropWhile).symm, ?_⟩
    intro c cs eq
    have first := List.head?_dropWhile_not (· != '.') t.reverse
    rw [eq] at first
    simpa using first
  simp only [splitName] at h
  split at h
  · rename_i dotted
    obtain ⟨rfl, after⟩ := Prod.mk.inj h
    obtain rfl := Option.some.inj after
    obtain ⟨front, whole, dot⟩ := tail
    generalize t.reverse.takeWhile (· != '.') = back at *
    cases front with
    | nil =>
      have length := congrArg List.length whole
      simp only [List.append_nil, List.length_reverse] at length
      simp [length] at dotted
    | cons c cs =>
      obtain rfl := dot c cs rfl
      have split : t = cs.reverse ++ '.' :: back.reverse := by
        rw [← List.reverse_inj, whole]
        simp
      have count : t.length - back.reverse.length - 1 = cs.reverse.length := by
        rw [split]
        simp
        omega
      rw [count]
      conv => lhs; rw [split]
      rw [split, List.take_left]
  · simp at h

/-- A name is cut only behind its first character. -/
theorem stem_ne_nil_of_splitName {t stem ext : List Char} (h : splitName t = (stem, some ext)) :
    stem ≠ [] := by
  simp only [splitName] at h
  split at h
  · rename_i dotted
    obtain ⟨rfl, _⟩ := Prod.mk.inj h
    simp only [Bool.and_eq_true] at dotted
    simpa using dotted.2
  · simp at h

theorem extension?_join {stem ext : List Char} (ne : stem ≠ []) (dot : '.' ∉ ext)
    (h : isPlainName (stem ++ '.' :: ext)) (p : List Char) :
    extension? (join p (stem ++ '.' :: ext)) = some ext := by
  rw [extension?, fileName?_join h, Option.bind_some, splitName_dot ne dot]

/-- Text behind a name is text of the name. -/
theorem join_append {name more : List Char} (slash : '/' ∉ name) (slash' : '/' ∉ name ++ more)
    (p : List Char) : join p name ++ more = join p (name ++ more) := by
  rw [join, isAbsolute_of_not_mem slash, join, isAbsolute_of_not_mem slash']
  simp only [Bool.false_eq_true, if_false]
  split <;> simp

/-- What is cut from the end of a path is cut from its name. -/
theorem take_join {name more : List Char} (slash : '/' ∉ name) (slash' : '/' ∉ name ++ more)
    (p : List Char) : (join p (name ++ more)).take ((join p (name ++ more)).length - more.length) =
      join p name := by
  rw [← join_append slash slash', List.length_append, Nat.add_sub_cancel, List.take_left]

/-- The extension of a name below a path is replaced in the name. -/
theorem withExtension_join {stem old new : List Char} (ne : stem ≠ []) (dot : '.' ∉ old)
    (h : isPlainName (stem ++ '.' :: old)) (bare : isPlainName (stem ++ ['.'])) (slash : '/' ∉ new)
    (p : List Char) :
    withExtension (join p (stem ++ '.' :: old)) new = join p (stem ++ '.' :: new) := by
  obtain ⟨busy, _, slash'⟩ := isPlainName_iff.1 bare
  have cut : (join p (stem ++ '.' :: old)).take ((join p (stem ++ '.' :: old)).length - old.length) =
      join p (stem ++ ['.']) := by
    have whole : stem ++ '.' :: old = (stem ++ ['.']) ++ old := by simp
    obtain ⟨_, _, noSlash⟩ := isPlainName_iff.1 h
    rw [whole] at noSlash ⊢
    exact take_join slash' noSlash p
  have clean : '/' ∉ stem ++ '.' :: new := by
    have parts : '/' ∉ stem := fun mem => slash' (List.mem_append_left _ mem)
    simp [parts, slash]
  rw [withExtension, extension?_join ne dot h]
  simp only [cut]
  simp only [addExtension, fileName?_join bare, segments_join slash', splitName_dot ne List.not_mem_nil]
  rw [dropIdleEnd_append_singleton _ busy, List.dropLast_concat, join_text clean]

/-- A name without an extension below a path gets one. -/
theorem withExtension_join_bare {name ext : List Char} (h : isPlainName name)
    (bare : splitName name = (name, none)) (slash : '/' ∉ ext) (p : List Char) :
    withExtension (join p name) ext = join p (name ++ '.' :: ext) := by
  obtain ⟨busy, _, slash'⟩ := isPlainName_iff.1 h
  have clean : '/' ∉ name ++ '.' :: ext := by simp [slash', slash]
  have none : extension? (join p name) = none := by
    rw [extension?, fileName?_join h, Option.bind_some, bare]
  rw [withExtension, none]
  simp only [addExtension, fileName?_join h, segments_join slash', bare]
  rw [dropIdleEnd_append_singleton _ busy, List.dropLast_concat, join_text clean]

end Path

end SourceAtlas
