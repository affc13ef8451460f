import SourceAtlas.Proofs.Path.Steps
import SourceAtlas.Tree.Basic
/-!
Where path texts lead. A walk that also counts the links it has left goes along joined segments one
after the other, and takes no notice of idle segments on its way to a directory. So a name below a
path stands in the directory that the path leads to, its *seat*, however the path is written.
-/

namespace SourceAtlas.FileTree

open SourceAtlas.Path (isIdle segments steps isPlainName)

variable {t : FileTree}

/-! ### Walks -/

/-- The walk along segments, with the number of links that it has left at its end. -/
def trail (t : FileTree) : (links : Nat) → Place → List (List Char) → Option (Nat × Place)
  | links, here, [] => some (links, here)
  | links, here, s :: rest =>
    if !t.hasDirectory here then none
    else if isIdle s then t.trail links here rest
    else if s == ['.', '.'] then t.trail links here.dropLast rest
    else match t.node? (here ++ [s]) with
      | none => none
      | some (.link target) =>
        match links with
        | 0 => none
        | links + 1 => t.trail links (startOf here target) (segments target ++ rest)
      | some _ => t.trail links (here ++ [s]) rest
  termination_by links _ segs => (links, segs.length)

theorem resolveFrom_nil (create : Bool) (links : Nat) (here : Place) :
    t.resolveFrom create links here [] = some here := by
  cases links <;> rfl

theorem resolveFrom_cons (create : Bool) (links : Nat) (here : Place) (s : List Char)
    (rest : List (List Char)) :
    t.resolveFrom create links here (s :: rest) =
      if !t.hasDirectory here then none
      else if isIdle s then t.resolveFrom create links here rest
      else if s == ['.', '.'] then t.resolveFrom create links here.dropLast rest
      else match t.node? (here ++ [s]) with
        | none => if create && rest.isEmpty then some (here ++ [s]) else none
        | some (.link target) =>
          match links with
          | 0 => none
          | links + 1 =>
            t.resolveFrom create links (startOf here target) (segments target ++ rest)
        | some _ => t.resolveFrom create links (here ++ [s]) rest := by
  cases links <;> rfl

theorem resolveFrom_eq_trail (links : Nat) (here : Place) (segs : List (List Char)) :
    t.resolveFrom false links here segs = (t.trail links here segs).map (·.2) := by
  fun_induction trail t links here segs with
  | case1 => exact resolveFrom_nil ..
  | case2 | case3 | case4 | case5 | case6 | case7 | case8 => simp_all [resolveFrom_cons]

/-- A walk along joined segments is one walk after the other. -/
theorem trail_append (links : Nat) (here : Place) (xs ys : List (List Char)) :
    t.trail links here (xs ++ ys) =
      (t.trail links here xs).bind fun e => t.trail e.1 e.2 ys := by
  fun_induction trail t links here xs with
  | case1 => simp
  | case2 | case3 | case4 | case5 | case6 | case7 | case8 => simp_all [trail]

/-- What may be created at the end of a walk does not change its way there. -/
theorem resolveFrom_append {links left : Nat} {here p : Place} {xs : List (List Char)}
    (h : t.trail links here xs = some (left, p)) (create : Bool) (y : List Char)
    (ys : List (List Char)) :
    t.resolveFrom create links here (xs ++ y :: ys) = t.resolveFrom create left p (y :: ys) := by
  fun_induction trail t links here xs with
  | case1 => simp_all
  | case2 | case3 | case4 | case5 | case6 | case7 | case8 => simp_all [resolveFrom_cons]

theorem trail_cons (links : Nat) (here : Place) (s : List Char) (rest : List (List Char)) :
    t.trail links here (s :: rest) =
      (t.trail links here [s]).bind fun e => t.trail e.1 e.2 rest :=
  trail_append links here [s] rest

/-- A walk that leads to a directory needs no idle segments. -/
theorem trail_filter : ∀ (segs : List (List Char)) (links : Nat) (here : Place),
    (t.trail links here segs).filter (fun e => t.hasDirectory e.2) =
      (t.trail links here (segs.filter fun s => !isIdle s)).filter fun e => t.hasDirectory e.2
  | [], _, _ => rfl
  | s :: rest, links, here => by
    by_cases idle : isIdle s
    · -- an idle segment asks that the walk stands in a directory, and does nothing else
      have step : t.trail links here (s :: rest) =
          if t.hasDirectory here then t.trail links here rest else none := by
        rw [trail]
        simp [idle]
        split <;> simp_all
      have skip : (s :: rest).filter (fun s => !isIdle s) = rest.filter fun s => !isIdle s := by
        simp [idle]
      rw [step, skip, ← trail_filter rest]
      split
      · rfl
      · -- outside of directories nothing that follows leads to one
        rename_i outside
        rw [trail_filter rest]
        cases rest.filter fun s => !isIdle s with
        | nil => simp [trail, outside, Option.filter_some]
        | cons next others => simp [trail, outside]
    · have keep : (s :: rest).filter (fun s => !isIdle s) = s :: rest.filter fun s => !isIdle s := by
        simp [idle]
      rw [keep, trail_cons, trail_cons links here s (rest.filter fun s => !isIdle s)]
      cases t.trail links here [s] with
      | none => rfl
      | some e => exact trail_filter rest e.1 e.2

/-- A walk along one name. -/
theorem trail_name {links : Nat} {here : Place} {name : List Char} (plain : isPlainName name) :
    t.trail links here [name] =
      if t.hasDirectory here then
        match t.node? (here ++ [name]) with
        | none => none
        | some (.link target) =>
          match links with
          | 0 => none
          | links + 1 => t.trail links (startOf here target) (segments target ++ [])
        | some _ => some (links, here ++ [name])
      else none := by
  obtain ⟨busy, up, _⟩ := Path.isPlainName_iff.1 plain
  have step : (name == ['.', '.']) = false := by simpa using up
  rw [trail]
  simp only [busy, step]
  split <;> simp_all [trail]

/-! ### Seats -/

/-- The directory that segments lead to from a place. -/
def seatFrom? (t : FileTree) (here : Place) (segs : List (List Char)) : Option Place :=
  ((t.trail maxLinks here segs).filter fun e => t.hasDirectory e.2).map (·.2)

/-- The directory in which names below a path stand. The empty path says nothing, so names below it
stand in the working directory. -/
def seat? (t : FileTree) (path : List Char) : Option Place :=
  t.seatFrom? (startOf t.working path) (steps path)

theorem seatFrom?_filter (here : Place) (segs : List (List Char)) :
    t.seatFrom? here (segs.filter fun s => !isIdle s) = t.seatFrom? here segs := by
  rw [seatFrom?, ← trail_filter, seatFrom?]

theorem hasDirectory_of_seatFrom? {here p : Place} {segs : List (List Char)}
    (h : t.seatFrom? here segs = some p) : t.hasDirectory p := by
  simp only [seatFrom?, Option.map_eq_some_iff, Option.filter_eq_some_iff] at h
  obtain ⟨e, ⟨_, directory⟩, rfl⟩ := h
  exact directory

theorem hasDirectory_of_seat? {p : Place} {path : List Char} (h : t.seat? path = some p) :
    t.hasDirectory p :=
  hasDirectory_of_seatFrom? h

theorem place?_eq_trail {path : List Char} (ne : path ≠ []) :
    t.place? path =
      (t.trail maxLinks (startOf t.working path) (segments path)).map (·.2) := by
  have full : path.isEmpty = false := by simpa using ne
  rw [place?, full, if_neg (by decide), resolveFrom_eq_trail]

theorem seatFrom?_append_singleton {here : Place} {xs : List (List Char)} {s : List Char} :
    t.seatFrom? here (xs ++ [s]) ≠ none → t.seatFrom? here xs ≠ none := by
  rw [seatFrom?, seatFrom?, trail_append]
  cases t.trail maxLinks here xs with
  | none => simp
  | some e => by_cases directory : t.hasDirectory e.2 <;> simp [directory, trail, Option.filter_some]

theorem seatFrom?_append_name {here p : Place} {xs : List (List Char)} {name : List Char}
    (plain : isPlainName name) (h : t.seatFrom? here xs = some p)
    (node : t.node? (p ++ [name]) = some .directory) :
    t.seatFrom? here (xs ++ [name]) = some (p ++ [name]) := by
  have inside := hasDirectory_of_seatFrom? h
  simp only [seatFrom?, Option.map_eq_some_iff, Option.filter_eq_some_iff] at h
  obtain ⟨e, ⟨reached, _⟩, rfl⟩ := h
  have directory : t.hasDirectory (e.2 ++ [name]) := by rw [hasDirectory, node]
  rw [seatFrom?, trail_append, reached, Option.bind_some, trail_name plain, if_pos inside, node]
  simp [Option.filter_some, directory]

/-- A path leads to a directory exactly if that is its seat. -/
theorem filter_place? {path : List Char} (ne : path ≠ []) :
    (t.place? path).filter t.hasDirectory = t.seat? path := by
  rw [place?_eq_trail ne, seat?, steps, seatFrom?_filter, seatFrom?]
  cases t.trail maxLinks (startOf t.working path) (segments path) with
  | none => rfl
  | some e => by_cases directory : t.hasDirectory e.2 <;> simp [directory, Option.filter_some]

theorem isDirectory_eq {path : List Char} (ne : path ≠ []) :
    t.isDirectory path = (t.seat? path).isSome := by
  rw [← filter_place? ne, isDirectory]
  cases t.place? path with
  | none => rfl
  | some p => by_cases directory : t.hasDirectory p <;> simp [directory]

theorem place?_of_seat? {path : List Char} {p : Place} (ne : path ≠ [])
    (h : t.seat? path = some p) : t.place? path = some p := by
  rw [← filter_place? ne, Option.filter_eq_some_iff] at h
  exact h.1

theorem seat?_of_place? {path : List Char} {p : Place} (h : t.place? path = some p)
    (directory : t.hasDirectory p) : t.seat? path = some p := by
  have ne : path ≠ [] := by rintro rfl; simp [place?] at h
  rw [← filter_place? ne, h, Option.filter_some, if_pos directory]

/-! ### Names below a path -/

/-- The place of a path's last name lies in the seat of what stands before it. -/
theorem entry?_eq {path name : List Char} (h : Path.fileName? path = some name) :
    t.entry? path =
      (t.seatFrom? (startOf t.working path) (steps path).dropLast).map (· ++ [name]) := by
  obtain ⟨ends, _⟩ := Path.steps_of_fileName? h
  obtain ⟨up, parent⟩ : ∃ up, Path.parent? path = some up := ⟨_, Path.parent?_eq ends⟩
  obtain ⟨before, start⟩ := Path.steps_parent? parent
  have seat : t.seat? up = t.seatFrom? (startOf t.working path) (steps path).dropLast := by
    rw [seat?, before, startOf, start, startOf]
  rw [FileTree.entry?, h, parent, ← seat]
  cases up with
  | nil =>
    have working : t.seat? [] = if t.hasDirectory t.working then some t.working else none := by
      simp [seat?, seatFrom?, trail, startOf, Path.isAbsolute, Option.filter_some]
    rw [working]
    by_cases directory : t.hasDirectory t.working <;> simp [directory]
  | cons c cs =>
    rw [← filter_place? (by simp)]
    cases place : t.place? (c :: cs) with
    | none => simp [place]
    | some p =>
      by_cases directory : t.hasDirectory p <;> simp [directory, place, Option.filter_some]

theorem seat?_eq_lead (dir : List Char) :
    t.seat? dir =
      ((t.trail maxLinks (startOf t.working dir) (Path.lead dir)).filter
        fun e => t.hasDirectory e.2).map (·.2) := by
  rw [seat?, ← Path.filter_lead, seatFrom?_filter, seatFrom?]

variable {name : List Char} (plain : isPlainName name)

include plain

theorem entry?_join (dir : List Char) :
    t.entry? (Path.join dir name) = (t.seat? dir).map (· ++ [name]) := by
  rw [entry?_eq (Path.fileName?_join plain dir), Path.steps_join_name plain, List.dropLast_concat,
    startOf, Path.isAbsolute_join_name plain, seat?, startOf]

theorem trail_join (dir : List Char) :
    t.trail maxLinks (startOf t.working (Path.join dir name)) (segments (Path.join dir name)) =
      (t.trail maxLinks (startOf t.working dir) (Path.lead dir)).bind fun e =>
        t.trail e.1 e.2 [name] := by
  rw [Path.segments_join (Path.isPlainName_iff.1 plain).2.2, trail_append, startOf,
    Path.isAbsolute_join_name plain, startOf]

/-- A name that is no link leads to its own place in the seat. -/
theorem place?_join {dir : List Char}
    (solid : ∀ p target, t.seat? dir = some p → t.node? (p ++ [name]) ≠ some (.link target)) :
    t.place? (Path.join dir name) =
      (t.seat? dir).bind fun p => (t.node? (p ++ [name])).map fun _ => p ++ [name] := by
  rw [place?_eq_trail (Path.join_ne_nil plain dir), trail_join plain]
  rw [seat?_eq_lead] at solid ⊢
  cases reached : t.trail maxLinks (startOf t.working dir) (Path.lead dir) with
  | none => rfl
  | some e =>
    simp only [reached, Option.bind_some, Option.filter_some, trail_name plain] at solid ⊢
    by_cases directory : t.hasDirectory e.2
    · simp only [directory, if_true, Option.map_some, Option.bind_some] at solid ⊢
      cases node : t.node? (e.2 ++ [name]) with
      | none => rfl
      | some n =>
        cases n with
        | file content modified => rfl
        | directory => rfl
        | link target => exact absurd node (solid e.2 target rfl)
    · simp [directory]

theorem find?_join {dir : List Char}
    (solid : ∀ p target, t.seat? dir = some p → t.node? (p ++ [name]) ≠ some (.link target)) :
    t.find? (Path.join dir name) = (t.seat? dir).bind fun p => t.node? (p ++ [name]) := by
  rw [find?, place?_join plain solid]
  cases t.seat? dir with
  | none => rfl
  | some p =>
    cases node : t.node? (p ++ [name]) with
    | none => simp [node]
    | some n => simp [node]

theorem target?_join {dir : List Char} {p : Place} (seat : t.seat? dir = some p)
    (solid : ∀ target, t.node? (p ++ [name]) ≠ some (.link target)) :
    t.target? (Path.join dir name) = some (p ++ [name]) := by
  have full : (Path.join dir name).isEmpty = false := by simpa using Path.join_ne_nil plain dir
  have directory := hasDirectory_of_seat? seat
  rw [seat?_eq_lead] at seat
  obtain ⟨⟨left, q⟩, reached, rfl⟩ := Option.map_eq_some_iff.1 seat
  obtain ⟨reached, _⟩ := Option.filter_eq_some_iff.1 reached
  obtain ⟨busy, up, slash⟩ := Path.isPlainName_iff.1 plain
  have step : (name == ['.', '.']) = false := by simpa using up
  rw [target?, full, if_neg (by decide), Path.segments_join slash, startOf,
    Path.isAbsolute_join_name plain, ← startOf, resolveFrom_append reached, resolveFrom_cons]
  simp only [directory, busy, step]
  cases node : t.node? (q ++ [name]) with
  | none => rfl
  | some n =>
    cases n with
    | file content modified => exact resolveFrom_nil ..
    | directory => exact resolveFrom_nil ..
    | link target => exact absurd node (solid target)

omit plain

/-! ### Trees that keep the ways of another -/

/-- Every directory and every link of the first tree stands in the second. -/
structure Keeps (t u : FileTree) : Prop where
  working : u.working = t.working
  directory : ∀ p, t.hasDirectory p → u.hasDirectory p
  link : ∀ p target, t.node? p = some (.link target) → u.node? p = some (.link target)

theorem Keeps.refl : t.Keeps t := ⟨rfl, fun _ h => h, fun _ _ h => h⟩

theorem Keeps.trans {u v : FileTree} (first : t.Keeps u) (second : u.Keeps v) : t.Keeps v :=
  ⟨second.working.trans first.working, fun p h => second.directory p (first.directory p h),
    fun p target h => second.link p target (first.link p target h)⟩

theorem hasDirectory_iff {p : Place} : t.hasDirectory p ↔ t.node? p = some .directory := by
  rw [hasDirectory]
  split <;> simp_all

/-- A way is still there in a tree that keeps the ways of the first and has what stands at its end. -/
theorem Keeps.trail {u : FileTree} (keeps : t.Keeps u) {links : Nat} {here : Place}
    {segs : List (List Char)} {e : Nat × Place} (h : t.trail links here segs = some e)
    (last : ∀ n, t.node? e.2 = some n → u.node? e.2 = some n) :
    u.trail links here segs = some e := by
  fun_induction FileTree.trail t links here segs with
  | case1 => simpa [FileTree.trail] using h
  | case2 => simp at h
  | case3 links here s rest inside idle ih =>
    have inside := keeps.directory here (by simpa using inside)
    simpa [FileTree.trail, inside, idle] using ih h
  | case4 links here s rest inside idle up ih =>
    have inside := keeps.directory here (by simpa using inside)
    simpa [FileTree.trail, inside, idle, up] using ih h
  | case5 => simp at h
  | case6 => simp at h
  | case7 here s rest inside idle up target node links ih =>
    have inside := keeps.directory here (by simpa using inside)
    simpa [FileTree.trail, inside, idle, up, keeps.link _ _ node] using ih h
  | case8 links here s rest inside idle up n solid node ih =>
    have inside := keeps.directory here (by simpa using inside)
    cases rest with
    | nil =>
      obtain rfl : (links, here ++ [s]) = e := by simpa [FileTree.trail] using h
      have stands := last n node
      cases n with
      | file content modified => simp [FileTree.trail, inside, idle, up, stands]
      | directory => simp [FileTree.trail, inside, idle, up, stands]
      | link target => exact absurd rfl (solid target)
    | cons r rest =>
      -- the walk goes on, so it stands in a directory
      have next : t.hasDirectory (here ++ [s]) := by
        cases next : t.hasDirectory (here ++ [s]) with
        | false => simp [FileTree.trail, next] at h
        | true => rfl
      have stands := hasDirectory_iff.1 (keeps.directory _ next)
      have way := ih h
      rw [FileTree.trail]
      simpa [inside, idle, up, stands] using way

/-- A path leads to the same place in such a tree. -/
theorem Keeps.place? {u : FileTree} (keeps : t.Keeps u) {path : List Char} {p : Place}
    (h : t.place? path = some p) (last : ∀ n, t.node? p = some n → u.node? p = some n) :
    u.place? path = some p := by
  have ne : path ≠ [] := by rintro rfl; simp [FileTree.place?] at h
  rw [place?_eq_trail ne] at h ⊢
  obtain ⟨e, reached, rfl⟩ := Option.map_eq_some_iff.1 h
  rw [keeps.working, keeps.trail reached last, Option.map_some]

theorem Keeps.seatFrom? {u : FileTree} (keeps : t.Keeps u) {here p : Place}
    {segs : List (List Char)} (h : t.seatFrom? here segs = some p) :
    u.seatFrom? here segs = some p := by
  simp only [FileTree.seatFrom?, Option.map_eq_some_iff, Option.filter_eq_some_iff] at h ⊢
  obtain ⟨e, ⟨reached, directory⟩, rfl⟩ := h
  have stays := keeps.directory _ directory
  have last : ∀ n, t.node? e.2 = some n → u.node? e.2 = some n := by
    intro n node
    rw [hasDirectory_iff.1 stays, ← hasDirectory_iff.1 directory, node]
  exact ⟨e, ⟨keeps.trail reached last, stays⟩, rfl⟩

/-- Such a tree has the seats of the first. -/
theorem Keeps.seat? {u : FileTree} (keeps : t.Keeps u) {path : List Char} {p : Place}
    (h : t.seat? path = some p) : u.seat? path = some p := by
  rw [FileTree.seat?, keeps.working]
  exact keeps.seatFrom? h

end SourceAtlas.FileTree
