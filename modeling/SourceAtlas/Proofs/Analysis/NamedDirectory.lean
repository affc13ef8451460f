import Mathlib.Data.List.Infix
import Mathlib.Data.List.Induction
import SourceAtlas.Proofs.Discovery.Containment
import SourceAtlas.Proofs.Path.Normal
/-!
Which directory an analysis is of. That a project path leads to a directory is tested in the file
tree, where a `..` leads up from the place that was reached; the root is the normal form of the path,
where it takes back the name that was written. The two agree as long as every name that is taken back
leads to a place in the directory that it stands in, as all names but links do.
-/

namespace SourceAtlas

namespace FileTree

open SourceAtlas.Path (steps isPlainName ofSteps keepAll IsKept)

variable {t : FileTree}

/-! ### A normal form and its path -/

/-- The last name of the path leads to a place in the directory that it stands in. A file and a
directory do; a link may lead elsewhere. -/
def LeadsBeside (t : FileTree) (path : List Char) : Prop :=
  ∀ e ∈ t.entry? path, ∀ p ∈ t.place? path, p.dropLast = e.dropLast

/-- Each `..` of the steps takes back a name that leads to a place in the directory that it stands
in. -/
def BacksBeside (t : FileTree) (s : List (List Char)) : Prop :=
  ∀ front ∈ s.inits, front ++ [['.', '.']] <+: s →
    t.LeadsBeside (Path.normalize (ofSteps true front))

instance (path : List Char) : Decidable (t.LeadsBeside path) :=
  inferInstanceAs (Decidable (∀ e ∈ t.entry? path, ∀ p ∈ t.place? path, p.dropLast = e.dropLast))

instance (s : List (List Char)) : Decidable (t.BacksBeside s) :=
  inferInstanceAs (Decidable (∀ front ∈ s.inits, front ++ [['.', '.']] <+: s →
    t.LeadsBeside (Path.normalize (ofSteps true front))))

/-- The normal form of a path from steps, by the steps that are kept. -/
theorem normalize_steps {s : List (List Char)} (steps : ∀ x ∈ s, Path.IsStep x) :
    Path.normalize (ofSteps true s) = ofSteps true (keepAll true [] s).reverse := by
  rw [Path.normalize_eq, Path.keptSteps, Path.isAbsolute_ofSteps true steps,
    Path.steps_ofSteps true steps]

theorem BacksBeside.leadsBeside {s front : List (List Char)} (h : t.BacksBeside s)
    (back : front ++ [['.', '.']] <+: s) : t.LeadsBeside (Path.normalize (ofSteps true front)) :=
  h front ((List.mem_inits _ _).2 ((List.prefix_append _ _).trans back)) back

theorem BacksBeside.of_prefix {s front : List (List Char)} (h : t.BacksBeside s) (part : front <+: s) :
    t.BacksBeside front := fun _ _ back => h.leadsBeside (back.trans part)

/-- A walk that may leave more links leads where it led. -/
theorem trail_more (more : Nat) {links left : Nat} {here p : Place} {segs : List (List Char)}
    (h : t.trail links here segs = some (left, p)) :
    t.trail (links + more) here segs = some (left + more, p) := by
  fun_induction trail t links here segs with
  | case1 => simp_all [trail]
  | case2 => cases h
  | case3 links here s rest inside idle ih => simpa [trail, inside, idle] using ih h
  | case4 links here s rest inside idle up ih => simpa [trail, inside, idle, up] using ih h
  | case5 => cases h
  | case6 => cases h
  | case7 here s rest inside idle up target node links ih =>
    have shifted : links + 1 + more = links + more + 1 := by omega
    simpa [trail, inside, idle, up, node, shifted] using ih h
  | case8 links here s rest inside idle up n solid node ih =>
    simpa [trail, inside, idle, up, node] using ih h

/-- A walk leaves no more links than it may. -/
theorem le_of_trail {links left : Nat} {here p : Place} {segs : List (List Char)}
    (h : t.trail links here segs = some (left, p)) : left ≤ links := by
  fun_induction trail t links here segs with
  | case1 => exact (Prod.mk.inj (Option.some.inj h)).1 ▸ Nat.le_refl _
  | case2 => cases h
  | case3 _ _ _ _ _ _ ih => exact ih h
  | case4 _ _ _ _ _ _ _ ih => exact ih h
  | case5 => cases h
  | case6 => cases h
  | case7 _ _ _ _ _ _ _ _ _ ih => exact (ih h).trans (Nat.le_succ _)
  | case8 _ _ _ _ _ _ _ _ _ _ ih => exact ih h

theorem seatFrom?_of_trail {here p : Place} {segs : List (List Char)} {left : Nat}
    (h : t.trail maxLinks here segs = some (left, p)) (inside : t.hasDirectory p) :
    t.seatFrom? here segs = some p := by
  rw [seatFrom?, h, Option.filter_some, if_pos inside, Option.map_some]

theorem trail_up {links : Nat} {here : Place} :
    t.trail links here [['.', '.']] = if t.hasDirectory here then some (links, here.dropLast) else none := by
  cases inside : t.hasDirectory here <;> simp [trail, Path.isIdle, inside]

/-- A walk that ends with a name has stood in a directory before. -/
theorem exists_trail_concat {links left : Nat} {here p : Place} {front : List (List Char)}
    {name : List Char} (h : t.trail links here (front ++ [name]) = some (left, p)) :
    ∃ between q, t.trail links here front = some (between, q) ∧ t.hasDirectory q ∧
      t.trail between q [name] = some (left, p) := by
  rw [trail_append] at h
  obtain ⟨⟨between, q⟩, reached, last⟩ := Option.bind_eq_some_iff.1 h
  refine ⟨between, q, reached, ?_, last⟩
  cases inside : t.hasDirectory q with
  | true => rfl
  | false =>
    rw [trail, inside] at last
    cases last

/-- The last name of a path from steps stands where the steps before it lead. -/
theorem entry?_ofSteps {front : List (List Char)} {name : List Char}
    (steps : ∀ x ∈ front ++ [name], Path.IsStep x) (plain : isPlainName name) :
    t.entry? (ofSteps true (front ++ [name])) = (t.seatFrom? [] front).map (· ++ [name]) := by
  have walked := Path.steps_ofSteps true steps
  have last : Path.fileName? (ofSteps true (front ++ [name])) = some name :=
    Path.fileName?_eq walked (Path.isPlainName_iff.1 plain).2.1
  rw [entry?_eq last, walked, List.dropLast_concat]
  rfl

theorem seat?_ofSteps {s : List (List Char)} (steps : ∀ x ∈ s, Path.IsStep x) :
    t.seat? (ofSteps true s) = t.seatFrom? [] s := by
  rw [seat?, Path.steps_ofSteps true steps]
  rfl

/-- A last name that leads beside itself: the place where it leads lies in the directory in which the
walk stood before it. -/
theorem LeadsBeside.dropLast_eq {front : List (List Char)} {name : List Char}
    (steps : ∀ x ∈ front ++ [name], Path.IsStep x) (plain : isPlainName name)
    (beside : t.LeadsBeside (ofSteps true (front ++ [name]))) {left between : Nat} {p q : Place}
    (reached : t.trail maxLinks [] front = some (between, q)) (inside : t.hasDirectory q)
    (whole : t.trail maxLinks [] (front ++ [name]) = some (left, p)) (directory : t.hasDirectory p) :
    p.dropLast = q := by
  have entry : t.entry? (ofSteps true (front ++ [name])) = some (q ++ [name]) := by
    rw [entry?_ofSteps steps plain, seatFrom?_of_trail reached inside, Option.map_some]
  have place : t.place? (ofSteps true (front ++ [name])) = some p := by
    refine place?_of_seat? (by simp [ofSteps]) ?_
    rw [seat?_ofSteps steps, seatFrom?_of_trail whole directory]
  rw [beside _ entry _ place, List.dropLast_concat]

/-- The walk along what is kept of the steps leads where the steps lead, and leaves no more links. -/
theorem exists_trail_keepAll {s : List (List Char)} (steps : ∀ x ∈ s, Path.IsStep x)
    (beside : t.BacksBeside s) {left : Nat} {here : Place}
    (reached : t.trail maxLinks [] s = some (left, here)) :
    ∃ more, t.trail maxLinks [] (keepAll true [] s).reverse = some (left + more, here) := by
  induction s using List.reverseRecOn generalizing left here with
  | nil => exact ⟨0, reached⟩
  | append_singleton front last ih =>
    have before : ∀ x ∈ front, Path.IsStep x := fun x mem => steps x (List.mem_append_left _ mem)
    obtain ⟨between, q, first, inside, final⟩ := exists_trail_concat reached
    obtain ⟨more, kept⟩ := ih before (beside.of_prefix (List.prefix_append _ _)) first
    rw [Path.keepAll_append]
    rcases (steps last (by simp)).cases with rfl | plain
    · -- a `..` takes back the last name, and the walk goes up from where that name led
      rw [trail_up, if_pos inside] at final
      obtain ⟨rfl, rfl⟩ := Prod.mk.inj (Option.some.inj final)
      have back : keepAll true (keepAll true [] front) [['.', '.']] =
          Path.keep true (keepAll true [] front) .parent := rfl
      rw [back]
      have isKept := Path.isKept_keepAll (Path.isKept_nil true) before
      rcases isKept.keep_up with ⟨name, below, eq, plain, rest, after⟩ | ⟨_, eq, after⟩ | ⟨_, absurd, _⟩
      · have named := beside.leadsBeside (List.prefix_refl _)
        rw [normalize_steps before, eq, List.reverse_cons] at named
        rw [eq, List.reverse_cons] at kept
        obtain ⟨earlier, d, reached', inside', final'⟩ := exists_trail_concat kept
        have asSteps := isKept.isStep
        rw [eq, List.reverse_cons] at asSteps
        have up := named.dropLast_eq asSteps plain reached' inside' kept inside
        obtain ⟨spare, enough⟩ := Nat.exists_eq_add_of_le
          ((Nat.le_add_right _ more).trans (le_of_trail final'))
        exact ⟨spare, by rw [after, reached', enough, up]⟩
      · -- above the root there is nothing to take back and nowhere to go
        rw [eq, List.reverse_nil, trail] at kept
        obtain ⟨links, rfl⟩ := Prod.mk.inj (Option.some.inj kept)
        exact ⟨more, by rw [after, List.reverse_nil, trail, links, List.dropLast_nil]⟩
      · cases absurd
    · have name : Path.ofStep last = .name last := Path.ofStep_of_isPlainName plain
      have longer : keepAll true (keepAll true [] front) [last] = last :: keepAll true [] front := by
        rw [keepAll, List.foldl_cons, List.foldl_nil, name, Path.keep]
      rw [longer, List.reverse_cons, trail_append, kept, Option.bind_some]
      exact ⟨more, trail_more more final⟩

/-- The normal form of an absolute path leads to the same directory as the path, if each `..` takes
back a name that leads beside itself. -/
theorem seat?_normalize {path : List Char} (absolute : Path.isAbsolute path)
    (beside : t.BacksBeside (Path.steps path)) {p : Place} (seat : t.seat? path = some p) :
    t.seat? (Path.normalize path) = some p := by
  have directory := hasDirectory_of_seat? seat
  rw [seat?, startOf, if_pos absolute, seatFrom?] at seat
  obtain ⟨⟨left, q⟩, reached, rfl⟩ := Option.map_eq_some_iff.1 seat
  obtain ⟨more, kept⟩ := exists_trail_keepAll (fun _ => Path.isStep_of_mem_steps) beside
    (Option.filter_eq_some_iff.1 reached).1
  rw [seat?, startOf, if_pos (Path.isAbsolute_normalize absolute), Path.steps_normalize,
    Path.keptSteps, absolute]
  exact seatFrom?_of_trail kept directory

/-- The paths on the way to a directory lead to directories. -/
theorem exists_seatFrom? {here p : Place} {s front : List (List Char)} (seat : t.seatFrom? here s = some p)
    (part : front <+: s) : ∃ q, t.seatFrom? here front = some q := by
  obtain ⟨rest, rfl⟩ := part
  induction rest using List.reverseRecOn generalizing p with
  | nil => exact ⟨p, by rwa [List.append_nil] at seat⟩
  | append_singleton rest last ih =>
    rw [← List.append_assoc] at seat
    obtain ⟨q, before⟩ := Option.ne_none_iff_exists'.1
      (seatFrom?_append_singleton (seat ▸ Option.some_ne_none p))
    exact ih before

theorem seatFrom?_up (wf : t.WellFormed) {here p : Place} {front : List (List Char)}
    (seat : t.seatFrom? here front = some p) :
    t.seatFrom? here (front ++ [['.', '.']]) = some p.dropLast := by
  have inside := hasDirectory_of_seatFrom? seat
  have above : t.hasDirectory p.dropLast := by
    rcases List.eq_nil_or_concat p with rfl | ⟨q, name, rfl⟩
    · exact inside
    · rw [List.concat_eq_append, List.dropLast_concat]
      exact wf.inside (by simpa using hasDirectory_iff.1 inside)
  rw [seatFrom?] at seat
  obtain ⟨⟨left, d⟩, reached, rfl⟩ := Option.map_eq_some_iff.1 seat
  have reached := (Option.filter_eq_some_iff.1 reached).1
  rw [seatFrom?, trail_append, reached, Option.bind_some, trail_up, if_pos inside, Option.filter_some,
    if_pos above, Option.map_some]

/-- If a `..` of a path to a directory takes back a name that leads elsewhere, then some path on the
way and its normal form lead to two directories. -/
theorem exists_of_not_backsBeside (wf : t.WellFormed) {s : List (List Char)}
    (steps : ∀ x ∈ s, Path.IsStep x) {p : Place} (seat : t.seatFrom? [] s = some p)
    (h : ¬t.BacksBeside s) : ∃ front, front <+: s ∧
      t.seat? (Path.normalize (ofSteps true front)) ≠ t.seat? (ofSteps true front) := by
  by_contra agree
  push Not at agree
  have same : ∀ front, front <+: s →
      t.seatFrom? [] (keepAll true [] front).reverse = t.seatFrom? [] front := by
    intro front part
    have walked : ∀ x ∈ front, Path.IsStep x := fun x mem => steps x (part.subset mem)
    rw [← seat?_ofSteps walked, ← agree front part, normalize_steps walked,
      seat?_ofSteps (Path.isKept_keepAll (Path.isKept_nil true) walked).isStep]
  refine h fun front _ back e entry q place => ?_
  have part : front <+: s := (List.prefix_append _ _).trans back
  have walked : ∀ x ∈ front, Path.IsStep x := fun x mem => steps x (part.subset mem)
  have isKept := Path.isKept_keepAll (Path.isKept_nil true) walked
  obtain ⟨d, reached⟩ := exists_seatFrom? seat part
  have named := same front part
  have up := same _ back
  rw [seatFrom?_up wf reached, Path.keepAll_append] at up
  rw [normalize_steps walked] at entry place
  rcases isKept.keep_up with ⟨name, below, eq, plain, _, after⟩ | ⟨_, eq, _⟩ | ⟨_, absurd, _⟩
  · have back : keepAll true (keepAll true [] front) [['.', '.']] = below := after
    have asSteps := isKept.isStep
    rw [eq, List.reverse_cons] at named entry place asSteps
    rw [back] at up
    rw [entry?_ofSteps asSteps plain, up] at entry
    obtain rfl := Option.some.inj entry
    rw [reached, ← seat?_ofSteps asSteps] at named
    rw [place?_of_seat? (by simp [ofSteps]) named] at place
    rw [← Option.some.inj place, List.dropLast_concat]
  · rw [eq] at entry
    cases entry
  · cases absurd

end FileTree

/-! ### The root of an analysis -/

namespace Workspace

open FileTree

variable {w : Workspace} {t : FileTree} {now : Int} {o : AnalyzeOptions} {a : Analysis}

theorem isDirectory_of_projectRoot {path root : String} (h : projectRoot t path = .ok root) :
    t.isDirectory path.toList := by
  rw [projectRoot] at h
  split at h
  · cases h
  · split at h
    · cases h
    · rename_i directory
      simpa using directory

theorem projectRoot_of_isDirectory {path : String} (absolute : Path.isAbsolute path.toList)
    (directory : t.isDirectory path.toList) : projectRoot t path = .ok (Path.normalized path) := by
  rw [projectRoot, absolute, directory]
  rfl

/-- An analysis takes place only for a path to a directory, and its root is the normal form of that
path. The root leads to the same directory if each `..` of the path takes back a name that leads
beside itself; otherwise there is a directory on the way to which the path up to there leads, but not
its normal form. -/
theorem analyzed_directory (wf : t.WellFormed) (ok : w.analyze t now o = .ok a) :
    ∃ root, a.workspace.root = some root ∧ root = Path.normalized o.projectPath ∧
      t.isDirectory o.projectPath.toList ∧
      (t.BacksBeside (Path.steps o.projectPath.toList) →
        t.isDirectory root.toList ∧ t.canonical? root.toList = t.canonical? o.projectPath.toList) ∧
      (¬t.BacksBeside (Path.steps o.projectPath.toList) →
        ∃ front, front <+: Path.steps o.projectPath.toList ∧
          t.isDirectory (Path.ofSteps true front) ∧
          t.place? (Path.normalize (Path.ofSteps true front)) ≠ t.place? (Path.ofSteps true front)) := by
  obtain ⟨s, subject, rfl⟩ := analyze_eq_ok ok
  have root := projectRoot_of_subject subject
  obtain ⟨absolute, normal⟩ := projectRoot_eq_ok root
  have directory := isDirectory_of_projectRoot root
  have ne : o.projectPath.toList ≠ [] := fun empty => by rw [empty] at absolute; cases absolute
  obtain ⟨p, seat⟩ := Option.isSome_iff_exists.1 (isDirectory_eq ne ▸ directory)
  refine ⟨s.root, w.root_analyzeRoot t now s o.force, normal, directory, fun beside => ?_,
    fun astray => ?_⟩
  · have same := seat?_normalize absolute beside seat
    have text : s.root.toList = Path.normalize o.projectPath.toList := by
      rw [normal, Path.normalized, String.toList_ofList]
    have filled : Path.normalize o.projectPath.toList ≠ [] := fun empty => by
      have slash := Path.isAbsolute_normalize absolute
      rw [empty] at slash
      cases slash
    rw [text, isDirectory_eq filled, canonical?, canonical?, place?_of_seat? filled same,
      place?_of_seat? ne seat, same]
    exact ⟨rfl, rfl⟩
  · have start : startOf t.working o.projectPath.toList = [] := if_pos absolute
    rw [seat?, start] at seat
    obtain ⟨front, part, differ⟩ :=
      exists_of_not_backsBeside wf (fun _ => Path.isStep_of_mem_steps) seat astray
    have walked : ∀ x ∈ front, Path.IsStep x := fun x mem => Path.isStep_of_mem_steps (part.subset mem)
    have filled : ∀ s, Path.ofSteps true s ≠ [] := fun s => by simp [Path.ofSteps]
    obtain ⟨d, reached⟩ := exists_seatFrom? seat part
    refine ⟨front, part, ?_, fun same => differ ?_⟩
    · rw [isDirectory_eq (filled front), seat?_ofSteps walked, reached]
      rfl
    · rw [normalize_steps walked] at same ⊢
      rw [← filter_place? (filled _), ← filter_place? (filled _), same]

/-- A link that leads away from its directory, and one that leads beside itself. -/
def detourProject : FileTree :=
  ⟨[([['p']], .directory), ([['p'], "away".toList], .link "/q/in".toList), ([['q']], .directory),
    ([['q'], "here".toList], .link "in".toList), ([['q'], "in".toList], .directory),
    ([['q'], "in".toList, "a.ts".toList], .file "class A {}".toUTF8 1)], []⟩

/-- Behind the link that leads away, the path and its normal form part: the analysis takes place, but
its root leads nowhere. -/
theorem root_behind_link : ∃ a,
    (create {} "/c").analyze detourProject 0 { projectPath := "/p/away/../in" } = .ok a ∧
      a.workspace.root = some "/p/in" ∧ detourProject.isDirectory "/p/away/../in".toList ∧
      detourProject.canonical? "/p/away/../in".toList = some "/q/in".toList ∧
      detourProject.place? "/p/in".toList = none ∧
      ¬detourProject.BacksBeside (Path.steps "/p/away/../in".toList) := by
  have root : projectRoot detourProject "/p/away/../in" = .ok "/p/in" :=
    (projectRoot_of_isDirectory (by decide) (by decide +kernel)).trans
      (congrArg Except.ok (by decide +kernel))
  have ok := (create {} "/c").analyze_eq detourProject 0 { projectPath := "/p/away/../in" }
  rw [subject, root, Except.map, Except.map] at ok
  refine ⟨_, ok, ?_, by decide +kernel, by decide +kernel, by decide +kernel, by decide +kernel⟩
  exact root_analyzeRoot ..

theorem analyzed_directory_beside : ∃ a,
    detourProject.WellFormed ∧
      (create {} "/c").analyze detourProject 0 { projectPath := "/q/here/.././in" } = .ok a ∧
      a.workspace.root = some "/q/in" ∧ detourProject.BacksBeside (Path.steps "/q/here/.././in".toList) ∧
      detourProject.canonical? "/q/in".toList = detourProject.canonical? "/q/here/.././in".toList := by
  have root : projectRoot detourProject "/q/here/.././in" = .ok "/q/in" :=
    (projectRoot_of_isDirectory (by decide) (by decide +kernel)).trans
      (congrArg Except.ok (by decide +kernel))
  have ok := (create {} "/c").analyze_eq detourProject 0 { projectPath := "/q/here/.././in" }
  rw [subject, root, Except.map, Except.map] at ok
  have wf : detourProject.WellFormed := by decide
  have beside : detourProject.BacksBeside (Path.steps "/q/here/.././in".toList) := by decide +kernel
  obtain ⟨r, here, normal, _, same, _⟩ := analyzed_directory wf ok
  obtain rfl : r = "/q/in" := normal.trans (by decide +kernel)
  exact ⟨_, wf, ok, here, beside, (same beside).2⟩

end Workspace

end SourceAtlas
