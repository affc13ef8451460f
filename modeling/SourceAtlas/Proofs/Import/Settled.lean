import SourceAtlas.Proofs.Import.Declared
import SourceAtlas.Proofs.Import.Rooted
import SourceAtlas.Proofs.Text.Trim
/-!
What a resolved path is like, and what comes of it when it is resolved again. Every import ends at a
normal absolute path that the extension rule settles, so both questions are asked of the rule alone.
The paths it settles are fixed points of it, but for those that end in `.js`: a script is taken for
its source.
-/

namespace SourceAtlas

namespace Resolver

/-- A path that begins at the root, is its own normal form, and ends with an extension that a
resolved path may have. -/
structure IsSettled (path : List Char) : Prop where
  absolute : path.head? = some '/'
  normal : Path.normalize path = path
  noDots : .current ∉ Path.components path ∧ .parent ∉ Path.components path
  typed : ∃ ext ∈ settledExtensions, '.' :: ext.toList <:+ path

theorem noDots_names {names : List (List Char)} (plain : ∀ n ∈ names, Path.isPlainName n) :
    .current ∉ Path.components (Path.ofSteps true names) ∧
      .parent ∉ Path.components (Path.ofSteps true names) := by
  have named : names.map Path.ofStep = names.map .name :=
    List.map_congr_left fun n mem => Path.ofStep_of_isPlainName (plain n mem)
  rw [Path.components_ofSteps _ fun n mem => Path.isStep_of_isPlainName (plain n mem), named]
  simp

section
variable {front : List (List Char)} {stem : List Char} {ext : String}

theorem IsSettledName.isSettled (h : IsSettledName stem ext)
    (plain : ∀ n ∈ front, Path.isPlainName n) :
    IsSettled (Path.join (Path.ofSteps true front) (stem ++ '.' :: ext.toList)) := by
  have names : ∀ n ∈ front ++ [stem ++ '.' :: ext.toList], Path.isPlainName n := by
    intro n mem
    rcases List.mem_append.1 mem with below | last
    · exact plain n below
    · exact List.mem_singleton.1 last ▸ h.isPlainName
  have whole := Path.join_ofSteps true
    (fun n mem => Path.isStep_of_isPlainName (plain n mem)) (Path.isStep_of_isPlainName h.isPlainName)
  refine ⟨?_, ?_, ?_, ext, h.mem, _, h.join_ext _⟩
  · rw [whole]
    rfl
  · rw [whole]
    exact Path.normalize_names names
  · rw [whole]
    exact noDots_names names

theorem isSettled_root : IsSettled ['/', '.', 'j', 's'] :=
  ⟨rfl, by decide, by decide, "js", List.mem_cons_self, by decide⟩

theorem not_isSettled_dots : ¬IsSettled (Path.join (Path.ofSteps true front) ['.', '.']) := by
  intro settled
  exact settled.noDots.2 (List.mem_of_getLast? (Path.getLast?_components_up _))

end

/-- Every import that leads somewhere leads to the path that the extension rule makes of a normal
absolute path. It is settled: absolute, its own normal form without `.` and `..`, and of an extension
that is `js` or known. Only where the path before had the name `..js` it is not, as that name loses
its `js` and gets nothing in its place. -/
theorem resolved_settled (t : FileTree) {root : List Char} (absolute : Path.isAbsolute root)
    {specifier importer path : String} (full : Path.isAbsolute importer.toList)
    (led : (load t root).resolve? specifier importer = some path) :
    ∃ p, Path.isAbsolute p ∧ Path.normalize p = p ∧ path.toList = withSourceExtension p ∧
      (IsSettled path.toList ↔ Path.fileName? p ≠ some ['.', '.', 'j', 's']) ∧
      (Path.fileName? p = some ['.', '.', 'j', 's'] → path.toList ++ ['j', 's'] = p) := by
  obtain ⟨p, rooted, eq⟩ := (rooted_load t absolute).exists_settlePath full led
  refine ⟨Path.normalize p, Path.isAbsolute_normalize rooted, Path.normalize_normalize p, eq, ?_⟩
  rw [eq]
  rcases settlePath_cases rooted with ⟨normal, settled⟩ | ⟨front, n, plain, name, normal, led⟩
  · rw [normal, settled]
    exact ⟨iff_of_true isSettled_root (by decide), fun no => absurd no (by decide)⟩
  · rw [normal, Path.fileName?_join name]
    rcases led with ⟨rfl, settled⟩ | ⟨other, stem, ext, named, settled⟩
    · rw [settled]
      exact ⟨iff_of_false not_isSettled_dots (fun ne => ne rfl),
        fun _ => Path.join_append (by decide) (by decide) _⟩
    · rw [settled]
      exact ⟨iff_of_true (named.isSettled plain) fun same => other (Option.some.inj same),
        fun same => absurd (Option.some.inj same) other⟩

/-- An alias whose target climbs over the root of the project. -/
theorem settled_aliasProject :
    Path.isAbsolute "/p".toList ∧ Path.isAbsolute "/p/a.ts".toList ∧
      (load aliasProject "/p".toList).resolve? "#../..//y/./z.js" "/p/a.ts" = some "/y/z.ts" ∧
      ∃ p, Path.isAbsolute p ∧ Path.normalize p = p ∧ "/y/z.ts".toList = withSourceExtension p ∧
        (IsSettled "/y/z.ts".toList ↔ Path.fileName? p ≠ some ['.', '.', 'j', 's']) ∧
        (Path.fileName? p = some ['.', '.', 'j', 's'] → "/y/z.ts".toList ++ ['j', 's'] = p) := by
  have led : (load aliasProject "/p".toList).resolve? "#../..//y/./z.js" "/p/a.ts" =
      some "/y/z.ts" := by decide +kernel
  exact ⟨rfl, rfl, led, resolved_settled aliasProject rfl rfl led⟩

/-- An import of the file `..js` beside the importing one leads above its directory. -/
theorem dots_lose_extension :
    Path.isAbsolute "/p".toList ∧ Path.isAbsolute "/p/a.ts".toList ∧
      (load ⟨[], []⟩ "/p".toList).resolve? "./..js" "/p/a.ts" = some "/p/.." ∧
      ¬IsSettled "/p/..".toList :=
  ⟨rfl, rfl, by decide +kernel, fun settled => absurd settled.normal (by decide)⟩

/-! ### Resolved again -/

theorem not_isBlank_of_settled : ∀ ext ∈ settledExtensions, ∀ c ∈ ext.toList,
    Text.isBlank c = false := by decide

theorem trim_of_isSettled {path : List Char} (h : IsSettled path) : Text.trim path = path := by
  obtain ⟨ext, mem, front, rfl⟩ := h.typed
  refine Text.trim_eq_self_iff.2 ⟨fun c first => ?_, fun c last => ?_⟩
  · rw [h.absolute] at first
    obtain rfl := Option.some.inj first
    rfl
  · obtain ⟨_, _, filled⟩ := clean_of_settled ext mem
    rw [List.getLast?_append_of_ne_nil _ (by simp), List.getLast?_cons_of_ne_nil filled] at last
    exact not_isBlank_of_settled ext mem c (List.mem_of_getLast? last)

/-- A settled path is resolved by the extension rule alone. -/
theorem resolve?_of_isSettled (r : Resolver) {path : String} (h : IsSettled path.toList)
    (importer : String) :
    r.resolve? path importer = some (.ofList (withSourceExtension path.toList)) := by
  obtain ⟨cs, eq⟩ := List.head?_eq_some_iff.1 h.absolute
  have located : r.locate? path.toList importer.toList = some (settlePath path.toList) := by
    rw [eq]
    rfl
  rw [resolve?, trim_of_isSettled h, located, settlePath, h.normal]
  rfl

theorem js_suffix_iff {path : List Char} {ext : String} (mem : ext ∈ settledExtensions)
    (typed : '.' :: ext.toList <:+ path) : ".js".toList <:+ path ↔ ext = "js" := by
  have alone : ∀ e ∈ settledExtensions, ".js".toList <:+ '.' :: e.toList ∨
      '.' :: e.toList <:+ ".js".toList → e = "js" := by decide
  constructor
  · exact fun script => alone ext mem (List.suffix_or_suffix_of_suffix script typed)
  · rintro rfl
    exact typed

section
variable {front : List (List Char)} {stem : List Char} {path : String}

/-- A path whose name the rule has settled with an extension other than `js` leads to itself. -/
theorem resolve?_of_known (r : Resolver) {ext : String} (h : IsSettledName stem ext)
    (other : ext ≠ "js") (plain : ∀ n ∈ front, Path.isPlainName n)
    (eq : path.toList = Path.join (Path.ofSteps true front) (stem ++ '.' :: ext.toList))
    (importer : String) : r.resolve? path importer = some path := by
  have settled : IsSettled path.toList := eq ▸ h.isSettled plain
  have same : withSourceExtension path.toList = path.toList := by
    rw [eq, h.withSourceExtension_eq other]
  rw [resolve?_of_isSettled r settled, same, String.ofList_toList]

/-- A path whose name the rule has settled with `js` leads to its source. -/
theorem resolve?_of_script (r : Resolver) (h : IsSettledName stem "js")
    (plain : ∀ n ∈ front, Path.isPlainName n) {base : String}
    (eq : base.toList = Path.join (Path.ofSteps true front) stem) (importer : String) :
    r.resolve? (base ++ ".js") importer = some (base ++ ".ts") ∧
      r.resolve? (base ++ ".ts") importer = some (base ++ ".ts") := by
  have named : IsSettledName stem "ts" := ⟨h.filled, h.slash, by decide, fun no => absurd no (by decide)⟩
  have script : (base ++ ".js").toList = Path.join (Path.ofSteps true front) (stem ++ ['.', 'j', 's']) := by
    rw [String.toList_append, eq]
    exact h.join_ext _
  have source : (base ++ ".ts").toList = Path.join (Path.ofSteps true front) (stem ++ ['.', 't', 's']) := by
    rw [String.toList_append, eq]
    exact named.join_ext _
  have settled : IsSettled (base ++ ".js").toList := script ▸ h.isSettled plain
  have moved : withSourceExtension (base ++ ".js").toList = (base ++ ".ts").toList := by
    rw [script, source]
    exact h.withSourceExtension_js _
  exact ⟨by rw [resolve?_of_isSettled r settled, moved, String.ofList_toList],
    resolve?_of_known r named (by decide) plain source importer⟩

/-- A script is not left alone, its source is. -/
theorem resolved_again_script (r : Resolver) (h : IsSettledName stem "js")
    (plain : ∀ n ∈ front, Path.isPlainName n)
    (eq : path.toList = Path.join (Path.ofSteps true front) (stem ++ '.' :: "js".toList))
    (importer : String) :
    (r.resolve? path importer = some path ↔ ¬".js".toList <:+ path.toList) ∧
      ∀ base : String, path = base ++ ".js" → base ≠ "/" →
        r.resolve? path importer = some (base ++ ".ts") ∧
        r.resolve? (base ++ ".ts") importer = some (base ++ ".ts") := by
  obtain ⟨base, text⟩ : ∃ base : String, base.toList = Path.join (Path.ofSteps true front) stem :=
    ⟨.ofList _, String.toList_ofList⟩
  have whole : path = base ++ ".js" := by
    rw [← String.toList_inj, eq, String.toList_append, text]
    exact (h.join_ext _).symm
  have moved := resolve?_of_script r h plain text importer
  rw [← whole] at moved
  refine ⟨iff_of_false (fun same => ?_) (fun no => no ⟨base.toList, ?_⟩), fun other named _ => ?_⟩
  · rw [moved.1, Option.some.injEq, whole, String.append_right_inj] at same
    exact absurd same (by decide)
  · rw [whole, String.toList_append]
  · rw [named, String.append_left_inj] at whole
    exact whole ▸ moved

end

/-- A resolved path that still ends with a name is left alone when it is resolved again, unless it
ends in `.js`: then its source is expected, and that is left alone from then on. -/
theorem resolved_again (t : FileTree) {root : List Char} (absolute : Path.isAbsolute root)
    {specifier importer path : String} (full : Path.isAbsolute importer.toList)
    (led : (load t root).resolve? specifier importer = some path)
    (named : (Path.fileName? path.toList).isSome) :
    ((load t root).resolve? path importer = some path ↔ ¬".js".toList <:+ path.toList) ∧
      ∀ base : String, path = base ++ ".js" → base ≠ "/" →
        (load t root).resolve? path importer = some (base ++ ".ts") ∧
        (load t root).resolve? (base ++ ".ts") importer = some (base ++ ".ts") := by
  obtain ⟨p, rooted, eq⟩ := (rooted_load t absolute).exists_settlePath full led
  rcases settlePath_cases rooted with ⟨_, settled⟩ |
    ⟨front, _, plain, _, _, ⟨_, dots⟩ | ⟨_, stem, ext, settledName, settled⟩⟩
  · -- the root's own extension makes a name that has none
    obtain rfl : path = "/.js" := String.toList_inj.1 (eq.trans settled)
    have again := resolve?_of_isSettled (load t root)
      (show IsSettled "/.js".toList from isSettled_root) importer
    refine ⟨iff_of_false (fun same => ?_) (fun no => no (by decide)), fun base whole other => ?_⟩
    · rw [again] at same
      exact absurd (Option.some.inj same) (by decide +kernel)
    · have front : base.toList ++ ['.', 'j', 's'] = ['/'] ++ ['.', 'j', 's'] := by
        have texts := congrArg String.toList whole
        rw [String.toList_append] at texts
        exact texts.symm
      exact absurd (String.toList_inj.1 (List.append_cancel_right front)) other
  · rw [eq, dots, Path.fileName?_up] at named
    cases named
  · by_cases script : ext = "js"
    · subst script
      exact resolved_again_script _ settledName plain (eq.trans settled) importer
    · have typed : '.' :: ext.toList <:+ path.toList :=
        ⟨_, (settledName.join_ext _).trans (eq.trans settled).symm⟩
      have other : ¬".js".toList <:+ path.toList := fun no =>
        script ((js_suffix_iff settledName.mem typed).1 no)
      have same := resolve?_of_known (load t root) settledName script plain (eq.trans settled) importer
      refine ⟨iff_of_true same other, fun base whole _ => absurd ⟨base.toList, ?_⟩ other⟩
      rw [whole, String.toList_append]

/-- Outside of the sources a name without a known extension becomes a script. -/
theorem resolved_again_serviceFile :
    let r := load ⟨[], []⟩ "/p".toList
    Path.isAbsolute "/p".toList ∧ Path.isAbsolute "/p/lib/a.ts".toList ∧
      r.resolve? "../b.service" "/p/lib/a.ts" = some "/p/b.service.js" ∧
      (Path.fileName? "/p/b.service.js".toList).isSome ∧
      (r.resolve? "/p/b.service.js" "/p/lib/a.ts" = some "/p/b.service.js" ↔
        ¬".js".toList <:+ "/p/b.service.js".toList) ∧
      ∀ base : String, "/p/b.service.js" = base ++ ".js" → base ≠ "/" →
        r.resolve? "/p/b.service.js" "/p/lib/a.ts" = some (base ++ ".ts") ∧
        r.resolve? (base ++ ".ts") "/p/lib/a.ts" = some (base ++ ".ts") := by
  intro r
  have led : r.resolve? "../b.service" "/p/lib/a.ts" = some "/p/b.service.js" := by decide +kernel
  have named : (Path.fileName? "/p/b.service.js".toList).isSome := by decide
  exact ⟨rfl, rfl, led, named, resolved_again ⟨[], []⟩ rfl rfl led named⟩

/-- Such a script does not stay when it is resolved again. -/
theorem script_moves :
    let r := load ⟨[], []⟩ "/p".toList
    Path.isAbsolute "/p".toList ∧ Path.isAbsolute "/p/lib/a.ts".toList ∧
      r.resolve? "./b" "/p/lib/a.ts" = some "/p/lib/b.js" ∧
      r.resolve? "/p/lib/b.js" "/p/lib/a.ts" ≠ some "/p/lib/b.js" :=
  ⟨rfl, rfl, by decide +kernel, by decide +kernel⟩

end Resolver

end SourceAtlas
