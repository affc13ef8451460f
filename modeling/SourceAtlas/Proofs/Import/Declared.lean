import SourceAtlas.Proofs.Source.Extraction
/-!
Where the declared aliases of a project lead. The rules are stated on the documents themselves: the
first entry that fits a specifier decides, a `*` stands for any text, and a target is filled in, traced
back to its source and joined to a directory. The resolver keeps the usable entries alone and looks
them up one after the other; it comes to the same file, and to none where the rules lead to none.
-/

namespace SourceAtlas

/-! ### Patterns and targets -/

namespace Alias

/-- A text with at most one `*` matches a specifier, in which `captured` stands in the place of the
`*`; without one it matches itself alone. -/
inductive Matches : (pattern s captured : List Char) → Prop
  | exact {s : List Char} (plain : '*' ∉ s) : Matches s s []
  | gap {front back : List Char} (plain : '*' ∉ front) (plain' : '*' ∉ back) (captured : List Char) :
      Matches (front ++ '*' :: back) (front ++ captured ++ back) captured

/-- A target with its first `*`, if there is one, replaced. -/
inductive Fills (captured : List Char) : (target path : List Char) → Prop
  | whole {target : List Char} (plain : '*' ∉ target) : Fills captured target target
  | first {front : List Char} (plain : '*' ∉ front) (back : List Char) :
      Fills captured (front ++ '*' :: back) (front ++ captured ++ back)

variable {pattern : String} {s captured target path : List Char}

/-- The matches of a text are those of the alias that it denotes. -/
theorem matches_iff : Matches pattern.toList s captured ↔
    (ofString? pattern).bind (·.capture? s) = some captured := by
  constructor
  · intro h
    generalize text : pattern.toList = t at h
    cases h with
    | exact plain =>
      rw [ofString?, text, Text.split_of_not_mem plain]
      exact if_pos rfl
    | @gap front back plain plain' =>
      rw [ofString?, text, Text.split_append_sep, Text.split_of_not_mem plain,
        Text.split_of_not_mem plain']
      simp only [List.cons_append, List.nil_append, Option.bind_some, capture?]
      rw [List.append_assoc, Text.stripPrefix?_append, Option.bind_some]
      exact Text.stripSuffix?_eq_some_iff.2 rfl
  · intro h
    have whole := Text.join_split '*' pattern.toList
    have plain := fun piece => @Text.not_mem_of_mem_split '*' pattern.toList piece
    rw [ofString?] at h
    split at h
    · rename_i text pieces
      rw [pieces] at whole plain
      rw [Option.bind_some, capture?, Option.ite_none_right_eq_some] at h
      obtain ⟨rfl, nothing⟩ := h
      obtain rfl := Option.some.inj nothing
      exact whole ▸ .exact (plain s List.mem_cons_self)
    · rename_i front back pieces
      rw [pieces] at whole plain
      rw [Option.bind_some, capture?] at h
      obtain ⟨rest, start, ending⟩ := Option.bind_eq_some_iff.1 h
      rw [Text.stripPrefix?_eq_some_iff] at start
      rw [Text.stripSuffix?_eq_some_iff] at ending
      rw [start, ending, ← whole, ← List.append_assoc]
      exact .gap (plain front List.mem_cons_self)
        (plain back (List.mem_cons_of_mem _ List.mem_cons_self)) captured
    · cases h

theorem fill_of_not_mem (plain : '*' ∉ target) : fill captured target = target := by
  induction target with
  | nil => rfl
  | cons c cs ih =>
    obtain ⟨other, rest⟩ := not_or.1 (mt List.mem_cons.2 plain)
    rw [fill, if_neg (Ne.symm other), ih rest]

theorem fill_append {front : List Char} (plain : '*' ∉ front) (back : List Char) :
    fill captured (front ++ '*' :: back) = front ++ captured ++ back := by
  induction front with
  | nil => exact if_pos rfl
  | cons c cs ih =>
    obtain ⟨other, rest⟩ := not_or.1 (mt List.mem_cons.2 plain)
    rw [List.cons_append, fill, if_neg (Ne.symm other), ih rest]
    rfl

theorem fills_iff : Fills captured target path ↔ fill captured target = path := by
  constructor
  · rintro (plain | ⟨plain, back⟩)
    · exact fill_of_not_mem plain
    · exact fill_append plain back
  · rintro rfl
    by_cases mem : '*' ∈ target
    · obtain ⟨front, back, rfl, plain⟩ := List.eq_append_cons_of_mem mem
      rw [fill_append plain]
      exact .first plain back
    · rw [fill_of_not_mem mem]
      exact .whole mem

theorem lookup_conditionTargets (name : String) (members : List (String × Json)) :
    (conditionTargets members).lookup name = (members.lookup name).map packageTarget? := by
  induction members with
  | nil => rfl
  | cons member members ih =>
    obtain ⟨other, j⟩ := member
    rw [conditionTargets, List.lookup_cons, List.lookup_cons, ih]
    split <;> rfl

/-- Of the conditions under which a package names targets, the first one decides that has any. -/
theorem packageTarget?_object (members : List (String × Json)) :
    packageTarget? (.object members) =
      conditions.findSome? fun condition => (members.lookup condition).bind packageTarget? := by
  rw [packageTarget?]
  refine congrArg (conditions.findSome? ·) (funext fun condition => ?_)
  rw [lookup_conditionTargets]
  cases members.lookup condition <;> rfl

end Alias

/-! ### The rules of a project -/

/-- An element is the first one of a list with a property. -/
def IsFirst {α : Type} (holds : α → Prop) (l : List α) (a : α) : Prop :=
  ∃ before after, l = before ++ a :: after ∧ holds a ∧ ∀ b ∈ before, ¬holds b

section

variable {α β : Type} {found : α → Option β} {holds : α → Prop} {l : List α} {a : α} {b : β}

/-- What is found among kept elements is found among all of them. -/
theorem findSome?_filterMap {γ : Type} (keep : γ → Option α) (l : List γ) :
    (l.filterMap keep).findSome? found = l.findSome? fun c => (keep c).bind found := by
  rw [← List.head?_filterMap, List.filterMap_filterMap, List.head?_filterMap]

/-- A search in which the elements with a property have answers answers for the first of them. -/
theorem exists_isFirst_of_findSome? (none_iff : ∀ a, found a = none ↔ ¬holds a)
    (h : l.findSome? found = some b) : ∃ a, IsFirst holds l a ∧ found a = some b := by
  obtain ⟨before, a, after, eq, here, earlier⟩ := List.findSome?_eq_some_iff.1 h
  have has : holds a := Classical.not_not.1 fun unfit => by simp [(none_iff a).2 unfit] at here
  exact ⟨a, ⟨before, after, eq, has, fun x mem => (none_iff x).1 (earlier x mem)⟩, here⟩

theorem IsFirst.findSome? (first : IsFirst holds l a) (none_iff : ∀ a, found a = none ↔ ¬holds a)
    (here : found a = some b) : l.findSome? found = some b := by
  obtain ⟨before, after, eq, _, earlier⟩ := first
  exact List.findSome?_eq_some_iff.2
    ⟨before, a, after, eq, here, fun x mem => (none_iff x).2 (earlier x mem)⟩

theorem findSome?_eq_none (none_iff : ∀ a, found a = none ↔ ¬holds a) :
    l.findSome? found = none ↔ ¬∃ a ∈ l, holds a := by
  rw [List.findSome?_eq_none_iff]
  simp only [none_iff, not_exists, not_and]

end

/-- The documents that a project declares its aliases in: the compiler configuration, with the
directory it was found in, and the package description. -/
structure Declarations where
  root : List Char
  compiler : Option (List Char × Json)
  package : Option Json

namespace Declarations

/-- The documents found for a project. -/
def find (t : FileTree) (root : List Char) : Declarations :=
  let root := Path.normalize root
  { root
    compiler := (Resolver.holder? t root Resolver.compilerFile).bind fun d =>
      (Resolver.documentIn? t d Resolver.compilerFile).map (d, ·)
    package := (Resolver.holder? t root Resolver.packageFile).bind fun d =>
      Resolver.documentIn? t d Resolver.packageFile }

/-- The package aliases as they are written, in document order. -/
def imports (d : Declarations) : List (String × Json) :=
  ((d.package.bind (·.get? "imports")).bind Json.object?).getD []

/-- The member that holds the path mappings. -/
def paths? (d : Declarations) : Option (List (String × Json)) :=
  ((d.compiler.bind fun c => c.2.get? "compilerOptions").bind (·.get? "paths")).bind Json.object?

/-- The directory in force for the targets of path mappings. -/
def baseUrl? (d : Declarations) : Option (List Char) :=
  d.compiler.bind fun (directory, document) =>
    match ((document.get? "compilerOptions").bind (·.get? "baseUrl")).bind Json.string? with
    | some url => some (Path.normalize (Path.join directory url.toList))
    | none => d.paths?.map fun _ => directory

/-- A package alias that matches a specifier and has a target. -/
def FitsPackage (s : List Char) (entry : String × Json) : Prop :=
  (∃ captured, Alias.Matches entry.1.toList s captured) ∧ (Alias.packageTarget? entry.2).isSome

/-- The texts among the targets of a path mapping. -/
def textTargets (targets : Json) : List String := (targets.array?.getD []).filterMap Json.string?

/-- A path mapping that matches a specifier and has a target. -/
def FitsMapping (s : List Char) (entry : String × Json) : Prop :=
  (∃ captured, Alias.Matches entry.1.toList s captured) ∧ textTargets entry.2 ≠ []

/-- The path mappings as they are written, in document order. -/
def mappings (d : Declarations) : List (String × Json) := d.paths?.getD []

/-- What a target comes from that has no `./` in front: where its first directory holds built files,
the file of the same name among the sources. -/
inductive BuiltFrom : (target path : List Char) → Prop
  | built {directory : List Char}
      (known : directory ∈ Resolver.buildDirectories.map String.toList) (rest : List Char) :
      BuiltFrom (directory ++ '/' :: rest) ("src/".toList ++ rest)
  | other {target : List Char}
      (source : ∀ directory ∈ Resolver.buildDirectories.map String.toList,
        ¬directory ++ ['/'] <+: target) : BuiltFrom target target

/-- The source of a target, in front of which a `./` says nothing. -/
inductive SourceOf : (target path : List Char) → Prop
  | dotted {target path : List Char} (built : BuiltFrom target path) :
      SourceOf (['.', '/'] ++ target) path
  | bare {target path : List Char} (noDot : ¬['.', '/'] <+: target)
      (built : BuiltFrom target path) : SourceOf target path

/-- The file that a trimmed specifier leads to by the declared aliases, if any. -/
inductive Leads (d : Declarations) (s : List Char) : Option (List Char) → Prop
  /-- The first package alias that fits, for a specifier that begins with `#`. -/
  | package {entry : String × Json} {captured filled path : List Char} {target : String}
      (hash : s.head? = some '#') (first : IsFirst (FitsPackage s) d.imports entry)
      (matched : Alias.Matches entry.1.toList s captured)
      (named : Alias.packageTarget? entry.2 = some target)
      (fills : Alias.Fills captured target.toList filled) (source : SourceOf filled path) :
      Leads d s (some (Resolver.withSourceExtension (Path.normalize (Path.join d.root path))))
  /-- The first path mapping that fits, where no package alias does. -/
  | mapping {entry : String × Json} {base captured filled : List Char} {target : String}
      (noPackage : ¬(s.head? = some '#' ∧ ∃ entry ∈ d.imports, FitsPackage s entry))
      (inForce : d.baseUrl? = some base) (first : IsFirst (FitsMapping s) d.mappings entry)
      (matched : Alias.Matches entry.1.toList s captured)
      (named : (textTargets entry.2).head? = some target)
      (fills : Alias.Fills captured target.toList filled) :
      Leads d s (some (Resolver.withSourceExtension (Path.normalize (Path.join base filled))))
  | nowhere
      (noPackage : ¬(s.head? = some '#' ∧ ∃ entry ∈ d.imports, FitsPackage s entry))
      (noMapping : ¬(d.baseUrl?.isSome ∧ ∃ entry ∈ d.mappings, FitsMapping s entry)) :
      Leads d s none

variable {d : Declarations} {s path target : List Char} {entry : String × Json}

/-! ### Sources -/

theorem exists_builtFrom (target : List Char) : ∃ path, BuiltFrom target path := by
  by_cases h : ∃ directory ∈ Resolver.buildDirectories.map String.toList, directory ++ ['/'] <+: target
  · obtain ⟨directory, known, rest, rfl⟩ := h
    rw [List.append_assoc]
    exact ⟨_, .built known rest⟩
  · exact ⟨target, .other fun directory known begins => h ⟨directory, known, begins⟩⟩

/-- The rule for built files, where no `./` stands in front. -/
theorem BuiltFrom.eq (h : BuiltFrom target path) : (match Text.split '/' target with
    | first :: next :: rest =>
      if Resolver.buildDirectories.contains (.ofList first) then
        ['s', 'r', 'c', '/'] ++ Text.join '/' (next :: rest)
      else target
    | _ => target) = path := by
  cases h with
  | @built directory known rest =>
    have single : '/' ∉ directory := by
      have all : ∀ name ∈ Resolver.buildDirectories.map String.toList, '/' ∉ name := by decide
      exact all directory known
    obtain ⟨name, mem, rfl⟩ := List.mem_map.1 known
    obtain ⟨next, others, eq⟩ := List.exists_cons_of_ne_nil (Text.split_ne_nil '/' rest)
    have whole := Text.join_split '/' rest
    rw [eq] at whole
    rw [Text.split_append_sep, Text.split_of_not_mem single, eq, List.singleton_append]
    simp only [String.ofList_toList, whole]
    exact if_pos (List.contains_iff_mem.2 mem)
  | other source =>
    split
    · rename_i first next rest eq
      refine if_neg fun known => source first ?_ ?_
      · exact List.mem_map.2 ⟨_, List.contains_iff_mem.1 known, String.toList_ofList⟩
      · have whole := Text.join_split '/' path
        rw [eq, Text.join_cons_cons] at whole
        exact ⟨Text.join '/' (next :: rest), by rw [← whole, List.append_assoc]; rfl⟩
    · rfl

theorem sourceOf_iff : SourceOf target path ↔ Resolver.sourceOfBuilt target = path := by
  have eq : ∀ {path}, SourceOf target path → Resolver.sourceOfBuilt target = path := by
    rintro path (built | ⟨noDot, built⟩)
    · rw [Resolver.sourceOfBuilt, Text.stripPrefix?_append]
      exact built.eq
    · rw [Resolver.sourceOfBuilt, Text.stripPrefix?_eq_none_iff.2 noDot]
      exact built.eq
  refine ⟨eq, ?_⟩
  rintro rfl
  obtain ⟨path, source⟩ : ∃ path, SourceOf target path := by
    by_cases dot : ['.', '/'] <+: target
    · obtain ⟨rest, rfl⟩ := dot
      obtain ⟨path, built⟩ := exists_builtFrom rest
      exact ⟨path, .dotted built⟩
    · obtain ⟨path, built⟩ := exists_builtFrom target
      exact ⟨path, .bare dot built⟩
  rw [eq source]
  exact source

/-! ### Entries -/

/-- A package alias as the resolver keeps it, if it can be used. -/
def packageAlias? (entry : String × Json) : Option (Alias × String) :=
  (Alias.ofString? entry.1).bind fun pattern =>
    (Alias.packageTarget? entry.2).map fun target => (pattern, target)

/-- A path mapping as the resolver keeps it, if it can be used. -/
def mapping? (entry : String × Json) : Option (Alias × List String) :=
  (Alias.ofString? entry.1).bind fun pattern =>
    match textTargets entry.2 with
    | [] => none
    | targets => some (pattern, targets)

/-- The file behind a package alias, if it fits. -/
def packageFile? (root s : List Char) (entry : String × Json) : Option (List Char) :=
  (packageAlias? entry).bind fun (pattern, target) =>
    (pattern.capture? s).map fun captured =>
      Resolver.settlePath
        (Path.join root (Resolver.sourceOfBuilt (Alias.fill captured target.toList)))

/-- The file behind a path mapping, if it fits. -/
def mappedFile? (base s : List Char) (entry : String × Json) : Option (List Char) :=
  (mapping? entry).bind fun (pattern, targets) =>
    (pattern.capture? s).bind fun captured =>
      targets.head?.map fun target =>
        Resolver.settlePath (Path.join base (Alias.fill captured target.toList))

variable {root base file : List Char}

theorem packageFile?_eq_some_iff : packageFile? root s entry = some file ↔
    ∃ captured target, Alias.Matches entry.1.toList s captured ∧
      Alias.packageTarget? entry.2 = some target ∧
      Resolver.settlePath
        (Path.join root (Resolver.sourceOfBuilt (Alias.fill captured target.toList))) = file := by
  simp only [packageFile?, packageAlias?, Alias.matches_iff, Option.bind_eq_some_iff,
    Option.map_eq_some_iff]
  constructor
  · rintro ⟨_, ⟨pattern, denotes, target, named, rfl⟩, captured, matched, eq⟩
    exact ⟨captured, target, ⟨pattern, denotes, matched⟩, named, eq⟩
  · rintro ⟨captured, target, ⟨pattern, denotes, matched⟩, named, eq⟩
    exact ⟨_, ⟨pattern, denotes, target, named, rfl⟩, captured, matched, eq⟩

theorem mappedFile?_eq_some_iff : mappedFile? base s entry = some file ↔
    ∃ captured target, Alias.Matches entry.1.toList s captured ∧
      (textTargets entry.2).head? = some target ∧
      Resolver.settlePath (Path.join base (Alias.fill captured target.toList)) = file := by
  have kept : ∀ {pattern : Alias} {targets : List String},
      mapping? entry = some (pattern, targets) ↔
        Alias.ofString? entry.1 = some pattern ∧ textTargets entry.2 = targets ∧ targets ≠ [] := by
    intro pattern targets
    rw [mapping?, Option.bind_eq_some_iff]
    cases textTargets entry.2 with
    | nil => simp +contextual [eq_comm]
    | cons first others =>
      simp only [Option.some.injEq, Prod.mk.injEq]
      constructor
      · rintro ⟨_, denotes, rfl, rfl⟩
        exact ⟨denotes, rfl, List.cons_ne_nil _ _⟩
      · rintro ⟨denotes, rfl, _⟩
        exact ⟨pattern, denotes, rfl, rfl⟩
  simp only [mappedFile?, Alias.matches_iff, Option.bind_eq_some_iff, Option.map_eq_some_iff,
    Prod.exists, kept]
  constructor
  · rintro ⟨pattern, targets, ⟨denotes, rfl, _⟩, captured, matched, target, named, eq⟩
    exact ⟨captured, target, ⟨pattern, denotes, matched⟩, named, eq⟩
  · rintro ⟨captured, target, ⟨pattern, denotes, matched⟩, named, eq⟩
    refine ⟨pattern, _, ⟨denotes, rfl, fun none => ?_⟩, captured, matched, target, named, eq⟩
    rw [none] at named
    cases named

theorem packageFile?_eq_none_iff : packageFile? root s entry = none ↔ ¬FitsPackage s entry := by
  rw [Option.eq_none_iff_forall_ne_some]
  simp only [ne_eq, packageFile?_eq_some_iff, FitsPackage, Option.isSome_iff_exists]
  constructor
  · rintro none ⟨⟨captured, matched⟩, target, named⟩
    exact none _ ⟨captured, target, matched, named, rfl⟩
  · rintro unfit file ⟨captured, target, matched, named, _⟩
    exact unfit ⟨⟨captured, matched⟩, target, named⟩

theorem mappedFile?_eq_none_iff : mappedFile? base s entry = none ↔ ¬FitsMapping s entry := by
  rw [Option.eq_none_iff_forall_ne_some]
  simp only [ne_eq, mappedFile?_eq_some_iff, FitsMapping]
  constructor
  · rintro none ⟨⟨captured, matched⟩, filled⟩
    obtain ⟨target, others, eq⟩ := List.exists_cons_of_ne_nil filled
    exact none _ ⟨captured, target, matched, by rw [eq, List.head?_cons], rfl⟩
  · rintro unfit file ⟨captured, target, matched, named, _⟩
    refine unfit ⟨⟨captured, matched⟩, fun none => ?_⟩
    rw [none] at named
    cases named

/-! ### The resolver -/

/-- The rules of a project are the entries of its documents that can be used. -/
theorem load_eq (t : FileTree) (root : List Char) :
    Resolver.load t root =
      { root := (find t root).root
        baseUrl := (find t root).baseUrl?
        mappings := (find t root).mappings.filterMap mapping?
        packageAliases := (find t root).imports.filterMap packageAlias? } := by
  have compiled : ({ root := Path.normalize root } : Resolver).withProjectFile t (Path.normalize root)
      Resolver.compilerFile Resolver.withCompilerOptions =
        { root := Path.normalize root, baseUrl := (find t root).baseUrl?
          mappings := (find t root).mappings.filterMap mapping? } := by
    simp only [Resolver.withProjectFile, baseUrl?, mappings, paths?, find]
    cases Resolver.holder? t (Path.normalize root) Resolver.compilerFile with
    | none => rfl
    | some directory =>
      simp only [Option.bind_some]
      cases Resolver.documentIn? t directory Resolver.compilerFile with
      | none => rfl
      | some document =>
        simp only [Option.map_some, Option.bind_some, Resolver.withCompilerOptions]
        cases document.get? "compilerOptions" with
        | none => rfl
        | some options =>
          simp only [Option.bind_some]
          cases (options.get? "baseUrl").bind Json.string? with
          | some url => rfl
          | none => cases (options.get? "paths").bind Json.object? <;> rfl
  rw [Resolver.load]
  simp only [compiled]
  simp only [Resolver.withProjectFile, imports, find]
  cases Resolver.holder? t (Path.normalize root) Resolver.packageFile with
  | none => rfl
  | some directory =>
    simp only [Option.bind_some]
    cases Resolver.documentIn? t directory Resolver.packageFile with
    | none => rfl
    | some document =>
      simp only [Option.bind_some, Resolver.withPackage]
      cases (document.get? "imports").bind Json.object? <;> rfl

/-- The file behind the first package alias that fits, for a specifier that begins with `#`. -/
def throughImports? (d : Declarations) (s : List Char) : Option (List Char) :=
  if s.head? = some '#' then d.imports.findSome? (packageFile? d.root s) else none

/-- The file behind the first path mapping that fits. -/
def throughMappings? (d : Declarations) (s : List Char) : Option (List Char) :=
  d.baseUrl?.bind fun base => d.mappings.findSome? (mappedFile? base s)

theorem locate?_load {t : FileTree} {root : List Char} (importer : List Char) (filled : s ≠ [])
    (outside : Resolver.isRelative s = false) (noRoot : s.head? ≠ some '/') :
    (Resolver.load t root).locate? s importer =
      ((find t root).throughImports? s).or ((find t root).throughMappings? s) := by
  have notAbsolute : Path.isAbsolute s = false := by simpa [Path.isAbsolute] using noRoot
  have package : (Resolver.load t root).throughPackage? s =
      (find t root).imports.findSome? (packageFile? (find t root).root s) := by
    rw [load_eq, Resolver.throughPackage?, findSome?_filterMap]
    rfl
  have mapping : (Resolver.load t root).throughMapping? s = (find t root).throughMappings? s := by
    simp only [load_eq, Resolver.throughMapping?, findSome?_filterMap]
    rfl
  rw [Resolver.locate?, List.isEmpty_eq_false_iff.2 filled, outside, notAbsolute, package, mapping,
    throughImports?]
  by_cases hash : s.head? = some '#' <;> simp [hash]

theorem throughImports?_eq_none_iff : d.throughImports? s = none ↔
    ¬(s.head? = some '#' ∧ ∃ entry ∈ d.imports, FitsPackage s entry) := by
  rw [throughImports?]
  split
  · rename_i hash
    rw [findSome?_eq_none fun _ => packageFile?_eq_none_iff, hash]
    simp
  · rename_i other
    simp [other]

theorem throughMappings?_eq_none_iff : d.throughMappings? s = none ↔
    ¬(d.baseUrl?.isSome ∧ ∃ entry ∈ d.mappings, FitsMapping s entry) := by
  rw [throughMappings?]
  cases d.baseUrl? with
  | none => simp
  | some base =>
    rw [Option.bind_some, findSome?_eq_none fun _ => mappedFile?_eq_none_iff]
    simp

/-- The two searches come to the file that the rules lead to. -/
theorem leads_iff {o : Option (List Char)} :
    (d.throughImports? s).or (d.throughMappings? s) = o ↔ d.Leads s o := by
  constructor
  · rintro rfl
    cases package : d.throughImports? s with
    | some file =>
      rw [throughImports?, Option.ite_none_right_eq_some] at package
      obtain ⟨hash, found⟩ := package
      obtain ⟨entry, first, here⟩ :=
        exists_isFirst_of_findSome? (fun _ => packageFile?_eq_none_iff) found
      obtain ⟨captured, target, matched, named, rfl⟩ := packageFile?_eq_some_iff.1 here
      exact .package hash first matched named (Alias.fills_iff.2 rfl) (sourceOf_iff.2 rfl)
    | none =>
      have noPackage := throughImports?_eq_none_iff.1 package
      cases mapping : d.throughMappings? s with
      | some file =>
        obtain ⟨base, inForce, found⟩ := Option.bind_eq_some_iff.1 mapping
        obtain ⟨entry, first, here⟩ :=
          exists_isFirst_of_findSome? (fun _ => mappedFile?_eq_none_iff) found
        obtain ⟨captured, target, matched, named, rfl⟩ := mappedFile?_eq_some_iff.1 here
        exact .mapping noPackage inForce first matched named (Alias.fills_iff.2 rfl)
      | none => exact .nowhere noPackage (throughMappings?_eq_none_iff.1 mapping)
  · intro h
    cases h with
    | package hash first matched named fills source =>
      have here : packageFile? d.root s _ = some _ :=
        packageFile?_eq_some_iff.2 ⟨_, _, matched, named, rfl⟩
      rw [Alias.fills_iff.1 fills, sourceOf_iff.1 source] at here
      rw [throughImports?, if_pos hash, first.findSome? (fun _ => packageFile?_eq_none_iff) here]
      rfl
    | @mapping entry base _ _ _ noPackage inForce first matched named fills =>
      have here : mappedFile? base s entry = some _ :=
        mappedFile?_eq_some_iff.2 ⟨_, _, matched, named, rfl⟩
      rw [Alias.fills_iff.1 fills] at here
      rw [throughImports?_eq_none_iff.2 noPackage, throughMappings?, inForce, Option.bind_some,
        first.findSome? (fun _ => mappedFile?_eq_none_iff) here]
      rfl
    | nowhere noPackage noMapping =>
      rw [throughImports?_eq_none_iff.2 noPackage, throughMappings?_eq_none_iff.2 noMapping]
      rfl

end Declarations

open Declarations

/-- A specifier that is no path leads where the first alias that fits leads by the rules of the
project's documents, and nowhere if none does. The empty specifier leads nowhere whatever fits. -/
theorem resolve?_iff_leads (t : FileTree) (root : List Char) {specifier : String} (importer : String)
    (outside : Resolver.isRelative (Text.trim specifier.toList) = false)
    (noRoot : (Text.trim specifier.toList).head? ≠ some '/') :
    (Text.trim specifier.toList = [] → (Resolver.load t root).resolve? specifier importer = none) ∧
      (Text.trim specifier.toList ≠ [] → ∀ o,
        (Resolver.load t root).resolve? specifier importer = o ↔
          (find t root).Leads (Text.trim specifier.toList) (o.map String.toList)) := by
  refine ⟨fun empty => ?_, fun filled o => ?_⟩
  · rw [Resolver.resolve?, empty]
    rfl
  · rw [← leads_iff, ← locate?_load importer.toList filled outside noRoot, Resolver.resolve?]
    constructor
    · rintro rfl
      simp [Function.comp_def]
    · intro located
      rw [located, Option.map_map]
      simp [Function.comp_def]

/-- A project with two package aliases that fit the same specifiers, one of which leads to what is
built, and with a path mapping that fits every specifier. -/
def aliasProject : FileTree :=
  ⟨[([['p']], .directory),
    ([['p'], Resolver.packageFile],
      .file ("\x7b\"imports\": \x7b\"#lib/*\": \x7b\"node\": \"./dist/lib/*.js\"\x7d, " ++
        "\"#*\": \"./x/*\"\x7d\x7d").toUTF8 1),
    ([['p'], Resolver.compilerFile],
      .file ("\x7b\"compilerOptions\": \x7b\"baseUrl\": \"src\", " ++
        "\"paths\": \x7b\"*\": [\"x/*\"]\x7d\x7d\x7d").toUTF8 2)], []⟩

theorem leads_aliasProject :
    let s := Text.trim "#lib/x".toList
    Resolver.isRelative s = false ∧ s.head? ≠ some '/' ∧ s ≠ [] ∧
      (Resolver.load aliasProject "/p".toList).resolve? "#lib/x" "/p/a.ts" = some "/p/src/lib/x.ts" ∧
      (find aliasProject "/p".toList).Leads s (some "/p/src/lib/x.ts".toList) := by
  intro s
  have outside : Resolver.isRelative s = false := by decide +kernel
  have noRoot : s.head? ≠ some '/' := by decide +kernel
  have filled : s ≠ [] := by decide +kernel
  have found : (Resolver.load aliasProject "/p".toList).resolve? "#lib/x" "/p/a.ts" =
      some "/p/src/lib/x.ts" := by decide +kernel
  exact ⟨outside, noRoot, filled, found,
    ((resolve?_iff_leads aliasProject "/p".toList "/p/a.ts" outside noRoot).2 filled _).1 found⟩

/-- By the rules alone the empty specifier, which is no path either, would lead through a pattern
that is just a `*`. -/
theorem empty_leads_nowhere :
    let s := Text.trim "".toList
    Resolver.isRelative s = false ∧ s.head? ≠ some '/' ∧
      (find aliasProject "/p".toList).Leads s (some "/p/src/x.ts".toList) ∧
      (Resolver.load aliasProject "/p".toList).resolve? "" "/p/a.ts" = none :=
  ⟨by decide +kernel, by decide +kernel, leads_iff.1 (by decide +kernel), by decide +kernel⟩

end SourceAtlas
