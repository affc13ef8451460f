import SourceAtlas.Proofs.Import.Extension
/-!
Imports lead to absolute paths. The operations on path texts keep a path absolute, so the rules of a
project with an absolute root start at absolute paths, and so does everything they lead to.
-/

namespace SourceAtlas

namespace Path

theorem isAbsolute_cons (cs : List Char) : isAbsolute ('/' :: cs) := rfl

theorem isAbsolute_normalize {p : List Char} (h : isAbsolute p) : isAbsolute (normalize p) :=
  (isAbsolute_normal p).trans h

theorem isAbsolute_joined {p : List Char} (h : isAbsolute p) (q : List Char) :
    isAbsolute (join p q) := by
  cases absolute : isAbsolute q with
  | true => rwa [join, if_pos absolute]
  | false => rwa [isAbsolute_join_relative absolute]

theorem isAbsolute_parent? {p q : List Char} (h : isAbsolute p) (up : parent? p = some q) :
    isAbsolute q := by
  rw [(steps_parent? up).2, h]

theorem isAbsolute_ancestors {n : Nat} {p : List Char} (h : isAbsolute p) :
    ∀ q ∈ ancestors n p, isAbsolute q := by
  induction n generalizing p with
  | zero => simp [ancestors]
  | succ n ih =>
    intro q mem
    rw [ancestors] at mem
    rcases List.mem_cons.1 mem with rfl | mem
    · exact h
    · split at mem
      · rename_i up parent
        exact ih (isAbsolute_parent? h parent) q mem
      · cases mem

end Path

namespace Resolver

/-- The rules start at absolute paths. -/
structure Rooted (r : Resolver) : Prop where
  root : Path.isAbsolute r.root
  baseUrl : ∀ base ∈ r.baseUrl, Path.isAbsolute base

theorem isAbsolute_settlePath {p : List Char} (h : Path.isAbsolute p) :
    Path.isAbsolute (settlePath p) := by
  rcases settlePath_cases h with ⟨_, root⟩ | ⟨_, _, _, _, _, ⟨_, dots⟩ | ⟨_, _, _, _, settled⟩⟩
  · rw [root]
    exact Path.isAbsolute_cons _
  · rw [dots]
    exact Path.isAbsolute_joined (Path.isAbsolute_cons _) _
  · rw [settled]
    exact Path.isAbsolute_joined (Path.isAbsolute_cons _) _

section
variable {r : Resolver} {s q : List Char}

theorem Rooted.throughPackage? (rooted : r.Rooted) (h : r.throughPackage? s = some q) :
    ∃ p, Path.isAbsolute p ∧ q = settlePath p := by
  obtain ⟨⟨pattern, target⟩, _, found⟩ := List.exists_of_findSome?_eq_some h
  obtain ⟨captured, _, rfl⟩ := Option.map_eq_some_iff.1 found
  exact ⟨_, Path.isAbsolute_joined rooted.root _, rfl⟩

theorem Rooted.throughMapping? (rooted : r.Rooted) (h : r.throughMapping? s = some q) :
    ∃ p, Path.isAbsolute p ∧ q = settlePath p := by
  obtain ⟨base, url, found⟩ := Option.bind_eq_some_iff.1 h
  obtain ⟨⟨pattern, targets⟩, _, found⟩ := List.exists_of_findSome?_eq_some found
  obtain ⟨captured, _, found⟩ := Option.bind_eq_some_iff.1 found
  obtain ⟨target, _, rfl⟩ := Option.map_eq_some_iff.1 found
  exact ⟨_, Path.isAbsolute_joined (rooted.baseUrl base url) _, rfl⟩

/-- Whatever way an import takes, it ends at an absolute path, which the extension rule settles. -/
theorem Rooted.locate? (rooted : r.Rooted) {importer : List Char}
    (absolute : Path.isAbsolute importer) (h : r.locate? s importer = some q) :
    ∃ p, Path.isAbsolute p ∧ q = settlePath p := by
  rw [Resolver.locate?] at h
  split at h
  · cases h
  · split at h
    · rcases Option.or_eq_some_iff.1 h with package | ⟨_, mapping⟩
      · exact rooted.throughPackage? package
      · exact rooted.throughMapping? mapping
    · split at h
      · obtain rfl := Option.some.inj h
        refine ⟨_, Path.isAbsolute_joined ?_ _, rfl⟩
        cases up : Path.parent? importer with
        | none => exact Path.isAbsolute_cons _
        | some parent => exact Path.isAbsolute_parent? absolute up
      · split at h
        · rename_i full
          obtain rfl := Option.some.inj h
          exact ⟨_, full, rfl⟩
        · exact rooted.throughMapping? h

end

theorem Rooted.exists_settlePath {r : Resolver} (rooted : r.Rooted)
    {specifier importer q : String} (absolute : Path.isAbsolute importer.toList)
    (h : r.resolve? specifier importer = some q) :
    ∃ p, Path.isAbsolute p ∧ q.toList = settlePath p := by
  obtain ⟨path, located, rfl⟩ := Option.map_eq_some_iff.1 h
  rw [String.toList_ofList]
  exact rooted.locate? absolute located

/-- In a file with an absolute path every import that leads somewhere leads to an absolute path. -/
theorem Rooted.resolve? {r : Resolver} (rooted : r.Rooted) {specifier importer q : String}
    (absolute : Path.isAbsolute importer.toList) (h : r.resolve? specifier importer = some q) :
    Path.isAbsolute q.toList := by
  obtain ⟨p, full, settled⟩ := rooted.exists_settlePath absolute h
  exact settled ▸ isAbsolute_settlePath full

theorem Rooted.withCompilerOptions {r : Resolver} (rooted : r.Rooted) {directory : List Char}
    (absolute : Path.isAbsolute directory) (document : Json) :
    (r.withCompilerOptions directory document).Rooted := by
  rw [Resolver.withCompilerOptions]
  split
  · exact rooted
  · refine ⟨rooted.root, fun base set => ?_⟩
    simp only at set
    split at set
    · obtain rfl := Option.some.inj set
      exact Path.isAbsolute_normalize (Path.isAbsolute_joined absolute _)
    · obtain rfl := Option.some.inj set
      exact absolute
    · cases set

theorem Rooted.withPackage {r : Resolver} (rooted : r.Rooted) (document : Json) :
    (r.withPackage document).Rooted := by
  rw [Resolver.withPackage]
  split
  · exact rooted
  · exact ⟨rooted.root, rooted.baseUrl⟩

theorem Rooted.withProjectFile {r : Resolver} (rooted : r.Rooted) (t : FileTree)
    (name : List Char) {root : List Char} {add : Resolver → List Char → Json → Resolver}
    (adds : ∀ d ∈ Path.ancestors (maxParents + 1) root, ∀ document, (add r d document).Rooted) :
    (r.withProjectFile t root name add).Rooted := by
  rw [Resolver.withProjectFile]
  split
  · rename_i d held
    split
    · exact adds d (List.mem_of_find?_eq_some held) _
    · exact rooted
  · exact rooted

/-- The rules of a project with an absolute root start at absolute paths. -/
theorem rooted_load (t : FileTree) {root : List Char} (absolute : Path.isAbsolute root) :
    (load t root).Rooted := by
  have normal := Path.isAbsolute_normalize absolute
  have bare : Rooted { root := Path.normalize root } := ⟨normal, fun base set => by cases set⟩
  have compiled := bare.withProjectFile t compilerFile fun d up document =>
    bare.withCompilerOptions (Path.isAbsolute_ancestors normal d up) document
  rw [load]
  exact compiled.withProjectFile t packageFile fun _ _ document => compiled.withPackage document

end Resolver

end SourceAtlas
