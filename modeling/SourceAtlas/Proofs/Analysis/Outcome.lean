import SourceAtlas.Analysis
import SourceAtlas.Proofs.Cache.Files
import SourceAtlas.Proofs.Import.Rooted
/-!
What an analysis can do. It is about a *subject*: the root of a project and the patterns in force.
It asks the cache first, and then either puts the catalog it was given in place or builds a new one
from the files. The statements about whole runs rest on these two cases.
-/

namespace SourceAtlas

/-- What an analysis is about. -/
structure Subject where
  root : String
  included : List String
  excluded : List String
  deriving DecidableEq, Repr

namespace Subject

/-- The key of a subject in the cache. -/
def key (s : Subject) : String := analysisKey s.root s.included s.excluded

theorem key_ne (s : Subject) : s.key ≠ "" := by
  intro empty
  have chars := congrArg String.toList empty
  simp [key, analysisKey] at chars

/-- The filter of a subject's files. -/
def filter (s : Subject) : FileFilter := .ofPatterns s.included s.excluded

/-- The paths of a subject's files. -/
def paths (s : Subject) (t : FileTree) : List (List Char) := Discovery.files t s.root.toList s.filter

end Subject

namespace Workspace

variable {w : Workspace} {t : FileTree} {now : Int}

/-- The subject of an analysis: empty pattern lists mean the settings' own. -/
def subject (w : Workspace) (t : FileTree) (o : AnalyzeOptions) : Except Fault Subject :=
  (projectRoot t o.projectPath).map fun root =>
    { root
      included := if o.included.isEmpty then w.config.indexing.included else o.included
      excluded := if o.excluded.isEmpty then w.config.indexing.excluded else o.excluded }

/-- What the cache says before files are read, and what is left of cache and tree. A forced analysis
deletes the entry and asks nothing. -/
def consult (w : Workspace) (t : FileTree) (now : Int) (key : String) (force : Bool) :
    Option Catalog × Cache × FileTree :=
  if force then (none, w.cache.delete t key) else w.restore t now key

/-- The workspace that is about to work on a subject. -/
def onto (w : Workspace) (cache : Cache) (loaded : FileTree) (s : Subject) : Workspace :=
  { w with cache, resolver := Resolver.load loaded s.root.toList, root := some s.root }

theorem projectRoot_eq_ok {path root : String} (h : projectRoot t path = .ok root) :
    Path.isAbsolute path.toList ∧ root = Path.normalized path := by
  rw [projectRoot] at h
  split at h
  · cases h
  · rename_i absolute
    split at h
    · cases h
    · exact ⟨by simpa using absolute, (Except.ok.inj h).symm⟩

theorem projectRoot_of_subject {o : AnalyzeOptions} {s : Subject} (h : w.subject t o = .ok s) :
    projectRoot t o.projectPath = .ok s.root := by
  rw [subject] at h
  cases project : projectRoot t o.projectPath with
  | error fault =>
    rw [project] at h
    cases h
  | ok root =>
    rw [project] at h
    rw [← Except.ok.inj h]

/-- The root of a subject is an absolute path. -/
theorem isAbsolute_root {o : AnalyzeOptions} {s : Subject} (h : w.subject t o = .ok s) :
    Path.isAbsolute s.root.toList := by
  obtain ⟨absolute, root⟩ := projectRoot_eq_ok (projectRoot_of_subject h)
  rw [root, Path.normalized, String.toList_ofList]
  exact Path.isAbsolute_normalize absolute

/-- The root of a subject is in normal form. -/
theorem normalize_root {o : AnalyzeOptions} {s : Subject} (h : w.subject t o = .ok s) :
    Path.normalize s.root.toList = s.root.toList := by
  obtain ⟨_, root⟩ := projectRoot_eq_ok (projectRoot_of_subject h)
  rw [root, Path.normalized, String.toList_ofList, Path.normalize_normalize]

theorem analyze_eq (w : Workspace) (t : FileTree) (now : Int) (o : AnalyzeOptions) :
    w.analyze t now o =
      (w.subject t o).map fun s => w.analyzeRoot t now s.root s.included s.excluded o.force := by
  rw [analyze, subject]
  cases projectRoot t o.projectPath <;> rfl

theorem analyze_eq_ok {o : AnalyzeOptions} {a : Analysis} (h : w.analyze t now o = .ok a) :
    ∃ s, w.subject t o = .ok s ∧ a = w.analyzeRoot t now s.root s.included s.excluded o.force := by
  rw [analyze_eq] at h
  cases subject : w.subject t o with
  | error fault =>
    rw [subject] at h
    cases h
  | ok s =>
    rw [subject] at h
    exact ⟨s, rfl, (Except.ok.inj h).symm⟩

/-- What the cache says depends on the cache and on whether it is in use. -/
theorem restore_congr {v : Workspace} (cache : v.cache = w.cache)
    (enabled : v.config.cache.enabled = w.config.cache.enabled) (key : String) :
    v.restore t now key = w.restore t now key := by
  unfold restore
  rw [cache, enabled]

theorem consult_forced (key : String) :
    w.consult t now key true = (none, w.cache.delete t key) := by
  unfold consult
  exact if_pos rfl

theorem consult_unforced (key : String) : w.consult t now key false = w.restore t now key := by
  unfold consult
  exact if_neg (by decide)

/-- A catalog that the cache gives is put in place. -/
theorem analyzeRoot_restored {s : Subject} {force : Bool} {catalog : Catalog} {cache : Cache}
    {u : FileTree} (h : w.consult t now s.key force = (some catalog, cache, u)) :
    w.analyzeRoot t now s.root s.included s.excluded force =
      { summary := .ofCatalog catalog true, progress := []
        workspace := { w.onto cache t s with catalog }, tree := u } := by
  cases force with
  | true => cases h
  | false =>
    rw [consult_unforced, ← restore_congr (w := w) (v := w.onto w.cache t s) rfl rfl] at h
    unfold analyzeRoot
    simp only [Bool.false_eq_true, if_false]
    unfold onto Subject.key at h
    rw [h]
    rfl

/-- Otherwise the catalog is built from the files that are there after the cache was asked. -/
theorem analyzeRoot_built {s : Subject} {force : Bool} {cache : Cache} {u : FileTree}
    (h : w.consult t now s.key force = (none, cache, u)) :
    w.analyzeRoot t now s.root s.included s.excluded force =
      (w.onto cache (if force then u else t) s).build u now s.key s.root s.filter := by
  cases force with
  | true =>
    obtain ⟨rfl, rfl⟩ := Prod.mk.inj (Prod.mk.inj h).2
    rfl
  | false =>
    rw [consult_unforced, ← restore_congr (w := w) (v := w.onto w.cache t s) rfl rfl] at h
    unfold analyzeRoot
    simp only [Bool.false_eq_true, if_false]
    unfold onto Subject.key at h
    rw [h]
    rfl

/-- Every analysis is one or the other, and says which. -/
theorem analyzeRoot_cases (w : Workspace) (t : FileTree) (now : Int) (s : Subject) (force : Bool) :
    (∃ catalog cache u, w.consult t now s.key force = (some catalog, cache, u) ∧
      w.analyzeRoot t now s.root s.included s.excluded force =
        { summary := .ofCatalog catalog true, progress := []
          workspace := { w.onto cache t s with catalog }, tree := u }) ∨
    ∃ cache u, w.consult t now s.key force = (none, cache, u) ∧
      w.analyzeRoot t now s.root s.included s.excluded force =
        (w.onto cache (if force then u else t) s).build u now s.key s.root s.filter := by
  rcases consulted : w.consult t now s.key force with ⟨catalog, cache, u⟩
  cases catalog with
  | some catalog => exact .inl ⟨catalog, cache, u, rfl, analyzeRoot_restored consulted⟩
  | none => exact .inr ⟨cache, u, rfl, analyzeRoot_built consulted⟩

theorem config_analyzeRoot (w : Workspace) (t : FileTree) (now : Int) (s : Subject) (force : Bool) :
    (w.analyzeRoot t now s.root s.included s.excluded force).workspace.config = w.config := by
  rcases w.analyzeRoot_cases t now s force with ⟨_, _, _, _, result⟩ | ⟨_, _, _, result⟩
  · rw [result]
    rfl
  · rw [result]
    rfl

theorem root_analyzeRoot (w : Workspace) (t : FileTree) (now : Int) (s : Subject) (force : Bool) :
    (w.analyzeRoot t now s.root s.included s.excluded force).workspace.root = some s.root := by
  rcases w.analyzeRoot_cases t now s force with ⟨_, _, _, _, result⟩ | ⟨_, _, _, result⟩
  · rw [result]
    rfl
  · rw [result]
    rfl

/-! ### The tree after the cache was asked -/

variable {key : String} {force : Bool}

/-- The cache keeps its directory, and the tree may lose the file of the subject's own entry. -/
theorem consult_spec (w : Workspace) (t : FileTree) (now : Int) (key : String) (force : Bool) :
    (w.consult t now key force).2.1.directory = w.cache.directory ∧
      ((w.consult t now key force).2.2 = t ∨
        (w.consult t now key force).2.2 = w.cache.dropFile t key) := by
  cases force with
  | true =>
    rw [consult_forced]
    exact ⟨by simp only [Cache.delete], .inr (by simp only [Cache.delete])⟩
  | false =>
    rw [consult_unforced]
    unfold restore
    split
    · exact ⟨w.cache.get_directory t now key, w.cache.get_tree_cases t now key⟩
    · exact ⟨rfl, .inl rfl⟩

/-- So the files are read from the given tree, that file apart. -/
theorem consult_tree_cases (w : Workspace) (t : FileTree) (now : Int) (key : String) (force : Bool) :
    (w.consult t now key force).2.2 = t ∨
      ∃ p, t.entry? (w.cache.pathOf key) = some p ∧ t.hasDirectory p = false ∧
        (w.consult t now key force).2.2 = t.prune p := by
  rcases (w.consult_spec t now key force).2 with same | drop
  · exact .inl same
  · rw [drop]
    exact w.cache.dropFile_cases t key

theorem wellFormed_consult (wf : t.WellFormed) : (w.consult t now key force).2.2.WellFormed := by
  rcases (w.consult_spec t now key force).2 with same | dropped
  · rw [same]
    exact wf
  · rw [dropped]
    exact Cache.wellFormed_dropFile wf w.cache key

end Workspace

end SourceAtlas
