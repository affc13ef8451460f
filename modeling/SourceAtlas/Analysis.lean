import SourceAtlas.Catalog.Snapshot
import SourceAtlas.Discovery
import SourceAtlas.Workspace
/-!
The analysis of a project: its files are found, read in batches and recorded, and the catalog is
cached. An analysis of the same project with the same patterns is served from the cache as long as
the entry lives, unless it is forced. A refused analysis changes nothing, which the type of `analyze`
says already.
-/

namespace SourceAtlas

/-- What is asked of an analysis. Empty pattern lists mean the settings' own. -/
structure AnalyzeOptions where
  projectPath : String := ""
  included : List String := []
  excluded : List String := []
  force : Bool := false
  deriving DecidableEq, Repr

/-- The options that a document gives. -/
def AnalyzeOptions.ofJson? (j : Json) : Option AnalyzeOptions := do
  let fs ← j.fields? ["projectPath", "includePatterns", "excludePatterns", "forceReindex"] 0
  let projectPath ← Json.defaulting fs "projectPath" Json.string? ""
  let included ← Json.defaulting fs "includePatterns" (Json.list? Json.string?) []
  let excluded ← Json.defaulting fs "excludePatterns" (Json.list? Json.string?) []
  let force ← Json.defaulting fs "forceReindex" Json.bool? false
  return ⟨projectPath, included, excluded, force⟩

/-- The totals that an analysis reports. -/
structure AnalysisSummary where
  totalFiles : Nat
  totalSymbols : Nat
  totalRoutes : Nat
  totalDependencies : Nat
  fromCache : Bool
  deriving DecidableEq, Repr

namespace AnalysisSummary

/-- The totals of a catalog. -/
def ofCatalog (c : Catalog) (fromCache : Bool) : AnalysisSummary :=
  let s := c.stats
  ⟨s.totalFiles, s.totalSymbols, s.totalRoutes, s.totalDependencies, fromCache⟩

/-- The written form of the totals. The clock stands still while a request is answered, so the
duration is 0. -/
def toJson (s : AnalysisSummary) : Json :=
  .object [("totalFiles", .nat s.totalFiles), ("totalMethods", .nat s.totalSymbols),
    ("totalPaths", .nat s.totalRoutes), ("totalDependencies", .nat s.totalDependencies),
    ("duration_ms", .nat 0), ("fromCache", .bool s.fromCache)]

end AnalysisSummary

/-- What an analysis leaves behind. -/
structure Analysis where
  summary : AnalysisSummary
  /-- How many files were done of how many, after each of them. -/
  progress : List (Nat × Nat)
  workspace : Workspace
  tree : FileTree

/-! ### Reading files -/

/-- What comes out of one file: its record, and what was found in its text if that is read. -/
structure ProcessedFile where
  record : FileRecord
  extraction : Option Extraction
  deriving DecidableEq, Repr

/-- The outcome for one path. A file that should be read and is no text has none. -/
def processFile (t : FileTree) (resolver : Resolver) (root path : List Char) :
    Option ProcessedFile :=
  match Discovery.record? t root path with
  | none => none
  | some f =>
    if Source.isReadable f.path then
      (t.readText? path).map fun text => ⟨f, some (Source.extract resolver text f.path)⟩
    else some ⟨f, none⟩

/-- The catalog with what came out of one file. -/
def Catalog.recordProcessed (c : Catalog) (p : ProcessedFile) : Catalog :=
  match p.extraction with
  | some x => (c.recordFile p.record).recordExtraction p.record.path x
  | none => c.recordFile p.record

/-- Where the reading of a project's files stands. -/
structure Survey where
  catalog : Catalog := .empty
  /-- The number of files behind it. -/
  done : Nat := 0
  /-- How many files were done of how many, after each of them; the last report first. -/
  reports : List (Nat × Nat) := []

namespace Survey

/-- One outcome is taken in and reported. A file without one is counted and passed over. -/
def advance (total : Nat) (s : Survey) (outcome : Option ProcessedFile) : Survey :=
  { catalog := match outcome with
      | some p => s.catalog.recordProcessed p
      | none => s.catalog
    done := s.done + 1
    reports := (s.done + 1, total) :: s.reports }

/-- A batch is processed as a whole; then its outcomes are taken in, each beside its path. -/
def advanceBatch (process : List Char → Option ProcessedFile) (total : Nat) (s : Survey)
    (batch : List (List Char)) : Survey :=
  (batch.zip (batch.map process)).foldl (fun s e => s.advance total e.2) s

end Survey

/-- The items in batches of a size of at least one. `fuel` bounds their number. -/
def inBatches (size : Nat) : (fuel : Nat) → List α → List (List α)
  | 0, _ => []
  | _, [] => []
  | fuel + 1, items => items.take (max size 1) :: inBatches size fuel (items.drop (max size 1))

/-- The survey of files that are read batch by batch. -/
def Survey.ofFiles (t : FileTree) (resolver : Resolver) (root : List Char) (batchSize : Nat)
    (files : List (List Char)) : Survey :=
  (inBatches batchSize files.length files).foldl
    (Survey.advanceBatch (processFile t resolver root) files.length) {}

/-! ### Analyzing -/

namespace Workspace

/-- The root of the project that a path names: an absolute path to a directory, normalized. -/
def projectRoot (t : FileTree) (path : String) : Except Fault String :=
  if !Path.isAbsolute path.toList then .error (.relativeProject path)
  else if !t.isDirectory path.toList then .error (.notADirectory path)
  else .ok (Path.normalized path)

/-- The catalog in the cache under a key, if it may be used. -/
def restore (w : Workspace) (t : FileTree) (now : Int) (key : String) :
    Option Catalog × Cache × FileTree :=
  if w.config.cache.enabled then
    let (data, cache, t) := w.cache.get t now key
    ((data.bind Snapshot.ofJson?).map Catalog.ofSnapshot, cache, t)
  else (none, w.cache, t)

/-- The workspace with a catalog made from the files, and the cache with its snapshot. -/
def build (w : Workspace) (t : FileTree) (now : Int) (key root : String) (filter : FileFilter) :
    Analysis :=
  let files := Discovery.files t root.toList filter
  let survey := Survey.ofFiles t w.resolver root.toList w.config.indexing.batchSize files
  let catalog := { survey.catalog with lastIndexed := now }
  let (cache, tree) :=
    if w.config.cache.enabled then
      w.cache.set t now key catalog.toSnapshot.toJson (some w.config.cache.ttl)
    else (w.cache, t)
  { summary := .ofCatalog catalog false
    progress := survey.reports.reverse
    workspace := { w with catalog, cache }
    tree }

/-- The analysis of a project whose root is known. -/
def analyzeRoot (w : Workspace) (t : FileTree) (now : Int) (root : String)
    (included excluded : List String) (force : Bool) : Analysis :=
  let key := analysisKey root included excluded
  let filter := FileFilter.ofPatterns included excluded
  if force then
    let (cache, t) := w.cache.delete t key
    let w := { w.reset with cache, resolver := Resolver.load t root.toList, root := some root }
    w.build t now key root filter
  else
    let w := { w with resolver := Resolver.load t root.toList, root := some root }
    match w.restore t now key with
    | (some catalog, cache, tree) =>
      { summary := .ofCatalog catalog true, progress := []
        workspace := { w with catalog, cache }, tree }
    | (none, cache, tree) => { w with cache }.build tree now key root filter

/-- The analysis of a project. -/
def analyze (w : Workspace) (t : FileTree) (now : Int) (o : AnalyzeOptions) :
    Except Fault Analysis :=
  match projectRoot t o.projectPath with
  | .error fault => .error fault
  | .ok root =>
    let included := if o.included.isEmpty then w.config.indexing.included else o.included
    let excluded := if o.excluded.isEmpty then w.config.indexing.excluded else o.excluded
    .ok (w.analyzeRoot t now root included excluded o.force)

end Workspace

end SourceAtlas
