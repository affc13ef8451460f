import SourceAtlas.Cache
import SourceAtlas.Config
import SourceAtlas.Digest.Blake3
import SourceAtlas.Query.Basic
/-!
The state that requests work on: the settings, the catalog of the project that was analyzed last, the
rules of its imports, its root, and the cache of catalogs.
-/

namespace SourceAtlas

/-- The state between requests. -/
structure Workspace where
  config : Config
  catalog : Catalog := .empty
  resolver : Resolver := {}
  /-- The root of the analyzed project; there is none before the first analysis. -/
  root : Option String := none
  cache : Cache

namespace Workspace

/-- A workspace with nothing analyzed. The cache stands in `fallback` unless the settings say
where. -/
def create (config : Config) (fallback : String) : Workspace :=
  { config, cache := ⟨(config.cache.directory.getD fallback).toList, .empty⟩ }

/-- The workspace with nothing analyzed and its cache kept. -/
def reset (w : Workspace) : Workspace :=
  { w with catalog := .empty, resolver := {}, root := none }

/-- What queries look at, once a project is analyzed. -/
def atlas (w : Workspace) : Except Fault Atlas :=
  match w.root with
  | some root => .ok ⟨w.catalog, w.resolver, root⟩
  | none => .error .notAnalyzed

end Workspace

/-! ### Cache keys -/

/-- The pattern lists as they are hashed. -/
def patternText (included excluded : List String) : String :=
  (Json.object [("includePatterns", .array (included.map .string)),
    ("excludePatterns", .array (excluded.map .string))]).compact

/-- The text that tells one analysis from another: the project and both pattern lists. -/
def analysisText (root : String) (included excluded : List String) : String :=
  root ++ patternText included excluded

/-- The key of an analysis: the first sixteen digits of the hash of its text, and the project. -/
def analysisKey (root : String) (included excluded : List String) : String :=
  let digest := Blake3.hash (analysisText root included excluded).toUTF8.toList
  "analysis_" ++ .ofList (digest.take 16) ++ "_" ++ root

end SourceAtlas
