import SourceAtlas.Catalog.TextMap
import SourceAtlas.Source.Extraction
/-!
The catalog of one project: its files, and under the path of each file that was read the symbols,
routes and dependencies found in it.
-/

namespace SourceAtlas

/-- What is known of a project. -/
structure Catalog where
  files : TextMap FileRecord := .empty
  symbols : TextMap (List SymbolRecord) := .empty
  routes : TextMap (List RouteRecord) := .empty
  dependencies : TextMap (List DependencyEdge) := .empty
  /-- When the catalog was made, in milliseconds; 0 before that. -/
  lastIndexed : Int := 0
  deriving DecidableEq, Inhabited

/-- Totals of a catalog. -/
structure CatalogStats where
  totalFiles : Nat
  totalSymbols : Nat
  totalRoutes : Nat
  totalDependencies : Nat
  resolvedDependencies : Nat
  /-- The kinds that occur, by the order of their words. -/
  symbolsByKind : TextMap Nat
  lastIndexed : Int
  deriving DecidableEq

namespace Catalog

/-- The catalog without files. -/
def empty : Catalog := {}

/-- No file is recorded. -/
def isEmpty (c : Catalog) : Bool := c.files.entries.isEmpty

/-- The catalog with a file recorded, in place of an earlier record of its path. -/
def recordFile (c : Catalog) (f : FileRecord) : Catalog := { c with files := c.files.insert f.path f }

/-- The catalog with what was found in a recorded file. -/
def recordExtraction (c : Catalog) (path : String) (x : Extraction) : Catalog :=
  { c with
    symbols := c.symbols.insert path x.symbols
    routes := c.routes.insert path x.routes
    dependencies := c.dependencies.insert path x.dependencies }

/-- The record of a file. -/
def file? (c : Catalog) (path : String) : Option FileRecord := c.files.get? path

/-- The symbols of one file. -/
def symbolsIn (c : Catalog) (path : String) : List SymbolRecord := (c.symbols.get? path).getD []

/-- The routes of one file. -/
def routesIn (c : Catalog) (path : String) : List RouteRecord := (c.routes.get? path).getD []

/-- The edges of one file. -/
def dependenciesIn (c : Catalog) (path : String) : List DependencyEdge :=
  (c.dependencies.get? path).getD []

/-- All symbols, file by file. -/
def allSymbols (c : Catalog) : List SymbolRecord := c.symbols.values.flatten

/-- All routes, file by file. -/
def allRoutes (c : Catalog) : List RouteRecord := c.routes.values.flatten

/-- All edges, file by file. -/
def allDependencies (c : Catalog) : List DependencyEdge := c.dependencies.values.flatten

/-- The number of symbols of each kind that occurs. -/
def kindCounts (c : Catalog) : TextMap Nat :=
  c.allSymbols.foldl
    (fun counts s => counts.insert s.kind.word ((counts.get? s.kind.word).getD 0 + 1)) .empty

/-- The totals of the catalog. -/
def stats (c : Catalog) : CatalogStats :=
  { totalFiles := c.files.size
    totalSymbols := c.allSymbols.length
    totalRoutes := c.allRoutes.length
    totalDependencies := c.allDependencies.length
    resolvedDependencies := (c.allDependencies.filter (·.resolved.isSome)).length
    symbolsByKind := c.kindCounts
    lastIndexed := c.lastIndexed }

end Catalog

/-- The written form of the totals. -/
def CatalogStats.toJson (s : CatalogStats) : Json :=
  .object [("totalFiles", .nat s.totalFiles), ("totalSymbols", .nat s.totalSymbols),
    ("totalRoutes", .nat s.totalRoutes), ("totalDependencies", .nat s.totalDependencies),
    ("resolvedDependencies", .nat s.resolvedDependencies),
    ("symbolsByKind", .object (s.symbolsByKind.entries.map fun e => (e.1, .nat e.2))),
    ("lastIndexed", .int s.lastIndexed)]

end SourceAtlas
