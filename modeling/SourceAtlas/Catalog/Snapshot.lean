import SourceAtlas.Catalog.Basic
import SourceAtlas.Record.Json
/-!
The snapshot of a catalog: each of its maps as a list of pairs. A catalog is rebuilt from any
snapshot, also from one whose pairs are out of order or name a path twice.
-/

namespace SourceAtlas

/-- The persistent form of a catalog. -/
structure Snapshot where
  files : List (String × FileRecord)
  symbols : List (String × List SymbolRecord)
  routes : List (String × List RouteRecord)
  dependencies : List (String × List DependencyEdge)
  lastIndexed : Int
  deriving DecidableEq, Repr

namespace Catalog

/-- The snapshot of a catalog. -/
def toSnapshot (c : Catalog) : Snapshot :=
  ⟨c.files.entries, c.symbols.entries, c.routes.entries, c.dependencies.entries, c.lastIndexed⟩

/-- The catalog of a snapshot. -/
def ofSnapshot (s : Snapshot) : Catalog :=
  ⟨.ofList s.files, .ofList s.symbols, .ofList s.routes, .ofList s.dependencies, s.lastIndexed⟩

end Catalog

namespace Snapshot

/-- Pairs as arrays of two. -/
def pairs (write : α → Json) (entries : List (String × α)) : Json :=
  .array (entries.map fun e => .array [.string e.1, write e.2])

/-- The written form of a snapshot. -/
def toJson (s : Snapshot) : Json :=
  .object [("files", pairs FileRecord.toJson s.files),
    ("symbols", pairs (fun l => .array (l.map SymbolRecord.toJson)) s.symbols),
    ("routes", pairs (fun l => .array (l.map RouteRecord.toJson)) s.routes),
    ("dependencies", pairs (fun l => .array (l.map DependencyEdge.toJson)) s.dependencies),
    ("lastIndexed", .int s.lastIndexed)]

/-- Pairs read back. -/
def pairs? (read : Json → Option α) : Json → Option (List (String × α)) :=
  Json.list? (Json.twoOf? Json.string? read)

/-- The snapshot that a document describes. -/
def ofJson? (j : Json) : Option Snapshot := do
  let fs ← j.fields? ["files", "symbols", "routes", "dependencies", "lastIndexed"] 5
  let files ← Json.required fs "files" (pairs? FileRecord.ofJson?)
  let symbols ← Json.required fs "symbols" (pairs? (Json.list? SymbolRecord.ofJson?))
  let routes ← Json.required fs "routes" (pairs? (Json.list? RouteRecord.ofJson?))
  let dependencies ← Json.required fs "dependencies" (pairs? (Json.list? DependencyEdge.ofJson?))
  let lastIndexed ← Json.required fs "lastIndexed" Json.int?
  return ⟨files, symbols, routes, dependencies, lastIndexed⟩

end Snapshot

end SourceAtlas
