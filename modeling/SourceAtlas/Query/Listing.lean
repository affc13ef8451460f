import SourceAtlas.Query.Basic
import SourceAtlas.Record.Json
/-!
The routes of a project, and everything recorded for one file.
-/

namespace SourceAtlas

/-- The first route does not come behind the second. -/
def RouteRecord.before (a b : RouteRecord) : Bool :=
  if a.filePath != b.filePath then a.filePath < b.filePath else a.line ≤ b.line

/-- What is recorded for a file. -/
structure FileOutline where
  file : FileRecord
  symbols : List SymbolRecord
  routes : List RouteRecord
  dependencies : List DependencyEdge
  deriving DecidableEq, Repr

/-- The written form of an outline. -/
def FileOutline.toJson (o : FileOutline) : Json :=
  .object [("file", o.file.toJson), ("symbols", .array (o.symbols.map SymbolRecord.toJson)),
    ("routes", .array (o.routes.map RouteRecord.toJson)),
    ("dependencies", .array (o.dependencies.map DependencyEdge.toJson))]

namespace Atlas

/-- The routes of a verb whose path holds a text, by file and line; either may be left open. -/
def routes (a : Atlas) (method : Option HttpMethod) (part : Option String) : List RouteRecord :=
  (a.catalog.allRoutes.filter fun r =>
    method.all (· == r.method) && part.all (Text.within · r.path)).mergeSort RouteRecord.before

/-- What is recorded for the file that a path means. -/
def outline? (a : Atlas) (path : String) : Option FileOutline :=
  let path := a.absolute path
  (a.catalog.file? path).map fun file =>
    ⟨file, a.catalog.symbolsIn path, a.catalog.routesIn path, a.catalog.dependenciesIn path⟩

end Atlas

end SourceAtlas
