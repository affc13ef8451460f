import SourceAtlas.Analysis
import SourceAtlas.Query.Dependency
import SourceAtlas.Query.Listing
import SourceAtlas.Query.Search
import SourceAtlas.Query.Usage
import SourceAtlas.Rpc.Tool
/-!
Calls of tools. A call reads its arguments leniently: an argument of the wrong type, or an empty
text, counts as missing. Only the analysis of a project changes the workspace.
-/

namespace SourceAtlas.Rpc

/-- The arguments of a call. -/
abbrev Arguments := List (String × Json)

namespace Arguments

/-- A text that is not empty. -/
def text? (a : Arguments) (name : String) : Option String :=
  ((a.lookup name).bind Json.string?).filter (!·.isEmpty)

/-- A text that must be there. -/
def text (a : Arguments) (name : String) : Except Fault String :=
  match a.text? name with
  | some s => .ok s
  | none => .error (.missingParameter name)

/-- A truth value, false when missing. -/
def flag (a : Arguments) (name : String) : Bool := ((a.lookup name).bind Json.bool?).getD false

/-- A number that is not negative. -/
def count? (a : Arguments) (name : String) : Option Nat := (a.lookup name).bind Json.nat?

/-- The texts in a list. -/
def texts (a : Arguments) (name : String) : List String :=
  (((a.lookup name).bind Json.array?).getD []).filterMap Json.string?

end Arguments

/-- The depth of a walk along dependencies when a call does not say. -/
def defaultDepth : Nat := 3

/-- The options of an analysis. -/
def analyzeOptions (a : Arguments) : Except Fault AnalyzeOptions := do
  let projectPath ← a.text "projectPath"
  return ⟨projectPath, a.texts "includePatterns", a.texts "excludePatterns", a.flag "forceReindex"⟩

/-- The answer to a search for symbols. -/
def searchSymbols (w : Workspace) (a : Arguments) : Except Fault Json := do
  let query ← a.text "query"
  let kind ← SymbolKind.parseFilter ((a.text? "kind").getD "all")
  let limit := min ((a.count? "limit").getD w.config.query.searchLimit) w.config.query.searchLimit
  let atlas ← w.atlas
  return (atlas.search query kind (a.flag "includeUsages") limit).toJson

/-- The answer to a search for usages. -/
def findUsages (w : Workspace) (a : Arguments) : Except Fault Json := do
  let scope ← UsageScope.parse ((a.text? "searchType").getD "both")
  let atlas ← w.atlas
  let found ← atlas.usages ⟨a.text? "filePath", a.text? "methodName", a.text? "className", scope⟩
  return .object [("usages", .array ((found.take w.config.query.usageLimit).map UsageRecord.toJson)),
    ("totalCount", .nat found.length)]

/-- The answer to a question for dependencies. -/
def findDependencies (w : Workspace) (a : Arguments) : Except Fault Json := do
  let entity ← a.text "entityName"
  let direction ← Direction.parse ((a.text? "direction").getD "both")
  let depth := min ((a.count? "depth").getD defaultDepth) (min w.config.query.maxDepth maxHops)
  let atlas ← w.atlas
  return (atlas.dependencies entity direction depth).toJson

/-- The answer to a question for routes. -/
def listRoutes (w : Workspace) (a : Arguments) : Except Fault Json := do
  let method ← match a.text? "method" with
    | some m => (HttpMethod.parse m).map some
    | none => .ok none
  let atlas ← w.atlas
  let routes := atlas.routes method (a.text? "pathContains")
  return .object [("routes", .array (routes.map RouteRecord.toJson)),
    ("totalCount", .nat routes.length)]

/-- The answer to a question for one file. -/
def getFileSymbols (w : Workspace) (a : Arguments) : Except Fault Json := do
  let path ← a.text "filePath"
  let atlas ← w.atlas
  match atlas.outline? path with
  | some outline => return outline.toJson
  | none => .error (.unknownFile path)

/-- The answer to a question for the totals. -/
def indexStats (w : Workspace) : Except Fault Json := do
  let atlas ← w.atlas
  return atlas.catalog.stats.toJson

/-- The answer to a question. -/
def answerTo (w : Workspace) (a : Arguments) : Question → Except Fault Json
  | .searchSymbols => searchSymbols w a
  | .findUsages => findUsages w a
  | .findDependencies => findDependencies w a
  | .listRoutes => listRoutes w a
  | .getFileSymbols => getFileSymbols w a
  | .indexStats => indexStats w

/-- What a tool reports: the members of its answer behind a mark of success, or the fault. -/
def report : Except Fault Json → Json
  | .ok (.object members) => .object (("success", .bool true) :: members)
  | .ok other => .object [("success", .bool true), ("result", other)]
  | .error fault => .object [("success", .bool false), ("error", .string fault.message)]

/-- The workspace and the files behind a call, and what the tool reports. -/
def call (w : Workspace) (t : FileTree) (now : Int) (a : Arguments) :
    Tool → Workspace × FileTree × Json
  | .analyzeProject =>
    match (analyzeOptions a).bind (w.analyze t now) with
    | .ok analysis => (analysis.workspace, analysis.tree, report (.ok analysis.summary.toJson))
    | .error fault => (w, t, report (.error fault))
  | .ask question => (w, t, report (answerTo w a question))

end SourceAtlas.Rpc
