import SourceAtlas.Json.Basic
/-!
The tools and resources that the server offers, as it describes them.
-/

namespace SourceAtlas.Rpc

/-- A question about the analyzed project. -/
inductive Question where
  | searchSymbols
  | findUsages
  | findDependencies
  | listRoutes
  | getFileSymbols
  | indexStats
  deriving DecidableEq, Repr

/-- A tool of the server: the analysis of a project, or a question. -/
inductive Tool where
  | analyzeProject
  | ask (question : Question)
  deriving DecidableEq, Repr

namespace Tool

/-- All tools, in the order in which they are listed. -/
def all : List Tool :=
  [analyzeProject, ask .searchSymbols, ask .findUsages, ask .findDependencies, ask .listRoutes,
    ask .getFileSymbols, ask .indexStats]

/-- The name by which a tool is called. -/
def name : Tool → String
  | analyzeProject => "analyze_project"
  | ask .searchSymbols => "search_symbols"
  | ask .findUsages => "find_usages"
  | ask .findDependencies => "find_dependencies"
  | ask .listRoutes => "list_routes"
  | ask .getFileSymbols => "get_file_symbols"
  | ask .indexStats => "index_stats"

/-- The tool of a name. -/
def ofName? (n : String) : Option Tool := all.find? (·.name == n)

/-- What a tool does. -/
def description : Tool → String
  | analyzeProject => "Index a TypeScript/JavaScript project (restored from cache when possible)"
  | ask .searchSymbols => "Search functions, methods, classes, interfaces, types and enums by name"
  | ask .findUsages =>
    "Find the files importing a file, or dependency edges mentioning a method or class name"
  | ask .findDependencies => "Walk the import graph around a file or name"
  | ask .listRoutes => "List HTTP route declarations"
  | ask .getFileSymbols => "Symbols, routes and imports recorded for one file"
  | ask .indexStats => "Get index statistics"

/-- The description of a parameter: its type, and more. -/
def parameter (name type : String) (more : List (String × Json)) : String × Json :=
  (name, .object (("type", .string type) :: more))

/-- The member that describes a parameter. -/
def about (text : String) : String × Json := ("description", .string text)

/-- The member that lists the words of a parameter. -/
def words (list : List String) : String × Json := ("enum", .array (list.map .string))

/-- The member that gives a parameter's default. -/
def default (value : Json) : String × Json := ("default", value)

/-- The parameters of a tool. -/
def parameters : Tool → List (String × Json)
  | analyzeProject =>
    let patterns := ("items", Json.object [("type", .string "string")])
    [parameter "projectPath" "string" [about "Absolute path of the project root"],
      parameter "includePatterns" "array" [patterns, about "Glob patterns to include"],
      parameter "excludePatterns" "array" [patterns, about "Glob patterns to exclude"],
      parameter "forceReindex" "boolean" [default (.bool false), about "Ignore any cached index"]]
  | ask .searchSymbols =>
    [parameter "query" "string" [about "Case-insensitive name fragment"],
      parameter "kind" "string"
        [words ["method", "function", "class", "interface", "type", "enum", "variable", "all"],
          default (.string "all")],
      parameter "includeUsages" "boolean" [default (.bool false)],
      parameter "limit" "integer" [default (.nat 50), about "Maximum number of results"]]
  | ask .findUsages =>
    [parameter "filePath" "string" [about "Project-relative or absolute file path"],
      parameter "methodName" "string" [],
      parameter "className" "string" [],
      parameter "searchType" "string" [words ["imports", "usages", "both"], default (.string "both")]]
  | ask .findDependencies =>
    [parameter "entityName" "string" [],
      parameter "direction" "string"
        [words ["incoming", "outgoing", "both"], default (.string "both")],
      parameter "depth" "integer" [("minimum", .nat 1), ("maximum", .nat 10), default (.nat 3)]]
  | ask .listRoutes =>
    [parameter "method" "string" [about "HTTP verb filter"],
      parameter "pathContains" "string" [about "Substring of the route path"]]
  | ask .getFileSymbols => [parameter "filePath" "string" [about "Project-relative or absolute file path"]]
  | ask .indexStats => []

/-- The parameters that a tool cannot do without. -/
def requiredParameters : Tool → List String
  | analyzeProject => ["projectPath"]
  | ask .searchSymbols => ["query"]
  | ask .findDependencies => ["entityName"]
  | ask .getFileSymbols => ["filePath"]
  | _ => []

/-- The description of a tool. -/
def toJson (t : Tool) : Json :=
  let required := match t.requiredParameters with
    | [] => []
    | names => [("required", Json.array (names.map .string))]
  .object [("name", .string t.name), ("description", .string t.description),
    ("inputSchema", .object
      ([("type", .string "object"), ("properties", .object t.parameters)] ++ required))]

end Tool

/-- A resource of the server. -/
inductive Resource where
  | stats
  | routes
  deriving DecidableEq, Repr

namespace Resource

/-- All resources, in the order in which they are listed. -/
def all : List Resource := [stats, routes]

/-- The address of a resource. -/
def uri : Resource → String
  | stats => "tsgraph://stats"
  | routes => "tsgraph://routes"

/-- The resource at an address. -/
def ofUri? (u : String) : Option Resource := all.find? (·.uri == u)

/-- The name of a resource. -/
def name : Resource → String
  | stats => "Index statistics"
  | routes => "HTTP routes"

/-- What a resource holds. -/
def description : Resource → String
  | stats => "File, symbol, route and dependency totals for the analyzed project"
  | routes => "Every HTTP route declaration found in the analyzed project"

/-- The description of a resource. -/
def toJson (r : Resource) : Json :=
  .object [("uri", .string r.uri), ("name", .string r.name), ("description", .string r.description),
    ("mimeType", .string "application/json")]

end Resource

end SourceAtlas.Rpc
