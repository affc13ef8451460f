import SourceAtlas.CommandLine.Command
import SourceAtlas.CommandLine.Moment
import SourceAtlas.Rpc.Server
/-!
What the program does with its arguments: every command but `start` writes its answer and ends, and
`start` leaves a workspace that the server works on.
-/

namespace SourceAtlas.CommandLine

/-- What surrounds a run: the files, the time, and where caches stand unless said otherwise. -/
structure Surroundings where
  tree : FileTree
  now : Int
  fallbackCache : String

/-- How a run ends. -/
structure Outcome where
  exitCode : Nat := 0
  output : String := ""
  /-- What is said about a failure. -/
  failure : Option String := none
  tree : FileTree

/-- What becomes of a run. -/
inductive Progress where
  | ended (outcome : Outcome)
  | serving (workspace : Workspace) (tree : FileTree)

/-- Lines, each with its end. -/
def unlines (lines : List String) : String := String.join (lines.map (· ++ "\n"))

/-- The project that an argument names, as an absolute path without links. -/
def projectPath (t : FileTree) (project : String) : Except String String :=
  match t.place? project.toList with
  | some place => .ok (.ofList (FileTree.placeText place))
  | none => .error ("Project directory not found: " ++ project)

/-- A fault as it is reported. -/
def reported (r : Except Fault α) : Except String α :=
  match r with
  | .ok a => .ok a
  | .error fault => .error fault.message

/-- The analysis before a query. -/
def prepare (s : Surroundings) (w : Workspace) (project : String) : Except String Analysis := do
  let path ← projectPath s.tree project
  reported (w.analyze s.tree s.now { projectPath := path })

/-! ### Answers as text -/

/-- A text followed by spaces up to a number of characters. -/
def column (width : Nat) (text : String) : String :=
  text ++ .ofList (List.replicate (width - text.length) ' ')

/-- The answer of `index`. -/
def indexLines (path : String) (s : AnalysisSummary) : List String :=
  [Rpc.programName ++ " " ++ Rpc.programVersion,
    "Project: " ++ path,
    "Index: " ++ (if s.fromCache then "restored from cache" else "rebuilt"),
    "  Files:        " ++ toString s.totalFiles,
    "  Symbols:      " ++ toString s.totalSymbols,
    "  Routes:       " ++ toString s.totalRoutes,
    "  Dependencies: " ++ toString s.totalDependencies,
    "  Duration:     0ms"]

/-- The answer of `search`. -/
def searchLines (query : String) (o : SearchOutcome) : List String :=
  if o.items.isEmpty then ["No symbols found matching '" ++ query ++ "'"]
  else
    ("Found " ++ toString o.totalCount ++ " symbols matching '" ++ query ++ "' (showing " ++
      toString o.items.length ++ ", 0ms):") ::
    o.items.flatMap fun hit =>
      ("  " ++ hit.symbol.filePath ++ ":" ++ toString hit.symbol.line ++ " - " ++ hit.symbol.name ++
        " (" ++ hit.symbol.kind.word ++ ")") ::
      (hit.usages.getD []).map ("      used at " ++ ·)

/-- The kind of a usage as a listing shows it. -/
def usageTitle : UsageKind → String
  | .importing => "Import"
  | .mentioning => "Usage"

/-- The answer of `usages`: how many there are, and those within the limit. -/
def usageLines (total : Nat) (shown : List UsageRecord) : List String :=
  if shown.isEmpty then ["No usages found"]
  else
    ("Found " ++ toString total ++ " usages:") ::
    shown.map fun u =>
      "  " ++ u.file ++ ":" ++ toString u.line ++ " [" ++ usageTitle u.kind ++ "] " ++ u.context

/-- An edge as a listing shows it. -/
def edgeLine (e : DependencyEdge) : String :=
  "    " ++ e.source ++ ":" ++ toString e.line ++ " -> " ++ e.target

/-- The answer of `deps`. -/
def dependencyLines (g : DependencyGraph) : List String :=
  ["Dependencies of '" ++ g.entity ++ "':", "  Outgoing (" ++ toString g.outgoing.length ++ "):"] ++
    g.outgoing.map edgeLine ++ ["  Incoming (" ++ toString g.incoming.length ++ "):"] ++
    g.incoming.map edgeLine

/-- The answer of `routes`. -/
def routeLines (routes : List RouteRecord) : List String :=
  if routes.isEmpty then ["No routes found"]
  else routes.map fun r =>
    "  " ++ column 7 r.method.word ++ " " ++ column 40 r.path ++ " " ++ r.filePath ++ ":" ++
      toString r.line ++ (match r.handler with
        | some h => " -> " ++ h
        | none => "")

/-- The kinds with their counts, the most frequent first. -/
def kindLines (s : CatalogStats) : List String :=
  if s.symbolsByKind.entries.isEmpty then []
  else
    let before (a b : String × Nat) : Bool := if a.2 != b.2 then b.2 < a.2 else a.1 ≤ b.1
    "  Symbols by kind:" ::
      (s.symbolsByKind.entries.mergeSort before).map fun e => "    " ++ e.1 ++ ": " ++ toString e.2

/-- The answer of `stats`. -/
def statsLines (project : String) (verbose fromCache : Bool) (directory : String)
    (s : CatalogStats) : List String :=
  [Rpc.programName ++ " statistics",
    "Project: " ++ project,
    "Index: " ++ (if fromCache then "cached" else "fresh"),
    "",
    "Index Statistics:",
    "  Total files: " ++ toString s.totalFiles,
    "  Total symbols: " ++ toString s.totalSymbols,
    "  Total routes: " ++ toString s.totalRoutes,
    "  Total dependencies: " ++ toString s.totalDependencies ++ " (" ++
      toString s.resolvedDependencies ++ " resolved)"] ++
  if verbose then
    ["", "Detailed Statistics:"] ++ kindLines s ++
      (momentText? s.lastIndexed).toList.map ("  Last indexed: " ++ ·) ++
      ["  Cache directory: " ++ directory]
  else []

/-- An answer in a format. -/
def written (format : OutputFormat) (lines : List String) (document : Json) : String :=
  match format with
  | .text => unlines lines
  | .json => document.pretty ++ "\n"

/-! ### Commands -/

/-- The files behind a command, and what it writes or why it fails. -/
abbrev Answer := FileTree × Except String String

/-- The answer of a command that works on an analyzed project. The cache keeps the analysis even when
the answer is a failure. -/
def answering (s : Surroundings) (analysis : Except String Analysis)
    (answer : Analysis → Except String String) : Answer :=
  match analysis with
  | .ok a => (a.tree, answer a)
  | .error message => (s.tree, .error message)

/-- `index`: a project is analyzed. -/
def runIndex (s : Surroundings) (w : Workspace) (project : String) (included excluded : List String)
    (force : Bool) (format : OutputFormat) : Answer :=
  match projectPath s.tree project with
  | .error message => (s.tree, .error message)
  | .ok path =>
    answering s (reported (w.analyze s.tree s.now ⟨path, included, excluded, force⟩)) fun a =>
      .ok (written format (indexLines path a.summary) a.summary.toJson)

/-- `search`: symbols are looked for. -/
def runSearch (s : Surroundings) (w : Workspace) (query project kind : String) (usages : Bool)
    (limit : Nat) (format : OutputFormat) : Answer :=
  answering s (prepare s w project) fun a => do
    let kind ← reported (SymbolKind.parseFilter kind)
    let atlas ← reported a.workspace.atlas
    let found := atlas.search query kind usages (min limit w.config.query.searchLimit)
    return written format (searchLines query found) found.toJson

/-- `usages`: usages are looked for. The scope is read before the project is analyzed. -/
def runUsages (s : Surroundings) (w : Workspace) (project : String)
    (file method class_ : Option String) (scope : String) (format : OutputFormat) : Answer :=
  match reported (UsageScope.parse scope) with
  | .error message => (s.tree, .error message)
  | .ok scope =>
    answering s (prepare s w project) fun a => do
      let atlas ← reported a.workspace.atlas
      let found ← reported (atlas.usages ⟨file, method, class_, scope⟩)
      let shown := found.take w.config.query.usageLimit
      return written format (usageLines found.length shown) (.array (shown.map UsageRecord.toJson))

/-- `deps`: dependencies are followed. -/
def runDependencies (s : Surroundings) (w : Workspace) (entity project direction : String)
    (depth : Nat) (format : OutputFormat) : Answer :=
  answering s (prepare s w project) fun a => do
    let direction ← reported (Direction.parse direction)
    let atlas ← reported a.workspace.atlas
    let graph := atlas.dependencies entity direction (min depth w.config.query.maxDepth)
    return written format (dependencyLines graph) graph.toJson

/-- `routes`: routes are listed. -/
def runRoutes (s : Surroundings) (w : Workspace) (project : String) (method path : Option String)
    (format : OutputFormat) : Answer :=
  answering s (prepare s w project) fun a => do
    let method ← match method with
      | some m => reported ((HttpMethod.parse m).map some)
      | none => .ok none
    let atlas ← reported a.workspace.atlas
    let routes := atlas.routes method path
    return written format (routeLines routes) (.array (routes.map RouteRecord.toJson))

/-- `stats`: totals are shown. -/
def runStats (s : Surroundings) (w : Workspace) (verbose : Bool) (project : String)
    (format : OutputFormat) : Answer :=
  answering s (prepare s w project) fun a =>
    let stats := a.workspace.catalog.stats
    let directory := String.ofList w.cache.directory
    .ok (written format (statsLines project verbose a.summary.fromCache directory stats)
      stats.toJson)

/-- `start`: a project may be analyzed first; an analysis that is refused does not matter. -/
def runStart (s : Surroundings) (w : Workspace) (project : Option String) (rebuild : Bool) :
    Except String (Workspace × FileTree) :=
  match project with
  | none => .ok (w, s.tree)
  | some project =>
    match projectPath s.tree project with
    | .error message => .error message
    | .ok path =>
      match w.analyze s.tree s.now { projectPath := path, force := rebuild } with
      | .ok a => .ok (a.workspace, a.tree)
      | .error _ => .ok (w, s.tree)

/-- A run that failed. -/
def failed (t : FileTree) (message : String) : Outcome :=
  { exitCode := 1, failure := some message, tree := t }

/-- The end of a command that answers. -/
def ended : Answer → Progress
  | (tree, .ok output) => .ended { output, tree }
  | (tree, .error message) => .ended (failed tree message)

/-- The run of a command in a workspace. -/
def runCommand (s : Surroundings) (w : Workspace) (verbose : Bool) : Command → Progress
  | .start project rebuild =>
    match runStart s w project rebuild with
    | .ok (w, t) => .serving w t
    | .error message => .ended (failed s.tree message)
  | .index project included excluded force format =>
    ended (runIndex s w project included excluded force format)
  | .search query project kind usages limit format =>
    ended (runSearch s w query project kind usages limit format)
  | .usages project file method class_ scope format =>
    ended (runUsages s w project file method class_ scope format)
  | .dependencies entity project direction depth format =>
    ended (runDependencies s w entity project direction depth format)
  | .routes project method path format => ended (runRoutes s w project method path format)
  | .stats project format => ended (runStats s w verbose project format)

/-- The settings of a run: those of the named file, or of the current directory. -/
def loadConfig (t : FileTree) (common : CommonOptions) : Except ConfigFault Config :=
  let config := match common.config with
    | some path => Config.ofFile t path
    | none => .ok (Config.ofDirectory t ".")
  config.map fun c => match common.cacheDirectory with
    | some d => { c with cache := { c.cache with directory := some d } }
    | none => c

/-- A short account of the commands. -/
def helpText : String :=
  unlines (("Usage: " ++ Rpc.programName ++ " [OPTIONS] [PROJECT] [COMMAND]") :: "" :: "Commands:" ::
    commandSpecs.map fun c => "  " ++ c.1)

/-- What becomes of a run with an argument list. -/
def run (s : Surroundings) (arguments : List String) : Progress :=
  match parse? arguments with
  | none => .ended { exitCode := 2, tree := s.tree }
  | some .showHelp => .ended { output := helpText, tree := s.tree }
  | some .showVersion =>
    .ended { output := Rpc.programName ++ " " ++ Rpc.programVersion ++ "\n", tree := s.tree }
  | some (.run common command) =>
    match loadConfig s.tree common with
    | .error fault => .ended (failed s.tree fault.message)
    | .ok config =>
      runCommand s (Workspace.create config s.fallbackCache) common.verbose command

/-- How a session ends: what it has written stays written when it fails. -/
def concluded (session : Rpc.Session) : Outcome :=
  let output := unlines session.written
  if session.failed then { failed session.tree Rpc.noTextMessage with output }
  else { output, tree := session.tree }

/-- How a run ends that has all of its input. -/
def complete (s : Surroundings) (arguments : List String) (input : ByteArray) : Outcome :=
  match run s arguments with
  | .ended outcome => outcome
  | .serving w t => concluded (Rpc.serve w t s.now (Rpc.linesOf input))

end SourceAtlas.CommandLine
