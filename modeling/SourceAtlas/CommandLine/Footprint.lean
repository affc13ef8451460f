import SourceAtlas.CommandLine.Run
/-!
Which files a run or a message looks at, so that a caller knows what to read before it asks for the
answer: the settings, the directory of the cache, and the project with the configuration above it.
-/

namespace SourceAtlas.CommandLine

/-- The project that a command is about. -/
def Command.project? : Command → Option String
  | .start project _ => project
  | .index project .. => some project
  | .search _ project .. => some project
  | .usages project .. => some project
  | .dependencies _ project .. => some project
  | .routes project .. => some project
  | .stats project _ => some project

/-- The common options of a run and the project it is about. -/
def subject? (arguments : List String) : Option (CommonOptions × Option String) :=
  match parse? arguments with
  | some (.run common command) => some (common, command.project?)
  | _ => none

/-- The file with the settings of a run. -/
def settingsPath (common : CommonOptions) : List Char :=
  match common.config with
  | some path => path.toList
  | none => Path.join ['.'] Config.fileName.toList

/-- The directory of the cache, once the settings are read. -/
def cachePath (t : FileTree) (fallbackCache : String) (common : CommonOptions) : List Char :=
  match loadConfig t common with
  | .ok config => (Workspace.create config fallbackCache).cache.directory
  | .error _ => fallbackCache.toList

/-- The project that a message asks to analyze. -/
def requestedProject? (text : String) : Option String := do
  let request ← Rpc.Request.ofText? text
  match request.method, Rpc.requestedCall request.params with
  | "tools/call", .ok (.analyzeProject, arguments) => Rpc.Arguments.text? arguments "projectPath"
  | _, _ => none

/-- The files beside and above a project that tell how its imports are resolved. -/
def configurationPaths (project : List Char) : List (List Char) :=
  (Path.ancestors (Resolver.maxParents + 1) (Path.normalize project)).flatMap fun d =>
    [Path.join d Resolver.compilerFile, Path.join d Resolver.packageFile]

end SourceAtlas.CommandLine
