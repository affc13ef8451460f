/-!
What can be wrong with a request, and how each fault is worded. A file or a document that cannot be read
is no such fault: it is passed over, and what the reader found wrong with it is left out.
-/

namespace SourceAtlas

/-- The reasons for which a request is refused. -/
inductive Fault where
  /-- A project is named by a path that does not start at the root. -/
  | relativeProject (path : String)
  /-- No directory stands at the project's path. -/
  | notADirectory (path : String)
  /-- A query came before the first analysis. -/
  | notAnalyzed
  /-- The word is no kind of symbol. -/
  | unknownKind (word : String)
  /-- The word is no HTTP method. -/
  | unknownMethod (word : String)
  /-- The word says not which usages are meant. -/
  | unknownUsageScope (word : String)
  /-- The word says not which way edges are followed. -/
  | unknownDirection (word : String)
  /-- A search for usages names neither a file nor a name. -/
  | noUsageTarget
  /-- A tool lacks a parameter. -/
  | missingParameter (name : String)
  /-- The file has no record. -/
  | unknownFile (path : String)
  deriving DecidableEq, Repr

namespace Fault

/-- What is wrong with an argument; the other faults are not about one. -/
def argument? : Fault → Option String
  | relativeProject _ => none
  | notADirectory _ => none
  | notAnalyzed => none
  | unknownKind w => some ("Unknown symbol kind: " ++ w)
  | unknownMethod w => some ("Unknown HTTP method: " ++ w)
  | unknownUsageScope w =>
    some ("Unknown search type '" ++ w ++ "', expected imports, usages or both")
  | unknownDirection w =>
    some ("Unknown direction '" ++ w ++ "', expected incoming, outgoing or both")
  | noUsageTarget => some "One of filePath, methodName or className is required"
  | missingParameter n => some ("Missing required parameter '" ++ n ++ "'")
  | unknownFile p => some ("File is not in the index: " ++ p)

/-- The wording of a fault. -/
def message : Fault → String
  | relativeProject p =>
    "Project path must be absolute, got '" ++ p ++ "'. Use a full path such as " ++
      "'/home/user/my-project' (POSIX) or 'C:\\Users\\user\\my-project' (Windows)"
  | notADirectory p => "Project path does not exist or is not a directory: " ++ p
  | notAnalyzed => "No project has been analyzed yet; run analyze first"
  | fault => "Invalid argument: " ++ fault.argument?.getD ""

end Fault

end SourceAtlas
