import SourceAtlas.Json.Decode
import SourceAtlas.Toml.Reader
import SourceAtlas.Tree.Basic
/-!
Settings: which files are taken, the cache, the limits of queries, logging and the transport. Every
setting has a default, so a configuration may leave out any of them.
-/

namespace SourceAtlas

/-- Which files are taken when a request does not say, and how many at a time. -/
structure IndexingConfig where
  included : List String := ["**/*.ts", "**/*.tsx", "**/*.js", "**/*.jsx", "**/*.mjs"]
  excluded : List String :=
    ["node_modules/**", "**/node_modules/**", ".git/**", "dist/**", "build/**", "coverage/**",
      ".tsgraph/**"]
  batchSize : Nat := 50
  deriving DecidableEq, Repr, Inhabited

/-- Whether catalogs are cached, where, and for how many milliseconds. -/
structure CacheConfig where
  enabled : Bool := true
  directory : Option String := none
  ttl : Nat := 24 * 60 * 60 * 1000
  deriving DecidableEq, Repr, Inhabited

/-- The limits of queries. -/
structure QueryConfig where
  maxDepth : Nat := 10
  searchLimit : Nat := 50
  usageLimit : Nat := 100
  deriving DecidableEq, Repr, Inhabited

/-- How the log is written. -/
structure LoggingConfig where
  level : String := "warn"
  format : String := "compact"
  deriving DecidableEq, Repr, Inhabited

/-- How the server is reached. -/
structure ServerConfig where
  transport : String := "stdio"
  deriving DecidableEq, Repr, Inhabited

/-- All settings. -/
structure Config where
  indexing : IndexingConfig := {}
  cache : CacheConfig := {}
  query : QueryConfig := {}
  logging : LoggingConfig := {}
  server : ServerConfig := {}
  deriving DecidableEq, Repr, Inhabited

/-- Why a configuration is refused. -/
inductive ConfigFault where
  | unreadable (file : String)
  | malformed (file : String)
  | noBatch
  | noDepth
  | noSearchLimit
  | noUsageLimit
  | badLevel (word : String)
  | badFormat (word : String)
  | badTransport (word : String)
  deriving DecidableEq, Repr

/-- The wording of a refusal. -/
def ConfigFault.message : ConfigFault → String
  | unreadable file => "Failed to read " ++ file
  | malformed file => "Failed to parse " ++ file
  | noBatch => "Batch size must be greater than 0"
  | noDepth => "Query max depth must be greater than 0"
  | noSearchLimit => "Search limit must be greater than 0"
  | noUsageLimit => "Usage limit must be greater than 0"
  | badLevel w => "Invalid log level: " ++ w
  | badFormat w => "Invalid log format: " ++ w
  | badTransport w => "Invalid MCP transport: " ++ w

/-! ### Written form -/

/-- The settings that a document gives, section by section. -/
def IndexingConfig.ofJson? (j : Json) : Option IndexingConfig := do
  let fs ← j.fields? ["include", "exclude", "batch_size"] 0
  let base : IndexingConfig := {}
  let included ← Json.defaulting fs "include" (Json.list? Json.string?) base.included
  let excluded ← Json.defaulting fs "exclude" (Json.list? Json.string?) base.excluded
  let batchSize ← Json.defaulting fs "batch_size" Json.nat? base.batchSize
  return ⟨included, excluded, batchSize⟩

/-- The cache settings that a document gives. -/
def CacheConfig.ofJson? (j : Json) : Option CacheConfig := do
  let fs ← j.fields? ["enabled", "directory", "ttl_ms"] 0
  let base : CacheConfig := {}
  let enabled ← Json.defaulting fs "enabled" Json.bool? base.enabled
  let directory ← Json.unsettable fs "directory" Json.string?
  let ttl ← Json.defaulting fs "ttl_ms" Json.nat? base.ttl
  return ⟨enabled, directory, ttl⟩

/-- The query settings that a document gives. -/
def QueryConfig.ofJson? (j : Json) : Option QueryConfig := do
  let fs ← j.fields? ["max_depth", "search_limit", "usage_limit"] 0
  let base : QueryConfig := {}
  let maxDepth ← Json.defaulting fs "max_depth" Json.nat? base.maxDepth
  let searchLimit ← Json.defaulting fs "search_limit" Json.nat? base.searchLimit
  let usageLimit ← Json.defaulting fs "usage_limit" Json.nat? base.usageLimit
  return ⟨maxDepth, searchLimit, usageLimit⟩

/-- The logging settings that a document gives. -/
def LoggingConfig.ofJson? (j : Json) : Option LoggingConfig := do
  let fs ← j.fields? ["level", "format"] 0
  let base : LoggingConfig := {}
  let level ← Json.defaulting fs "level" Json.string? base.level
  let format ← Json.defaulting fs "format" Json.string? base.format
  return ⟨level, format⟩

/-- The server settings that a document gives. -/
def ServerConfig.ofJson? (j : Json) : Option ServerConfig := do
  let fs ← j.fields? ["transport"] 0
  let base : ServerConfig := {}
  let transport ← Json.defaulting fs "transport" Json.string? base.transport
  return ⟨transport⟩

namespace Config

/-- The settings that a document gives. -/
def ofJson? (j : Json) : Option Config := do
  let fs ← j.fields? ["indexing", "cache", "query", "logging", "mcp"] 0
  let indexing ← Json.defaulting fs "indexing" IndexingConfig.ofJson? {}
  let cache ← Json.defaulting fs "cache" CacheConfig.ofJson? {}
  let query ← Json.defaulting fs "query" QueryConfig.ofJson? {}
  let logging ← Json.defaulting fs "logging" LoggingConfig.ofJson? {}
  let server ← Json.defaulting fs "mcp" ServerConfig.ofJson? {}
  return ⟨indexing, cache, query, logging, server⟩

/-- The written form of the settings. -/
def toJson (c : Config) : Json :=
  .object
    [("indexing", .object [("include", .array (c.indexing.included.map .string)),
        ("exclude", .array (c.indexing.excluded.map .string)),
        ("batch_size", .nat c.indexing.batchSize)]),
      ("cache", .object [("enabled", .bool c.cache.enabled),
        ("directory", Json.ofOption .string c.cache.directory), ("ttl_ms", .nat c.cache.ttl)]),
      ("query", .object [("max_depth", .nat c.query.maxDepth),
        ("search_limit", .nat c.query.searchLimit), ("usage_limit", .nat c.query.usageLimit)]),
      ("logging", .object [("level", .string c.logging.level),
        ("format", .string c.logging.format)]),
      ("mcp", .object [("transport", .string c.server.transport)])]

/-! ### Checks and files -/

/-- The levels of logging. -/
def levels : List String := ["error", "warn", "info", "debug", "trace"]

/-- The formats of the log. -/
def formats : List String := ["compact", "pretty", "json"]

/-- The first thing that is wrong with the settings. -/
def fault? (c : Config) : Option ConfigFault :=
  if c.indexing.batchSize == 0 then some .noBatch
  else if c.query.maxDepth == 0 then some .noDepth
  else if c.query.searchLimit == 0 then some .noSearchLimit
  else if c.query.usageLimit == 0 then some .noUsageLimit
  else if !levels.contains c.logging.level then some (.badLevel c.logging.level)
  else if !formats.contains c.logging.format then some (.badFormat c.logging.format)
  else if c.server.transport != "stdio" then some (.badTransport c.server.transport)
  else none

/-- The sections and how many settings each of them has. -/
def sectionSizes : List (String × Nat) :=
  [("indexing", 3), ("cache", 3), ("query", 3), ("logging", 2), ("mcp", 1)]

/-- A section that is written as a list, without what stands behind its settings. -/
def cutSection (section_ : String × Json) : String × Json :=
  match section_, sectionSizes.lookup section_.1 with
  | (name, .array items), some size => (name, .array (items.take size))
  | other, _ => other

/-- The settings in the text of a file. -/
def ofText? (text : String) : Option Config :=
  match (Toml.read? text).map Toml.Value.toJson with
  | some (.object sections) => ofJson? (.object (sections.map cutSection))
  | _ => none

/-- The settings in a file. -/
def ofFile (t : FileTree) (path : String) : Except ConfigFault Config :=
  match t.readText? path.toList with
  | none => .error (.unreadable path)
  | some text =>
    match ofText? text with
    | none => .error (.malformed path)
    | some c =>
      match c.fault? with
      | some fault => .error fault
      | none => .ok c

/-- The name of the file with a directory's settings. -/
def fileName : String := ".tsgraph.toml"

/-- The settings of a directory; the defaults if they are missing or refused. -/
def ofDirectory (t : FileTree) (directory : String) : Config :=
  match ofFile t (.ofList (Path.join directory.toList fileName.toList)) with
  | .ok c => c
  | .error _ => {}

end Config

end SourceAtlas
