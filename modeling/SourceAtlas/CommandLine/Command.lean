import SourceAtlas.CommandLine.Option
/-!
The commands of the program and the arguments they are given by.
-/

namespace SourceAtlas.CommandLine

/-- How an answer is written. -/
inductive OutputFormat where
  | text
  | json
  deriving DecidableEq, Repr

/-- The format that a word names. -/
def OutputFormat.ofWord? : String → Option OutputFormat
  | "text" => some .text
  | "json" => some .json
  | _ => none

/-- A command with its arguments. -/
inductive Command where
  | start (project : Option String) (rebuild : Bool)
  | index (project : String) (included excluded : List String) (force : Bool)
      (format : OutputFormat)
  | search (query project kind : String) (usages : Bool) (limit : Nat) (format : OutputFormat)
  | usages (project : String) (file method class_ : Option String) (scope : String)
      (format : OutputFormat)
  | dependencies (entity project direction : String) (depth : Nat) (format : OutputFormat)
  | routes (project : String) (method path : Option String) (format : OutputFormat)
  | stats (project : String) (format : OutputFormat)
  deriving DecidableEq, Repr

/-- What every command may be given. -/
structure CommonOptions where
  debug : Bool := false
  verbose : Bool := false
  config : Option String := none
  cacheDirectory : Option String := none
  deriving DecidableEq, Repr

/-- What an argument list asks for. -/
inductive Request where
  | run (common : CommonOptions) (command : Command)
  | showVersion
  | showHelp
  deriving DecidableEq, Repr

/-! ### Specifications -/

/-- The options of every command. -/
def commonSpecs : List OptionSpec :=
  [{ name := "debug", letter := some 'd', arity := .flag },
    { name := "verbose", letter := some 'v', arity := .flag },
    { name := "config", letter := some 'c', kind := .path },
    { name := "cache-dir", kind := .path },
    { name := "help", letter := some 'h', arity := .final }]

/-- The program itself: its common options, and a project to start with. -/
def rootSpec : CommandSpec :=
  ⟨commonSpecs ++ [{ name := "version", letter := some 'V', arity := .final }], 1⟩

/-- An option with a text for its value. -/
def textSpec (name : String) (letter : Option Char) : OptionSpec := { name, letter }

/-- An option without a value. -/
def flagSpec (name : String) (letter : Char) : OptionSpec :=
  { name, letter := some letter, arity := .flag }

/-- An option that may be given again and again. -/
def listSpec (name : String) (letter : Char) : OptionSpec :=
  { name, letter := some letter, arity := .repeated }

/-- An option with a number for its value. -/
def countSpec (name : String) (letter : Option Char) : OptionSpec := { name, letter, kind := .count }

/-- The option for the project of a query. -/
def projectSpec : OptionSpec := textSpec "project" (some 'p')

/-- The option for the format of an answer. -/
def formatSpec (letter : Option Char) : OptionSpec :=
  { name := "format", letter, kind := .word ["text", "json"] }

/-- The commands by name. -/
def commandSpecs : List (String × CommandSpec) :=
  [("start", ⟨commonSpecs ++ [flagSpec "rebuild" 'r'], 1⟩),
    ("index", ⟨commonSpecs ++ [listSpec "include" 'i', listSpec "exclude" 'e', flagSpec "force" 'f',
      formatSpec none], 1⟩),
    ("search", ⟨commonSpecs ++ [projectSpec, textSpec "kind" (some 'k'), flagSpec "usages" 'u',
      countSpec "limit" (some 'l'), formatSpec (some 'f')], 1⟩),
    ("usages", ⟨commonSpecs ++ [projectSpec, textSpec "file" none, textSpec "method" none,
      textSpec "class" none, textSpec "type" (some 't'), formatSpec (some 'f')], 0⟩),
    ("deps", ⟨commonSpecs ++ [projectSpec, textSpec "direction" none, countSpec "depth" none,
      formatSpec (some 'f')], 1⟩),
    ("routes", ⟨commonSpecs ++ [projectSpec, textSpec "method" (some 'm'), textSpec "path" none,
      formatSpec (some 'f')], 0⟩),
    ("stats", ⟨commonSpecs ++ [projectSpec, formatSpec (some 'f')], 0⟩)]

/-! ### Values -/

/-- The number given by an option, or its default. -/
def Given.count (g : Given) (name : String) (default : Nat) : Option Nat :=
  match g.value? name with
  | none => some default
  | some text => count? text

/-- The format given by an option; text is the default. -/
def Given.format (g : Given) : Option OutputFormat :=
  match g.value? "format" with
  | none => some .text
  | some word => OutputFormat.ofWord? word

/-- The text given by an option, or its default. -/
def Given.text (g : Given) (name default : String) : String := (g.value? name).getD default

/-- The project of a query; the current directory is the default. -/
def Given.project (g : Given) : String := g.text "project" "."

/-- The command of a name with what it was given. -/
def commandOf? (name : String) (g : Given) : Option Command :=
  match name with
  | "start" => some (.start g.positionals.head? (g.has "rebuild"))
  | "index" => do
    let format ← g.format
    return .index (g.positionals.head?.getD ".") (g.values "include") (g.values "exclude")
      (g.has "force") format
  | "search" => do
    let query ← g.positionals.head?
    let limit ← g.count "limit" 50
    let format ← g.format
    return .search query g.project (g.text "kind" "all") (g.has "usages") limit format
  | "usages" => do
    let format ← g.format
    return .usages g.project (g.value? "file") (g.value? "method") (g.value? "class")
      (g.text "type" "both") format
  | "deps" => do
    let entity ← g.positionals.head?
    let depth ← g.count "depth" 3
    let format ← g.format
    return .dependencies entity g.project (g.text "direction" "both") depth format
  | "routes" => do
    let format ← g.format
    return .routes g.project (g.value? "method") (g.value? "path") format
  | "stats" => do
    let format ← g.format
    return .stats g.project format
  | _ => none

/-- The common options, given before the command or behind it; behind it counts. -/
def commonOptions (before behind : Given) : CommonOptions :=
  { debug := before.has "debug" || behind.has "debug"
    verbose := before.has "verbose" || behind.has "verbose"
    config := (behind.value? "config").or (before.value? "config")
    cacheDirectory := (behind.value? "cache-dir").or (before.value? "cache-dir") }

/-- An argument that is a command: one of the commands above, or `help`. -/
def isCommand (argument : String) : Bool :=
  argument == "help" || (commandSpecs.lookup argument).isSome

/-- What an argument list asks for; nothing if it is wrong. Without a command the server starts. The
command `help` may name another one. What the arguments before a command leave open is looked at
behind those of the command. -/
def parse? (arguments : List String) : Option Request := do
  let (before, command) ← readArguments rootSpec isCommand {} arguments
  if before.given.has "version" then return .showVersion
  if before.given.has "help" then return .showHelp
  match command with
  | none =>
    return .run (commonOptions before.given {}) (.start before.given.positionals.head? false)
  | some ("help", names) =>
    if names.length ≤ 1 && names.all isCommand then some .showHelp else none
  | some (name, rest) =>
    let spec ← commandSpecs.lookup name
    let (behind, _) ← readArguments spec (fun _ => false) {} rest
    if behind.given.has "help" then return .showHelp
    let before ← before.settle?
    let command ← commandOf? name behind.given
    return .run (commonOptions before behind.given) command

end SourceAtlas.CommandLine
