import SourceAtlas.Import.Alias
import SourceAtlas.Json.Relaxed
import SourceAtlas.Tree.Basic
/-!
From the text of an import to the file it leads to. A relative or absolute specifier is a path; one
that begins with `#` goes through the package's aliases; any other through the project's path
mappings. Whether the file exists is not asked: an extension is added by rule.
-/

namespace SourceAtlas

/-- The rules of one project. -/
structure Resolver where
  /-- Where the targets of package aliases start. -/
  root : List Char := []
  /-- Where the targets of path mappings start. -/
  baseUrl : Option (List Char) := none
  /-- Path mappings, each with at least one target. -/
  mappings : List (Alias × List String) := []
  /-- Package aliases. -/
  packageAliases : List (Alias × String) := []
  deriving DecidableEq, Repr

namespace Resolver

/-! ### Extensions -/

/-- Extensions that a resolved path keeps. A `js` file is taken for its `ts` source instead. -/
def knownExtensions : List String :=
  ["ts", "tsx", "mts", "cts", "jsx", "mjs", "cjs", "json", "node", "wasm", "css", "scss", "sass",
    "less", "svg", "vue", "svelte"]

/-- A directory `src` is on the path. -/
def inSources (path : List Char) : Bool :=
  (Path.components path).any fun c => c.text == ['s', 'r', 'c']

/-- The path with the extension that its file is expected to have: `ts` for `js`, a known one as it
is, and otherwise one more, `ts` among the sources and `js` elsewhere. -/
def withSourceExtension (path : List Char) : List Char :=
  let ext := Path.extension? path
  if ext == some ['j', 's'] then Path.withExtension path ['t', 's']
  else if ext.any fun e => knownExtensions.contains (.ofList e) then path
  else path ++ if inSources path then ['.', 't', 's'] else ['.', 'j', 's']

/-- The file that a path stands for. -/
def settlePath (path : List Char) : List Char := withSourceExtension (Path.normalize path)

/-! ### Specifiers -/

/-- The specifier is a path from the importing file. -/
def isRelative (s : List Char) : Bool :=
  ['.', '/'].isPrefixOf s || ['.', '.', '/'].isPrefixOf s || s == ['.'] || s == ['.', '.']

/-- Directories that hold what is built from `src`. -/
def buildDirectories : List String := ["dist", "build", "out"]

/-- The source that a built file comes from: a leading `./` is dropped, and a first directory of
built files becomes `src`. -/
def sourceOfBuilt (target : List Char) : List Char :=
  let path := (Text.stripPrefix? ['.', '/'] target).getD target
  match Text.split '/' path with
  | first :: next :: rest =>
    if buildDirectories.contains (.ofList first) then
      ['s', 'r', 'c', '/'] ++ Text.join '/' (next :: rest)
    else path
  | _ => path

/-- The file behind the first package alias that matches. -/
def throughPackage? (r : Resolver) (s : List Char) : Option (List Char) :=
  r.packageAliases.findSome? fun (pattern, target) =>
    (pattern.capture? s).map fun captured =>
      settlePath (Path.join r.root (sourceOfBuilt (Alias.fill captured target.toList)))

/-- The file behind the first path mapping that matches, by its first target. -/
def throughMapping? (r : Resolver) (s : List Char) : Option (List Char) :=
  r.baseUrl.bind fun base =>
    r.mappings.findSome? fun (pattern, targets) =>
      (pattern.capture? s).bind fun captured =>
        targets.head?.map fun target =>
          settlePath (Path.join base (Alias.fill captured target.toList))

/-- The file that a trimmed specifier leads to. -/
def locate? (r : Resolver) (s importer : List Char) : Option (List Char) :=
  if s.isEmpty then none
  else if s.head? == some '#' then (r.throughPackage? s).or (r.throughMapping? s)
  else if isRelative s then
    some (settlePath (Path.join ((Path.parent? importer).getD ['/']) s))
  else if Path.isAbsolute s then some (settlePath s)
  else r.throughMapping? s

/-- The file that `specifier` leads to in the file `importer`; nothing for what lies outside. -/
def resolve? (r : Resolver) (specifier importer : String) : Option String :=
  (r.locate? (Text.trim specifier.toList) importer.toList).map .ofList

/-! ### Project files -/

/-- The rules that a compiler configuration in a directory adds. -/
def withCompilerOptions (r : Resolver) (directory : List Char) (document : Json) : Resolver :=
  match document.get? "compilerOptions" with
  | none => r
  | some options =>
    let paths := (options.get? "paths").bind Json.object?
    let base := match (options.get? "baseUrl").bind Json.string?, paths with
      | some url, _ => some (Path.normalize (Path.join directory url.toList))
      | none, some _ => some directory
      | none, none => none
    let mappings := (paths.getD []).filterMap fun (pattern, targets) =>
      (Alias.ofString? pattern).bind fun pattern =>
        match (targets.array?.getD []).filterMap Json.string? with
        | [] => none
        | targets => some (pattern, targets)
    { r with baseUrl := base, mappings }

/-- The rules that a package description adds. -/
def withPackage (r : Resolver) (document : Json) : Resolver :=
  match (document.get? "imports").bind Json.object? with
  | none => r
  | some imports =>
    let aliases := imports.filterMap fun (pattern, target) =>
      (Alias.ofString? pattern).bind fun pattern =>
        (Alias.packageTarget? target).map fun target => (pattern, target)
    { r with packageAliases := aliases }

/-- How many directories above the project may hold its configuration. -/
def maxParents : Nat := 2

/-- The nearest directory, from the root upwards, with a file of the given name. -/
def holder? (t : FileTree) (root name : List Char) : Option (List Char) :=
  (Path.ancestors (maxParents + 1) root).find? fun d => t.isFile (Path.join d name)

/-- The document in a file of a directory. -/
def documentIn? (t : FileTree) (directory name : List Char) : Option Json :=
  (t.readText? (Path.join directory name)).bind Json.readRelaxed?

/-- The name of the compiler configuration. -/
def compilerFile : List Char := "tsconfig.json".toList

/-- The name of the package description. -/
def packageFile : List Char := "package.json".toList

/-- The rules with those that the project file of a name adds, given the directory it is in. A file
that is missing or malformed adds none. -/
def withProjectFile (t : FileTree) (root name : List Char)
    (add : Resolver → List Char → Json → Resolver) (r : Resolver) : Resolver :=
  match holder? t root name with
  | some d => match documentIn? t d name with
    | some document => add r d document
    | none => r
  | none => r

/-- The rules of the project at `root`. -/
def load (t : FileTree) (root : List Char) : Resolver :=
  let root := Path.normalize root
  let r : Resolver := { root }
  let r := r.withProjectFile t root compilerFile withCompilerOptions
  r.withProjectFile t root packageFile fun r _ document => r.withPackage document

end Resolver

end SourceAtlas
