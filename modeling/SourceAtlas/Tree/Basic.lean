import SourceAtlas.Path
/-!
A file tree as a value: which node stands at which place, and how path texts lead to places through
symbolic links. A place is the list of names below the root, free of links and of `..`.

The tree is what the process can read. There are no permissions in it: a directory that cannot be read
has no names here, and a file that cannot be read is one that holds no text.
-/

namespace SourceAtlas

/-- A place in the tree: the names from the root down. -/
abbrev Place := List (List Char)

/-- What stands at a place. -/
inductive Node where
  | file (content : ByteArray) (modified : Int)
  | directory
  | link (target : List Char)
  deriving BEq

/-- A tree with the place that relative paths start from. The root is always a directory, and a
place holds the first node listed for it. -/
structure FileTree where
  nodes : List (Place × Node)
  working : Place

namespace FileTree

/-- The node at a place. -/
def node? (t : FileTree) (p : Place) : Option Node :=
  if p.isEmpty then some .directory else t.nodes.lookup p

/-- A directory stands at the place. -/
def hasDirectory (t : FileTree) (p : Place) : Bool :=
  match t.node? p with
  | some .directory => true
  | _ => false

/-- How many links one path may lead through. -/
def maxLinks : Nat := 40

/-- The place from which a path text starts, seen from `here`. -/
def startOf (here : Place) (path : List Char) : Place := if Path.isAbsolute path then [] else here

/-- The walk along path segments from a place. Every segment needs a directory to stand in; `follow`
goes on from a link. With `create` the last name may be one that does not exist yet. -/
def walk (t : FileTree) (create : Bool) (follow : Place → List (List Char) → Option Place) :
    Place → List (List Char) → Option Place
  | here, [] => some here
  | here, s :: rest =>
    if !t.hasDirectory here then none
    else if Path.isIdle s then walk t create follow here rest
    else if s == ['.', '.'] then walk t create follow here.dropLast rest
    else match t.node? (here ++ [s]) with
      | none => if create && rest.isEmpty then some (here ++ [s]) else none
      | some (.link target) => follow (startOf here target) (Path.segments target ++ rest)
      | some _ => walk t create follow (here ++ [s]) rest

/-- The place that segments lead to through at most `links` links. -/
def resolveFrom (t : FileTree) (create : Bool) :
    (links : Nat) → Place → List (List Char) → Option Place
  | 0 => t.walk create fun _ _ => none
  | links + 1 => t.walk create (t.resolveFrom create links)

/-- The place that a path leads to, all links followed. -/
def place? (t : FileTree) (path : List Char) : Option Place :=
  if path.isEmpty then none
  else t.resolveFrom false maxLinks (startOf t.working path) (Path.segments path)

/-- The place where a file written under the path would stand. -/
def target? (t : FileTree) (path : List Char) : Option Place :=
  if path.isEmpty then none
  else t.resolveFrom true maxLinks (startOf t.working path) (Path.segments path)

/-- The place of the path's last name, a link there not followed. -/
def entry? (t : FileTree) (path : List Char) : Option Place :=
  match Path.fileName? path, Path.parent? path with
  | some name, some [] =>
    if t.hasDirectory t.working then some (t.working ++ [name]) else none
  | some name, some up =>
    match t.place? up with
    | some p => if t.hasDirectory p then some (p ++ [name]) else none
    | none => none
  | _, _ => none

/-- The node that a path leads to. -/
def find? (t : FileTree) (path : List Char) : Option Node := (t.place? path).bind t.node?

/-- The path leads to a directory. -/
def isDirectory (t : FileTree) (path : List Char) : Bool := (t.place? path).any t.hasDirectory

/-- The path leads to a file. -/
def isFile (t : FileTree) (path : List Char) : Bool :=
  match t.find? path with
  | some (.file _ _) => true
  | _ => false

/-- The text of a file; a file that is not UTF-8 has none. -/
def readText? (t : FileTree) (path : List Char) : Option String :=
  match t.find? path with
  | some (.file content _) => String.fromUTF8? content
  | _ => none

/-- The absolute path text of a place. -/
def placeText (p : Place) : List Char := '/' :: Text.join '/' p

/-- The names in a directory, in byte order, each once. -/
def names (t : FileTree) (p : Place) : List (List Char) :=
  let here := (t.nodes.filter fun e => !e.1.isEmpty && e.1.dropLast == p).filterMap (·.1.getLast?)
  here.eraseDups.mergeSort fun a b => String.ofList a ≤ String.ofList b

end FileTree

end SourceAtlas
