import SourceAtlas.Glob
import SourceAtlas.Record.Basic
import SourceAtlas.Tree.Basic
/-!
The files of a project: a walk through its directories in byte order of the names. Links are
followed, but one that leads out of the project, nowhere, or back to a directory that the walk stands
in is left out.
-/

namespace SourceAtlas

/-- Where the walk has come to: the path text as walked, and the place it leads to. -/
structure Stop where
  path : List Char
  place : Place
  deriving DecidableEq, Repr

namespace Discovery

/-- What every step of a walk needs. -/
structure Terrain where
  tree : FileTree
  filter : FileFilter
  /-- The root as it was named. -/
  root : List Char
  /-- The place of the root. -/
  home : Place

/-- The path of a stop below the root. -/
def Terrain.relative (w : Terrain) (path : List Char) : String :=
  Path.relative (.ofList w.root) (.ofList path)

/-- The next stop under a name, from a stop with the directories `above` it, its own included. A
link to one of these directories would turn the walk in a circle, one that leaves the root would
lead it astray. -/
def Terrain.enter? (w : Terrain) (above : List Place) (here : Stop) (name : List Char) :
    Option Stop :=
  let path := Path.join here.path name
  match w.tree.node? (here.place ++ [name]) with
  | none => none
  | some (.link _) =>
    match w.tree.place? path with
    | none => none
    | some place =>
      if (w.tree.hasDirectory place && above.contains place) || !w.home.isPrefixOf place then none
      else some ⟨path, place⟩
  | some _ => some ⟨path, here.place ++ [name]⟩

/-- The files at and below a stop, in the order of the walk. `fuel` bounds the depth. -/
def Terrain.filesFrom (w : Terrain) : (fuel : Nat) → (above : List Place) → Stop → List (List Char)
  | 0, _, _ => []
  | fuel + 1, above, here =>
    match w.tree.node? here.place with
    | some (.file _ _) => if w.filter.takesFile (w.relative here.path) then [here.path] else []
    | some .directory =>
      if !above.isEmpty && w.filter.prunes (w.relative here.path) then []
      else
        let above := here.place :: above
        ((w.tree.names here.place).filterMap (w.enter? above here)).flatMap (w.filesFrom fuel above)
    | _ => []

/-- A walk goes no deeper than this: it stands in no directory twice through a link, and between two
links it only goes down. -/
def maxSteps (t : FileTree) : Nat := (t.nodes.length + 2) * (t.nodes.length + 2)

/-- The paths of the files below a root that a filter takes. A root that is a file is walked as
itself; a root that does not exist has no files. -/
def files (t : FileTree) (root : List Char) (filter : FileFilter) : List (List Char) :=
  match t.place? root with
  | none => []
  | some home => Terrain.filesFrom ⟨t, filter, root, home⟩ (maxSteps t) [] ⟨root, home⟩

/-- The record of a file of the project. -/
def record? (t : FileTree) (root path : List Char) : Option FileRecord :=
  match t.find? path with
  | some (.file content modified) => some
    { path := .ofList path
      name := .ofList ((Path.fileName? path).getD [])
      extension := match Path.extension? path with
        | some e => .ofList ('.' :: e)
        | none => ""
      size := content.size
      lastModified := modified
      relativePath := Path.relative (.ofList root) (.ofList path) }
  | _ => none

end Discovery

end SourceAtlas
