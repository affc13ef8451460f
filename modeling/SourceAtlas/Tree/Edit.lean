import SourceAtlas.Tree.Basic
/-!
Changes of a file tree. Each operation gives the new tree, or nothing when it fails; a failed
operation leaves the tree as it was.
-/

namespace SourceAtlas.FileTree

/-- The tree with one node set, in place of any that stood there. -/
def put (t : FileTree) (p : Place) (n : Node) : FileTree :=
  { t with nodes := (p, n) :: t.nodes.filter (·.1 != p) }

/-- The tree without a place and all below it. -/
def prune (t : FileTree) (p : Place) : FileTree :=
  { t with nodes := t.nodes.filter fun e => !p.isPrefixOf e.1 }

/-- One directory, made in the directory above it unless it is there. -/
def addDirectory (t : FileTree) (path : List Char) : Option FileTree :=
  if t.isDirectory path then some t
  else match t.entry? path with
    | some p => if (t.node? p).isSome then none else some (t.put p .directory)
    | none => none

/-- The directory at the path, made with all those above it that are missing. -/
def makeDirectories (t : FileTree) (path : List Char) : Option FileTree :=
  let ups := (Path.ancestors (path.length + 1) path).reverse.filter fun p => !p.isEmpty
  ups.foldlM addDirectory t

/-- The file at the path, written anew. -/
def write (t : FileTree) (path : List Char) (content : ByteArray) (now : Int) : Option FileTree :=
  match t.target? path with
  | some p => if t.hasDirectory p then none else some (t.put p (.file content now))
  | none => none

/-- The tree without the file or link at the path; a directory is not removed. -/
def removeFile (t : FileTree) (path : List Char) : Option FileTree :=
  match t.entry? path with
  | some p =>
    match t.node? p with
    | some .directory => none
    | some _ => some (t.prune p)
    | none => none
  | none => none

/-- The file at one path moved to another, in place of a file there. -/
def moveFile (t : FileTree) (source target : List Char) : Option FileTree :=
  match t.entry? source, t.entry? target with
  | some p, some q =>
    match t.node? p with
    | some (.file content modified) =>
      if t.hasDirectory q then none else some ((t.prune p).put q (.file content modified))
    | _ => none
  | _, _ => none

end SourceAtlas.FileTree
