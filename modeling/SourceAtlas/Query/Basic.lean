import SourceAtlas.Catalog.Basic
/-!
What queries look at: a catalog, the rules by which its imports were resolved, and the root of its
project.
-/

namespace SourceAtlas

/-- A catalog in its project. -/
structure Atlas where
  catalog : Catalog
  resolver : Resolver
  root : String
  deriving DecidableEq

namespace Atlas

/-- The normalized absolute path that a path text means; a relative one starts at the root. -/
def absolute (a : Atlas) (path : String) : String :=
  .ofList (Path.normalize (Path.join a.root.toList path.toList))

/-- The path of a file as seen from the root. -/
def relative (a : Atlas) (path : String) : String := Path.relative a.root path

end Atlas

/-- The items with the keys of no earlier item, in their order; `seen` holds keys that are taken. -/
def firstByKey [BEq κ] (key : α → κ) : (seen : List κ) → List α → List α
  | _, [] => []
  | seen, a :: rest =>
    if seen.contains (key a) then firstByKey key seen rest
    else a :: firstByKey key (key a :: seen) rest

/-- An edge mentions a name in either of its ends. -/
def DependencyEdge.mentions (e : DependencyEdge) (name : String) : Bool :=
  Text.within name e.specifier || Text.within name e.source

/-- What tells edges apart: where they come from, what they name, and on which line. -/
def DependencyEdge.key (e : DependencyEdge) : String × String × Nat := (e.source, e.specifier, e.line)

end SourceAtlas
