import SourceAtlas.Query.Basic
import SourceAtlas.Record.Json
/-!
The dependencies around a file or a name: a walk along the edges, breadth first and a bounded number
of hops. An edge belongs to a name when the name is a part of the edge's end, so the graph is only
implied by the edges.
-/

namespace SourceAtlas

/-- Which way edges are followed. -/
inductive Direction where
  | incoming
  | outgoing
  | both
  deriving DecidableEq, Repr

/-- The direction that a word names. -/
def Direction.parse : String → Except Fault Direction
  | "incoming" => .ok .incoming
  | "outgoing" => .ok .outgoing
  | "both" => .ok .both
  | w => .error (.unknownDirection w)

/-- The most hops of a walk. -/
def maxHops : Nat := 10

/-- One way of following edges: which edges belong to a name, and which name comes next. -/
structure Following where
  belongs : DependencyEdge → String → Bool
  next : DependencyEdge → String

/-- From the importing file to what it imports. -/
def Following.outgoing : Following :=
  ⟨fun e name => Text.within name e.source, DependencyEdge.target⟩

/-- From what is imported to the importing file. -/
def Following.incoming : Following :=
  ⟨fun e name => Text.within name e.specifier || e.resolved.any (Text.within name),
    DependencyEdge.source⟩

/-- A walk so far: the names that were left, and the edges that were met, in their order. -/
structure Walk where
  visited : List String := []
  edges : List DependencyEdge := []
  deriving DecidableEq, Repr

namespace Walk

/-- The walk with an edge met; an edge with a known key changes nothing. -/
def meet (w : Walk) (e : DependencyEdge) : Walk :=
  if w.edges.any (·.key == e.key) then w else { w with edges := w.edges ++ [e] }

/-- The walk leaves a name by the edges that belong to it, and the names that come next. A name that
was left before leads nowhere new. -/
def leave (f : Following) (all : List DependencyEdge) (name : String) (w : Walk) :
    Walk × List String :=
  if w.visited.contains name then (w, [])
  else
    let out := all.filter (f.belongs · name)
    (out.foldl meet { w with visited := name :: w.visited }, out.map f.next)

/-- One hop from every name of a frontier, and the next frontier. -/
def hop (f : Following) (all : List DependencyEdge) : List String → Walk → Walk × List String
  | [], w => (w, [])
  | name :: rest, w =>
    let (w, upcoming) := leave f all name w
    let (w, later) := hop f all rest w
    (w, upcoming ++ later)

/-- A number of hops from a frontier. -/
def hops (f : Following) (all : List DependencyEdge) : (n : Nat) → List String → Walk → Walk
  | 0, _, w => w
  | n + 1, frontier, w =>
    let (w, upcoming) := hop f all frontier w
    hops f all n upcoming w

end Walk

/-- The edges around a name, with the targets of each file that has any. -/
structure DependencyGraph where
  entity : String
  incoming : List DependencyEdge
  outgoing : List DependencyEdge
  graph : TextMap (List String)
  deriving DecidableEq

namespace DependencyGraph

/-- The graph with one edge more; a target is listed once. -/
def link (graph : TextMap (List String)) (e : DependencyEdge) : TextMap (List String) :=
  let targets := (graph.get? e.source).getD []
  if targets.contains e.target then graph else graph.insert e.source (targets ++ [e.target])

/-- The written form of the graph. -/
def toJson (g : DependencyGraph) : Json :=
  .object [("entity", .string g.entity),
    ("incoming", .array (g.incoming.map DependencyEdge.toJson)),
    ("outgoing", .array (g.outgoing.map DependencyEdge.toJson)),
    ("graph", .object (g.graph.entries.map fun e => (e.1, .array (e.2.map .string))))]

end DependencyGraph

namespace Atlas

/-- The edges met in `depth` hops from a name; at least one hop is made and at most `maxHops`. -/
def edgesAround (a : Atlas) (f : Following) (entity : String) (depth : Nat) :
    List DependencyEdge :=
  (Walk.hops f a.catalog.allDependencies (min (max depth 1) maxHops) [entity] {}).edges

/-- The dependencies around a file or a name. -/
def dependencies (a : Atlas) (entity : String) (direction : Direction) (depth : Nat) :
    DependencyGraph :=
  let outgoing := if direction == .incoming then [] else a.edgesAround .outgoing entity depth
  let incoming := if direction == .outgoing then [] else a.edgesAround .incoming entity depth
  ⟨entity, incoming, outgoing, (outgoing ++ incoming).foldl DependencyGraph.link .empty⟩

end Atlas

end SourceAtlas
