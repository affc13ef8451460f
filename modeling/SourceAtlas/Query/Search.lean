import SourceAtlas.Query.Basic
import SourceAtlas.Record.Json
import SourceAtlas.Text.Case
/-!
The search for symbols by a part of their name, whatever the case of its letters. The best matches
come first: the whole name, then its beginning, then any part; among equals the shorter name, then
the order of files and lines.
-/

namespace SourceAtlas

/-- A symbol that was found, with where its name is mentioned if that was asked. -/
structure SearchHit where
  symbol : SymbolRecord
  usages : Option (List String)
  deriving DecidableEq, Repr

/-- The symbols that were found, the first of them up to a limit, and how many there are in all. -/
structure SearchOutcome where
  items : List SearchHit
  totalCount : Nat
  deriving DecidableEq, Repr

/-- How well a name matches: 0 for the whole of it, 1 for its beginning, 2 for any part. -/
def matchRank (lowered name : List Char) : Nat :=
  let name := Text.lower name
  if name = lowered then 0 else if lowered.isPrefixOf name then 1 else 2

/-- The query is a part of the name when case is ignored. -/
def matchesName (query : String) (s : SymbolRecord) : Bool :=
  Text.occursIn (query.toList.map Text.foldCase) (s.name.toList.map Text.foldCase)

/-- The first symbol does not come behind the second. -/
def ranksBefore (a b : Nat × SymbolRecord) : Bool :=
  let lengthA := a.2.name.utf8ByteSize
  let lengthB := b.2.name.utf8ByteSize
  if a.1 != b.1 then a.1 < b.1
  else if lengthA != lengthB then lengthA < lengthB
  else if a.2.filePath != b.2.filePath then a.2.filePath < b.2.filePath
  else a.2.line ≤ b.2.line

namespace Atlas

/-- The places `file:line` of the edges that mention a name, each once. -/
def mentionsOf (a : Atlas) (name : String) : List String :=
  firstByKey id [] ((a.catalog.allDependencies.filter (·.mentions name)).map fun e =>
    e.filePath ++ ":" ++ toString e.line)

/-- The matching symbols of a kind, best first. -/
def ranked (a : Atlas) (query : String) (kind : Option SymbolKind) : List SymbolRecord :=
  let lowered := Text.lower query.toList
  let found := a.catalog.allSymbols.filter fun s =>
    kind.all (· == s.kind) && matchesName query s
  ((found.map fun s => (matchRank lowered s.name.toList, s)).mergeSort ranksBefore).map (·.2)

/-- The search for symbols. Every text is searched for: that a query can be too large for a matcher to
be made of it, and is then refused, is left out. -/
def search (a : Atlas) (query : String) (kind : Option SymbolKind) (withUsages : Bool)
    (limit : Nat) : SearchOutcome :=
  let found := a.ranked query kind
  { items := (found.take limit).map fun s =>
      ⟨s, if withUsages then some (a.mentionsOf s.name) else none⟩
    totalCount := found.length }

end Atlas

/-- The written form of a hit: the members of the symbol and its usages. -/
def SearchHit.toJson (h : SearchHit) : Json :=
  .object (h.symbol.members ++
    Json.optional "usages" (fun places => .array (places.map .string)) h.usages)

/-- The written form of a search's outcome, which took no time that matters. -/
def SearchOutcome.toJson (o : SearchOutcome) : Json :=
  .object [("items", .array (o.items.map SearchHit.toJson)), ("totalCount", .nat o.totalCount),
    ("searchTime_ms", .nat 0)]

end SourceAtlas
