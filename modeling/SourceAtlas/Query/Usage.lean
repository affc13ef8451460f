import SourceAtlas.Query.Basic
import SourceAtlas.Json.Basic
/-!
The search for usages: which edges import a file, and which mention the name of a method or class.
-/

namespace SourceAtlas

/-- Which usages are meant. -/
inductive UsageScope where
  | imports
  | usages
  | both
  deriving DecidableEq, Repr

/-- The scope that a word names. -/
def UsageScope.parse : String → Except Fault UsageScope
  | "imports" => .ok .imports
  | "usages" => .ok .usages
  | "both" => .ok .both
  | w => .error (.unknownUsageScope w)

/-- What usages are looked for. -/
structure UsageQuery where
  filePath : Option String := none
  methodName : Option String := none
  className : Option String := none
  scope : UsageScope := .both
  deriving DecidableEq, Repr

/-- How an edge uses what was looked for. -/
inductive UsageKind where
  | importing
  | mentioning
  deriving DecidableEq, Repr

/-- The word for a kind of usage. -/
def UsageKind.word : UsageKind → String
  | importing => "import"
  | mentioning => "usage"

/-- A usage: the edge, with its file as seen from the root. -/
structure UsageRecord where
  file : String
  line : Nat
  kind : UsageKind
  context : String
  source : String
  specifier : String
  resolved : Option String
  deriving DecidableEq, Repr

namespace UsageRecord

/-- What tells usages apart. -/
def key (u : UsageRecord) : String × Nat × String := (u.source, u.line, u.specifier)

/-- The first usage does not come behind the second. -/
def before (a b : UsageRecord) : Bool :=
  if a.file != b.file then a.file < b.file else a.line ≤ b.line

/-- The written form of a usage. -/
def toJson (u : UsageRecord) : Json :=
  .object [("file", .string u.file), ("line", .nat u.line), ("type", .string u.kind.word),
    ("context", .string u.context), ("from", .string u.source), ("to", .string u.specifier),
    ("resolvedTo", Json.ofOption .string u.resolved)]

end UsageRecord

/-! ### Does an edge lead to a file? -/

/-- The extensions that a path may lack when it is compared. -/
def droppedExtensions : List (List Char) := [".ts", ".js", ".tsx", ".jsx"].map String.toList

/-- The path without one of these extensions. -/
def withoutExtension (path : List Char) : List Char :=
  (droppedExtensions.findSome? fun e => Text.stripSuffix? e path).getD path

/-- A segment that says nothing about where a file is. -/
def isVague (s : List Char) : Bool :=
  s.isEmpty || s == ['.'] || s == ['.', '.'] || s == ['~'] || s == ['@']

/-- The segments of `candidate` end the path `target`, extensions apart. A single name counts only
when it is written as a path. -/
def endsPath (target candidate : List Char) : Bool :=
  let tail := (Text.split '/' (withoutExtension candidate)).filter (!isVague ·)
  let asPath := candidate.head? == some '.' || candidate.head? == some '/'
  (2 ≤ tail.length || asPath) && !tail.isEmpty &&
    tail.isSuffixOf (Text.split '/' (withoutExtension target))

namespace Atlas

/-- The edge leads to the file: it was resolved to it, it is resolved to it now, or its path ends
the file's. -/
def leadsTo (a : Atlas) (target : String) (e : DependencyEdge) : Bool :=
  e.resolved == some target || a.resolver.resolve? e.specifier e.source == some target ||
    endsPath target.toList e.target.toList

/-- The usage that an edge is. -/
def usage (a : Atlas) (kind : UsageKind) (e : DependencyEdge) : UsageRecord :=
  { file := a.relative e.filePath, line := e.line, kind
    context := match kind with
      | .importing => "imports '" ++ e.specifier ++ "'"
      | .mentioning => "references '" ++ e.specifier ++ "'"
    source := e.source, specifier := e.specifier, resolved := e.resolved }

/-- The imports of a file. -/
def importsOf (a : Atlas) (path : String) : List UsageRecord :=
  (a.catalog.allDependencies.filter fun e =>
    e.kind == .importing && a.leadsTo (a.absolute path) e).map (a.usage .importing)

/-- The edges that mention a name. -/
def mentioning (a : Atlas) (name : String) : List UsageRecord :=
  (a.catalog.allDependencies.filter (·.mentions name)).map (a.usage .mentioning)

/-- The imports that a query means. -/
def wantedImports (a : Atlas) (q : UsageQuery) : List UsageRecord :=
  if q.scope == .usages then [] else q.filePath.toList.flatMap a.importsOf

/-- The mentions that a query means. -/
def wantedMentions (a : Atlas) (q : UsageQuery) : List UsageRecord :=
  if q.scope == .imports then []
  else (q.methodName.toList ++ q.className.toList).flatMap a.mentioning

/-- The usages that a query means, by file and line. An edge that is found twice is listed once, as
an import if it is one. -/
def usages (a : Atlas) (q : UsageQuery) : Except Fault (List UsageRecord) :=
  if q.filePath.isNone && q.methodName.isNone && q.className.isNone then .error .noUsageTarget
  else
    let found := firstByKey UsageRecord.key [] (a.wantedImports q ++ a.wantedMentions q)
    .ok (found.mergeSort UsageRecord.before)

end Atlas

end SourceAtlas
