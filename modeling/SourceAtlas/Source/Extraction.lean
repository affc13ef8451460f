import SourceAtlas.Import.Resolver
import SourceAtlas.Source.ClassBody
import SourceAtlas.Source.Declaration
/-!
What a source text declares. The lines are read one after the other; only the nesting of braces, by
which methods are told from other lines, is carried from line to line.
-/

namespace SourceAtlas

/-- The records of one file. -/
structure Extraction where
  symbols : List SymbolRecord := []
  routes : List RouteRecord := []
  dependencies : List DependencyEdge := []
  deriving DecidableEq, Repr

namespace Extraction

/-- The records of one text followed by those of another. -/
def append (a b : Extraction) : Extraction :=
  ⟨a.symbols ++ b.symbols, a.routes ++ b.routes, a.dependencies ++ b.dependencies⟩

end Extraction

namespace Source

/-- The extensions of the files whose text is read. -/
def readableExtensions : List String := ["ts", "tsx", "js", "jsx", "mjs"]

/-- The text of such a file is read. -/
def isReadable (path : String) : Bool :=
  (Path.extension? path.toList).any fun e => readableExtensions.contains (.ofList e)

namespace SourceLine

/-- The edges to the modules that the line names. -/
def dependencies (l : SourceLine) (resolver : Resolver) : List DependencyEdge :=
  l.specifiers.map fun s =>
    { source := l.filePath, specifier := .ofList s
      resolved := resolver.resolve? (.ofList s) l.filePath
      kind := .importing, filePath := l.filePath, line := l.number }

/-- The symbols that the line declares wherever it stands. -/
def declared (l : SourceLine) : List SymbolRecord :=
  l.function?.toList ++ l.arrowFunction?.toList ++ l.class?.toList ++ l.interface?.toList ++
    l.typeAlias?.toList ++ l.enumeration?.toList

/-- The nesting in which the rest of the line stands: a class declared here is recorded, and any
declaration makes an end of a class that has not opened. -/
def nestingWithin (l : SourceLine) (n : Nesting) : Nesting :=
  if l.class?.isSome then n.dropUnopened.enter
  else if !l.declared.isEmpty then n.dropUnopened
  else n

/-- The line as a method, if it stands directly in a class body. -/
def methodWithin (l : SourceLine) (n : Nesting) : List SymbolRecord :=
  if n.inBody && (functionWordRule.search? l.text).isNone then l.method?.toList else []

/-- The records of one line and the nesting behind it. A comment has no records and counts no
braces. -/
def extract (l : SourceLine) (resolver : Resolver) (n : Nesting) : Extraction × Nesting :=
  if l.isComment then ({}, n)
  else
    let within := l.nestingWithin n
    (⟨l.declared ++ l.methodWithin within, l.routes, l.dependencies resolver⟩, within.advance l.text)

end SourceLine

/-- The records of lines that are numbered from `number` and stand in a nesting. -/
def extractLines (resolver : Resolver) (path : String) :
    (number : Nat) → Nesting → List (List Char) → Extraction
  | _, _, [] => {}
  | number, n, text :: rest =>
    let (found, n) := SourceLine.extract ⟨path, number, text⟩ resolver n
    found.append (extractLines resolver path (number + 1) n rest)

/-- The records of a source text. -/
def extract (resolver : Resolver) (content path : String) : Extraction :=
  extractLines resolver path 1 {} (Text.lines content.toList)

end Source

end SourceAtlas
