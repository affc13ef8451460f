import SourceAtlas.Fault
import SourceAtlas.Text.Basic
/-!
What an index holds: files, symbols with their parameters, routes, and the edges from a file to what
it imports. Lines and columns count from 1, columns in bytes.
-/

namespace SourceAtlas

/-- What a symbol declares. -/
inductive SymbolKind where
  | function
  | method
  | classType
  | interface
  | typeAlias
  | enumeration
  | binding
  deriving DecidableEq, Repr

namespace SymbolKind

/-- All kinds. -/
def all : List SymbolKind :=
  [function, method, classType, interface, typeAlias, enumeration, binding]

/-- The word for a kind. -/
def word : SymbolKind → String
  | function => "function"
  | method => "method"
  | classType => "class"
  | interface => "interface"
  | typeAlias => "type"
  | enumeration => "enum"
  | binding => "variable"

/-- The kind that a word names. -/
def ofWord? (w : String) : Option SymbolKind := all.find? (·.word == w)

/-- The kind that a request names. -/
def parse (w : String) : Except Fault SymbolKind :=
  match ofWord? w with
  | some k => .ok k
  | none => .error (.unknownKind w)

/-- A filter by kind; `all`, in any case, filters nothing. -/
def parseFilter (w : String) : Except Fault (Option SymbolKind) :=
  if Text.asciiLower w.toList == ['a', 'l', 'l'] then .ok none
  else match parse w with
    | .ok k => .ok (some k)
    | .error e => .error e

end SymbolKind

/-- Who may call a method. -/
inductive Visibility where
  | everyone
  | ownClass
  | subclasses
  deriving DecidableEq, Repr

namespace Visibility

/-- All of them. -/
def all : List Visibility := [everyone, ownClass, subclasses]

/-- The word for a visibility. -/
def word : Visibility → String
  | everyone => "public"
  | ownClass => "private"
  | subclasses => "protected"

/-- The visibility that a word names. -/
def ofWord? (w : String) : Option Visibility := all.find? (·.word == w)

end Visibility

/-- The verbs of a route. -/
inductive HttpMethod where
  | get
  | post
  | put
  | delete
  | patch
  | head
  | options
  deriving DecidableEq, Repr

namespace HttpMethod

/-- All verbs. -/
def all : List HttpMethod := [get, post, put, delete, patch, head, options]

/-- The verb in small letters, as calls write it. -/
def callName : HttpMethod → String
  | get => "get"
  | post => "post"
  | put => "put"
  | delete => "delete"
  | patch => "patch"
  | head => "head"
  | options => "options"

/-- The verb in capitals. -/
def word : HttpMethod → String
  | get => "GET"
  | post => "POST"
  | put => "PUT"
  | delete => "DELETE"
  | patch => "PATCH"
  | head => "HEAD"
  | options => "OPTIONS"

/-- The verb that a word in capitals names. -/
def ofWord? (w : String) : Option HttpMethod := all.find? (·.word == w)

/-- The verb that a word names, whatever the case of its letters. -/
def ofCall? (w : List Char) : Option HttpMethod :=
  all.find? (·.callName.toList == Text.asciiLower w)

/-- The verb that a request names. -/
def parse (w : String) : Except Fault HttpMethod :=
  match ofCall? w.toList with
  | some m => .ok m
  | none => .error (.unknownMethod w)

end HttpMethod

/-- How one file depends on another. Extraction finds imports only. -/
inductive DependencyKind where
  | importing
  | calling
  | extending
  | implementing
  | usage
  deriving DecidableEq, Repr

namespace DependencyKind

/-- All of them. -/
def all : List DependencyKind := [importing, calling, extending, implementing, usage]

/-- The word for a kind of dependency. -/
def word : DependencyKind → String
  | importing => "import"
  | calling => "call"
  | extending => "extends"
  | implementing => "implements"
  | usage => "uses"

/-- The kind of dependency that a word names. -/
def ofWord? (w : String) : Option DependencyKind := all.find? (·.word == w)

end DependencyKind

/-- A file of the project. The extension has its dot; the time is in milliseconds. -/
structure FileRecord where
  path : String
  name : String
  extension : String
  size : Nat
  lastModified : Int
  relativePath : String
  deriving DecidableEq, Repr

/-- A parameter of a function or method. -/
structure Parameter where
  name : String
  type : Option String := none
  isOptional : Option Bool := none
  defaultValue : Option String := none
  deriving DecidableEq, Repr

/-- A declared symbol, with the line that declares it. -/
structure SymbolRecord where
  name : String
  kind : SymbolKind
  filePath : String
  line : Nat
  column : Nat
  parameters : Option (List Parameter) := none
  returnType : Option String := none
  visibility : Option Visibility := none
  isStatic : Option Bool := none
  isAsync : Option Bool := none
  superclass : Option String := none
  interfaces : Option (List String) := none
  signature : String
  deriving DecidableEq, Repr

/-- A declared HTTP route. -/
structure RouteRecord where
  path : String
  method : HttpMethod
  filePath : String
  line : Nat
  handler : Option String := none
  middleware : Option (List String) := none
  deriving DecidableEq, Repr

/-- An edge from a file to the text of an import, and to the file it leads to when that is known. -/
structure DependencyEdge where
  source : String
  specifier : String
  resolved : Option String := none
  kind : DependencyKind
  filePath : String
  line : Nat
  deriving DecidableEq, Repr

/-- Where an edge leads: the file if it is known, else the text. -/
def DependencyEdge.target (e : DependencyEdge) : String := e.resolved.getD e.specifier

end SourceAtlas
