import SourceAtlas.Json.Decode
import SourceAtlas.Record.Basic
/-!
The written form of records. An unset optional field is left out, so a record is read back from what
is written of it.
-/

namespace SourceAtlas

namespace Parameter

/-- The written form of a parameter. -/
def toJson (p : Parameter) : Json :=
  .object (("name", .string p.name) :: Json.optional "type" .string p.type ++
    Json.optional "optional" .bool p.isOptional ++
    Json.optional "defaultValue" .string p.defaultValue)

/-- The parameter that a document describes. -/
def ofJson? (j : Json) : Option Parameter := do
  let fs ← j.fields? ["name", "type", "optional", "defaultValue"] 1
  let name ← Json.required fs "name" Json.string?
  let type ← Json.unsettable fs "type" Json.string?
  let isOptional ← Json.unsettable fs "optional" Json.bool?
  let defaultValue ← Json.unsettable fs "defaultValue" Json.string?
  return ⟨name, type, isOptional, defaultValue⟩

end Parameter

namespace FileRecord

/-- The written form of a file. -/
def toJson (f : FileRecord) : Json :=
  .object [("path", .string f.path), ("name", .string f.name), ("extension", .string f.extension),
    ("size", .nat f.size), ("lastModified", .int f.lastModified),
    ("relativePath", .string f.relativePath)]

/-- The file that a document describes. -/
def ofJson? (j : Json) : Option FileRecord := do
  let fs ← j.fields? ["path", "name", "extension", "size", "lastModified", "relativePath"] 6
  let path ← Json.required fs "path" Json.string?
  let name ← Json.required fs "name" Json.string?
  let extension ← Json.required fs "extension" Json.string?
  let size ← Json.required fs "size" Json.nat?
  let lastModified ← Json.required fs "lastModified" Json.int?
  let relativePath ← Json.required fs "relativePath" Json.string?
  return ⟨path, name, extension, size, lastModified, relativePath⟩

end FileRecord

namespace SymbolRecord

/-- The names of the fields in their order. -/
def fieldNames : List String :=
  ["name", "kind", "filePath", "line", "column", "parameters", "returnType", "visibility",
    "isStatic", "isAsync", "extends", "implements", "signature"]

/-- The members of a symbol's written form. -/
def members (s : SymbolRecord) : List (String × Json) :=
  [("name", .string s.name), ("kind", .string s.kind.word), ("filePath", .string s.filePath),
    ("line", .nat s.line), ("column", .nat s.column)] ++
  Json.optional "parameters" (fun ps => .array (ps.map Parameter.toJson)) s.parameters ++
  Json.optional "returnType" .string s.returnType ++
  Json.optional "visibility" (fun v => .string v.word) s.visibility ++
  Json.optional "isStatic" .bool s.isStatic ++
  Json.optional "isAsync" .bool s.isAsync ++
  Json.optional "extends" .string s.superclass ++
  Json.optional "implements" (fun names => .array (names.map .string)) s.interfaces ++
  [("signature", .string s.signature)]

/-- The written form of a symbol. -/
def toJson (s : SymbolRecord) : Json := .object s.members

/-- The symbol that a document describes. -/
def ofJson? (j : Json) : Option SymbolRecord := do
  let fs ← j.fields? fieldNames 13
  let name ← Json.required fs "name" Json.string?
  let kind ← Json.required fs "kind" (Json.choice? SymbolKind.ofWord?)
  let filePath ← Json.required fs "filePath" Json.string?
  let line ← Json.required fs "line" Json.nat?
  let column ← Json.required fs "column" Json.nat?
  let parameters ← Json.unsettable fs "parameters" (Json.list? Parameter.ofJson?)
  let returnType ← Json.unsettable fs "returnType" Json.string?
  let visibility ← Json.unsettable fs "visibility" (Json.choice? Visibility.ofWord?)
  let isStatic ← Json.unsettable fs "isStatic" Json.bool?
  let isAsync ← Json.unsettable fs "isAsync" Json.bool?
  let superclass ← Json.unsettable fs "extends" Json.string?
  let interfaces ← Json.unsettable fs "implements" (Json.list? Json.string?)
  let signature ← Json.required fs "signature" Json.string?
  return ⟨name, kind, filePath, line, column, parameters, returnType, visibility, isStatic, isAsync,
    superclass, interfaces, signature⟩

end SymbolRecord

namespace RouteRecord

/-- The written form of a route. -/
def toJson (r : RouteRecord) : Json :=
  .object ([("path", .string r.path), ("method", .string r.method.word),
      ("filePath", .string r.filePath), ("line", .nat r.line)] ++
    Json.optional "handler" .string r.handler ++
    Json.optional "middleware" (fun names => .array (names.map .string)) r.middleware)

/-- The route that a document describes. -/
def ofJson? (j : Json) : Option RouteRecord := do
  let fs ← j.fields? ["path", "method", "filePath", "line", "handler", "middleware"] 4
  let path ← Json.required fs "path" Json.string?
  let method ← Json.required fs "method" (Json.choice? HttpMethod.ofWord?)
  let filePath ← Json.required fs "filePath" Json.string?
  let line ← Json.required fs "line" Json.nat?
  let handler ← Json.unsettable fs "handler" Json.string?
  let middleware ← Json.unsettable fs "middleware" (Json.list? Json.string?)
  return ⟨path, method, filePath, line, handler, middleware⟩

end RouteRecord

namespace DependencyEdge

/-- The written form of an edge. -/
def toJson (e : DependencyEdge) : Json :=
  .object ([("from", .string e.source), ("to", .string e.specifier)] ++
    Json.optional "resolvedTo" .string e.resolved ++
    [("type", .string e.kind.word), ("filePath", .string e.filePath), ("line", .nat e.line)])

/-- The edge that a document describes. -/
def ofJson? (j : Json) : Option DependencyEdge := do
  let fs ← j.fields? ["from", "to", "resolvedTo", "type", "filePath", "line"] 6
  let source ← Json.required fs "from" Json.string?
  let specifier ← Json.required fs "to" Json.string?
  let resolved ← Json.unsettable fs "resolvedTo" Json.string?
  let kind ← Json.required fs "type" (Json.choice? DependencyKind.ofWord?)
  let filePath ← Json.required fs "filePath" Json.string?
  let line ← Json.required fs "line" Json.nat?
  return ⟨source, specifier, resolved, kind, filePath, line⟩

end DependencyEdge

end SourceAtlas
