import SourceAtlas.Source.Parameter
/-!
The records that a single line of source declares.
-/

namespace SourceAtlas.Source

/-- A line with where it stands. -/
structure SourceLine where
  filePath : String
  number : Nat
  text : List Char
  deriving DecidableEq, Repr

namespace SourceLine

/-- The column of the first character that is not blank, in bytes from 1. -/
def column (l : SourceLine) : Nat := Text.byteLength (l.text.takeWhile Text.isBlank) + 1

/-- The line is a comment, or inside one as far as a line can tell. -/
def isComment (l : SourceLine) : Bool :=
  match Text.trimStart l.text with
  | '/' :: '/' :: _ => true
  | '/' :: '*' :: _ => true
  | '*' :: _ => true
  | _ => false

/-- A symbol declared on the line, with nothing known but its name and kind. -/
def symbol (l : SourceLine) (name : List Char) (kind : SymbolKind) : SymbolRecord :=
  { name := .ofList name, kind, filePath := l.filePath, line := l.number, column := l.column,
    signature := .ofList (Text.trim l.text) }

/-! ### Symbols -/

/-- A function declaration. -/
def function? (l : SourceLine) : Option SymbolRecord :=
  (functionRule.match? l.text).map fun m =>
    let (list, tail) := splitParameterList m.rest
    { l.symbol (m.group 2) .function with
      parameters := some (parseParameters list)
      returnType := (tail.bind fun t => (splitReturnType t).1).map .ofList
      isAsync := some (m.group? 1).isSome }

/-- The parameters and the return type of a function bound to a name. Without its arrow on the line
it is none. -/
def arrowSignature? (m : Match) : Option (List Char × Option (List Char)) :=
  match m.group? 3 with
  | some parameter => some (parameter, none)
  | none =>
    match splitParameterList m.rest with
    | (list, some tail) =>
      (arrowTailRule.match? tail).map fun t => (list, (t.group? 1).map Text.trim)
    | (_, none) => none

/-- A function bound to a name. -/
def arrowFunction? (l : SourceLine) : Option SymbolRecord :=
  (arrowRule.match? l.text).bind fun m =>
    (arrowSignature? m).map fun (list, returnType) =>
      { l.symbol (m.group 1) .function with
        parameters := some (parseParameters list)
        returnType := returnType.map .ofList
        isAsync := some (m.group? 2).isSome }

/-- The names in a list of interfaces, without their type arguments. -/
def interfaceNames (list : List Char) : List String :=
  (((splitTop ',' list).map fun name => bareName (Text.trim name)).filter (!·.isEmpty)).map .ofList

/-- A class declaration. -/
def class? (l : SourceLine) : Option SymbolRecord :=
  (classRule.match? l.text).map fun m =>
    let s := l.symbol (m.group 1) .classType
    match heritageRule.match? (skipTypeParameters m.rest) with
    | some h =>
      { s with
        superclass := (h.group? 1).map .ofList
        interfaces := (h.group? 2).map interfaceNames }
    | none => s

/-- An interface declaration. -/
def interface? (l : SourceLine) : Option SymbolRecord :=
  (interfaceRule.match? l.text).map fun m =>
    let bases := (interfaceTailRule.match? (skipTypeParameters m.rest)).map fun t =>
      Text.trim (t.group 1)
    { l.symbol (m.group 1) .interface with
      superclass := (bases.filter (!·.isEmpty)).map .ofList }

/-- A type alias. -/
def typeAlias? (l : SourceLine) : Option SymbolRecord :=
  (typeRule.match? l.text).map fun m => l.symbol (m.group 1) .typeAlias

/-- An enumeration. -/
def enumeration? (l : SourceLine) : Option SymbolRecord :=
  (enumRule.match? l.text).map fun m => l.symbol (m.group 1) .enumeration

/-- Who may call a method of this name with these modifiers. -/
def visibility (name : List Char) (modifiers : List (List Char)) : Visibility :=
  if name.head? == some '#' || modifiers.contains "private".toList then .ownClass
  else if modifiers.contains "protected".toList then .subclasses
  else .everyone

/-- Behind the signature of a method stands nothing, its body, or a `;`. -/
def endsSignature (rest : List Char) : Bool :=
  match (Text.trim rest).head? with
  | none => true
  | some c => c == '{' || c == ';'

/-- A method, for a line that stands directly in a class body. -/
def method? (l : SourceLine) : Option SymbolRecord :=
  (methodRule.match? l.text).bind fun m =>
    let name := m.group 2
    let (list, tail) := splitParameterList m.rest
    let (returnType, rest) := match tail with
      | some t => splitReturnType t
      | none => (none, [])
    let modifiers := Text.words (m.group 1)
    if reservedWords.contains (.ofList name) || !endsSignature rest then none
    else some
      { l.symbol name .method with
        parameters := some (parseParameters list)
        returnType := returnType.map .ofList
        visibility := some (visibility name modifiers)
        isStatic := some (modifiers.contains "static".toList)
        isAsync := some (modifiers.contains "async".toList) }

/-! ### Routes and imports -/

/-- The route of a match of one of the route rules. -/
def route? (l : SourceLine) (handler : Option String) (m : Match) : Option RouteRecord :=
  (HttpMethod.ofCall? (m.group 1)).map fun method =>
    { path := .ofList (m.group 2), method, filePath := l.filePath, line := l.number, handler }

/-- The routes declared on a line: the calls, then the decorators. -/
def routes (l : SourceLine) : List RouteRecord :=
  let handler := (routeHandlerRule.search? l.text).map fun m => String.ofList (m.group 1)
  (routeCallRule.searchAll l.text).filterMap (l.route? handler) ++
    (routeDecoratorRule.searchAll l.text).filterMap (l.route? none)

/-- The modules named on a line: by one import or export statement, then by calls of `require`. -/
def specifiers (l : SourceLine) : List (List Char) :=
  let statement := [importRule, reexportRule, importTailRule].findSome? fun p => p.match? l.text
  (statement.toList ++ requireRule.searchAll l.text).map fun m => m.group 1

end SourceLine

end SourceAtlas.Source
