import SourceAtlas.Source.Bracket
import SourceAtlas.Source.Rule
/-!
Parameter lists. A parameter is written `name?: type = default`, perhaps with a decorator and
modifiers in front and with `...` before its name; only the name must be there.
-/

namespace SourceAtlas.Source

/-- The words that may stand before a parameter's name, each with the space behind it. -/
def parameterModifiers : List (List Char) :=
  ["public ", "private ", "protected ", "readonly ", "override "].map String.toList

/-- The text without the modifiers in front. `fuel` bounds their number. -/
def dropModifiers : (fuel : Nat) → List Char → List Char
  | 0, text => text
  | fuel + 1, text =>
    match parameterModifiers.findSome? fun m => Text.stripPrefix? m text with
    | some rest => dropModifiers fuel (Text.trimStart rest)
    | none => text

/-- The text without a decorator in front. -/
def dropDecorator (text : List Char) : List Char :=
  match parameterDecoratorRule.match? text with
  | some m => m.rest
  | none => text

/-- An `=` between these neighbours begins a default: it is no part of `=>`, `==`, `!=`, `<=` or
`>=`. -/
def beginsDefault (prev : Char) (next : Option Char) : Bool :=
  !(next == some '>' || next == some '=') &&
    !(prev == '=' || prev == '!' || prev == '<' || prev == '>')

/-- What stands before the `=` of a default, and the default. -/
def splitDefaultFrom : (prev : Char) → (depth : Nat) → List Char → List Char × Option (List Char)
  | _, _, [] => ([], none)
  | prev, depth, c :: cs =>
    if c == '=' && depth == 0 && beginsDefault prev cs.head? then ([], some cs)
    else
      let (front, value) := splitDefaultFrom c (nesting prev c depth) cs
      (c :: front, value)

/-- A declaration cut at the first top-level `:` that something follows before the next one. -/
def splitType (declaration : List Char) : List Char × Option (List Char) :=
  match splitTop ':' declaration with
  | name :: type :: _ =>
    if (Text.trim type).isEmpty then (declaration, none)
    else (Text.trim name, some (Text.trim (declaration.drop (name.length + 1))))
  | _ => (declaration, none)

/-- The text without the `...` in front, however often it stands there. `fuel` bounds how often. -/
def dropDots : (fuel : Nat) → List Char → List Char
  | fuel + 1, '.' :: '.' :: '.' :: rest => dropDots fuel rest
  | _, text => text

/-- The parameter that a trimmed text declares. -/
def parseParameter (raw : List Char) : Parameter :=
  let text := dropModifiers raw.length (dropDecorator raw)
  let (declaration, default) := splitDefaultFrom noChar 0 text
  let (named, type) := splitType (Text.trim declaration)
  let named := dropDots named.length named
  let (name, isOptional) := match Text.stripSuffix? ['?'] named with
    | some name => (name, some true)
    | none => (named, none)
  { name := .ofList (Text.trim name)
    type := type.map .ofList
    isOptional
    defaultValue := default.map fun d => .ofList (Text.trim d) }

/-- The parameters of a list, in their order. -/
def parseParameters (list : List Char) : List Parameter :=
  (((splitTop ',' list).map Text.trim).filter (!·.isEmpty)).map parseParameter

end SourceAtlas.Source
