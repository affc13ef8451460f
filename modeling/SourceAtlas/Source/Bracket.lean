import SourceAtlas.Text.Basic
/-!
Brackets in declarations. A scan carries the depth of open brackets of all four kinds together; a `>`
closes one unless it ends an arrow `=>`, and a closing bracket without an open one counts for
nothing.
-/

namespace SourceAtlas.Source

/-- The depth behind the character `c`, which follows `prev`. -/
def nesting (prev c : Char) (depth : Nat) : Nat :=
  if c == '(' || c == '[' || c == '{' || c == '<' then depth + 1
  else if c == ')' || c == ']' || c == '}' then depth - 1
  else if c == '>' && prev != '=' then depth - 1
  else depth

/-- Stands before the first character, where nothing precedes. -/
def noChar : Char := '\x00'

/-- The pieces between the separators that stand outside of all brackets. -/
def splitOutside (sep : Char) : (prev : Char) → (depth : Nat) → List Char → List (List Char)
  | _, _, [] => [[]]
  | prev, depth, c :: cs =>
    if c == sep && depth == 0 then [] :: splitOutside sep c depth cs
    else match splitOutside sep c (nesting prev c depth) cs with
      | [] => [[c]]
      | piece :: pieces => (c :: piece) :: pieces

/-- The pieces of a text between top-level separators. -/
def splitTop (sep : Char) (text : List Char) : List (List Char) := splitOutside sep noChar 0 text

/-- What stands before the `)` that closes a list, and what stands behind it. -/
def closingFrom : (prev : Char) → (depth : Nat) → List Char → Option (List Char × List Char)
  | _, _, [] => none
  | prev, depth, c :: cs =>
    if c == ')' && depth == 0 then some ([], cs)
    else (closingFrom c (nesting prev c depth) cs).map fun (list, tail) => (c :: list, tail)

/-- The parameter list at the start of a text behind its `(`, and what follows the `)`. A list that
is not closed on its line runs to the end, with nothing following. -/
def splitParameterList (text : List Char) : List Char × Option (List Char) :=
  match closingFrom noChar 0 text with
  | some (list, tail) => (list, some tail)
  | none => (text, none)

/-- A type is still to come behind this text, so a `{` opens an object type. The text is given from
its end. -/
def awaitsType (before : List Char) : Bool :=
  match before.dropWhile Text.isBlank with
  | [] => true
  | '>' :: '=' :: _ => true
  | c :: _ => c == '|' || c == '&' || c == '<' || c == ',' || c == ':' || c == '('

/-- An annotation ends before a `;` outside of brackets, or before the `{` of a body. `before` holds
what was read of it, the last first. -/
def annotationFrom (before : List Char) : (depth : Nat) → List Char → List Char × List Char
  | _, [] => ([], [])
  | depth, c :: cs =>
    if depth == 0 && (c == ';' || (c == '{' && !awaitsType before)) then ([], c :: cs)
    else
      let (type, rest) :=
        annotationFrom (c :: before) (nesting (before.head?.getD noChar) c depth) cs
      (c :: type, rest)

/-- The return type behind a parameter list, if one is given, and what follows it. -/
def splitReturnType (tail : List Char) : Option (List Char) × List Char :=
  match Text.trimStart tail with
  | ':' :: annotation =>
    let (type, rest) := annotationFrom [] 0 annotation
    let type := Text.trim type
    (if type.isEmpty then none else some type, rest)
  | _ => (none, tail)

/-- What follows the `>` that closes `depth` open angle brackets; nothing if they stay open. -/
def behindAngles : (depth : Nat) → List Char → List Char
  | _, [] => []
  | depth, c :: cs =>
    if c == '<' then behindAngles (depth + 1) cs
    else if c == '>' then if depth ≤ 1 then cs else behindAngles (depth - 1) cs
    else behindAngles depth cs

/-- The text behind a leading list of type parameters. -/
def skipTypeParameters (text : List Char) : List Char :=
  match Text.trimStart text with
  | '<' :: rest => behindAngles 1 rest
  | _ => text

/-- A name without its type arguments. -/
def bareName (name : List Char) : List Char := Text.trim (name.takeWhile (· != '<'))

end SourceAtlas.Source
