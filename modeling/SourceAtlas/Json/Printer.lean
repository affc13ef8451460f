import SourceAtlas.Json.Basic
/-!
The two written forms of a document: `compact` on one line, and `pretty` with an indentation of two
spaces. Only quotes, backslashes and control characters are escaped in strings.
-/

namespace SourceAtlas.Json

/-- A hexadecimal digit. -/
def hexDigit (n : Nat) : Char :=
  if n < 10 then Char.ofNat (48 + n) else Char.ofNat (87 + n)

/-- One character of a string. -/
def escape (c : Char) : List Char :=
  if c == '"' then ['\\', '"']
  else if c == '\\' then ['\\', '\\']
  else if c == '\x08' then ['\\', 'b']
  else if c == '\x0c' then ['\\', 'f']
  else if c == '\n' then ['\\', 'n']
  else if c == '\r' then ['\\', 'r']
  else if c == '\t' then ['\\', 't']
  else if c.toNat < 0x20 then
    ['\\', 'u', '0', '0', hexDigit (c.toNat / 16), hexDigit (c.toNat % 16)]
  else [c]

/-- A string in its quotes. -/
def quoted (s : String) : List Char := '"' :: s.toList.flatMap escape ++ ['"']

/-- A number. -/
def numberText : JsonNumber → List Char
  | .int i => (toString i).toList
  | .real x => x.print

mutual

/-- The document on one line without spaces. -/
def compactText : Json → List Char
  | null => ['n', 'u', 'l', 'l']
  | bool true => ['t', 'r', 'u', 'e']
  | bool false => ['f', 'a', 'l', 's', 'e']
  | number n => numberText n
  | string s => quoted s
  | array items => '[' :: compactItems items ++ [']']
  | object members => '{' :: compactMembers members ++ ['}']

/-- Items with commas between them. -/
def compactItems : List Json → List Char
  | [] => []
  | [j] => compactText j
  | j :: rest => compactText j ++ ',' :: compactItems rest

/-- Members with commas between them. -/
def compactMembers : List (String × Json) → List Char
  | [] => []
  | [(name, j)] => quoted name ++ ':' :: compactText j
  | (name, j) :: rest => quoted name ++ ':' :: compactText j ++ ',' :: compactMembers rest

end

/-- A new line with its indentation. -/
def newLine (depth : Nat) : List Char := '\n' :: List.replicate (2 * depth) ' '

mutual

/-- The document spread over lines, standing `depth` levels deep. -/
def prettyText (depth : Nat) : Json → List Char
  | array [] => ['[', ']']
  | array items => '[' :: prettyItems (depth + 1) items ++ newLine depth ++ [']']
  | object [] => ['{', '}']
  | object members => '{' :: prettyMembers (depth + 1) members ++ newLine depth ++ ['}']
  | null => ['n', 'u', 'l', 'l']
  | bool true => ['t', 'r', 'u', 'e']
  | bool false => ['f', 'a', 'l', 's', 'e']
  | number n => numberText n
  | string s => quoted s

/-- Items, each on a line of its own. -/
def prettyItems (depth : Nat) : List Json → List Char
  | [] => []
  | [j] => newLine depth ++ prettyText depth j
  | j :: rest => newLine depth ++ prettyText depth j ++ ',' :: prettyItems depth rest

/-- Members, each on a line of its own. -/
def prettyMembers (depth : Nat) : List (String × Json) → List Char
  | [] => []
  | [(name, j)] => newLine depth ++ quoted name ++ ':' :: ' ' :: prettyText depth j
  | (name, j) :: rest =>
    newLine depth ++ quoted name ++ ':' :: ' ' :: prettyText depth j ++
      ',' :: prettyMembers depth rest

end

/-- The document on one line. -/
def compact (j : Json) : String := .ofList (compactText j)

/-- The document spread over lines. -/
def pretty (j : Json) : String := .ofList (prettyText 0 j)

end SourceAtlas.Json
