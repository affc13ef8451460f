import SourceAtlas.Text.Basic
/-!
Which lines stand directly in the body of a class. Braces are counted line by line, outside of
quotes and line comments; a class is recorded with the depth that its body will have, and is left
when the depth falls below it.
-/

namespace SourceAtlas.Source

/-- Braces that open and close on a line. -/
structure Braces where
  opened : Nat := 0
  closed : Nat := 0
  deriving DecidableEq, Repr

/-- The braces of a text. `quote` is the quote that is open; a backslash in quotes hides the next
character, and `//` outside of them ends the line. -/
def countBraces : (quote : Option Char) → List Char → Braces
  | _, [] => {}
  | some _, '\\' :: [] => {}
  | some q, '\\' :: _ :: cs => countBraces (some q) cs
  | some q, c :: cs => countBraces (if c = q then none else some q) cs
  | none, '/' :: '/' :: _ => {}
  | none, c :: cs =>
    if c.toNat == 0x27 || c == '"' || c.toNat == 0x60 then countBraces (some c) cs
    else
      let rest := countBraces none cs
      if c == '{' then { rest with opened := rest.opened + 1 }
      else if c == '}' then { rest with closed := rest.closed + 1 }
      else rest

/-- A class that was declared: the depth of its body, and whether the body has opened. -/
structure ClassBody where
  depth : Nat
  opened : Bool
  deriving DecidableEq, Repr

/-- The depth behind the lines read so far, and the classes they stand in, the innermost first. -/
structure Nesting where
  depth : Nat := 0
  classes : List ClassBody := []
  deriving DecidableEq, Repr

namespace Nesting

/-- A class is declared here. -/
def enter (n : Nesting) : Nesting := { n with classes := ⟨n.depth + 1, false⟩ :: n.classes }

/-- A class whose body never opened is forgotten. -/
def dropUnopened (n : Nesting) : Nesting :=
  match n.classes with
  | body :: rest => if body.opened then n else { n with classes := rest }
  | [] => n

/-- The next line stands directly in a class body. -/
def inBody (n : Nesting) : Bool :=
  match n.classes with
  | body :: _ => body.opened && body.depth == n.depth
  | [] => false

/-- The classes that are left at a depth, on a line that opens braces or not. -/
def settle (depth : Nat) (opens : Bool) : List ClassBody → List ClassBody
  | [] => []
  | body :: rest =>
    if body.depth ≤ depth then { body with opened := true } :: rest
    else if body.opened || opens then settle depth opens rest
    else body :: rest

/-- The nesting behind a line. -/
def advance (n : Nesting) (line : List Char) : Nesting :=
  let braces := countBraces none line
  let ended := braces.opened == 0 && (Text.trimEnd line).getLast? == some ';'
  let n := if ended then n.dropUnopened else n
  let depth := n.depth + braces.opened - braces.closed
  ⟨depth, settle depth (braces.opened != 0) n.classes⟩

end Nesting

end SourceAtlas.Source
