import SourceAtlas.Json.Basic
import SourceAtlas.Text.Basic
/-!
Aliases for import specifiers: a text with at most one `*`, and the targets that stand for it.
-/

namespace SourceAtlas

/-- A text to match: whole, or with one gap between a beginning and an ending. -/
inductive Alias where
  | exact (text : List Char)
  | gap (front back : List Char)
  deriving DecidableEq, Repr

namespace Alias

/-- The alias that a text denotes; one with two or more `*` denotes none. -/
def ofString? (pattern : String) : Option Alias :=
  match Text.split '*' pattern.toList with
  | [text] => some (.exact text)
  | [front, back] => some (.gap front back)
  | _ => none

/-- What the gap holds in a specifier that the alias matches; a whole text leaves it empty. -/
def capture? : Alias → List Char → Option (List Char)
  | exact text, s => if s = text then some [] else none
  | gap front back, s => (Text.stripPrefix? front s).bind (Text.stripSuffix? back)

/-- A target with its first `*` filled in. -/
def fill (captured : List Char) : List Char → List Char
  | [] => []
  | c :: cs => if c = '*' then captured ++ cs else c :: fill captured cs

/-- The conditions under which a package names a target, the preferred one first. -/
def conditions : List String := ["import", "default", "require", "node"]

mutual

/-- The target of a package alias: a text, or the target under the first condition that has one. -/
def packageTarget? : Json → Option String
  | .string s => some s
  | .object members =>
    let targets := conditionTargets members
    conditions.findSome? fun condition => (targets.lookup condition).join
  | _ => none

/-- The target under each condition. -/
def conditionTargets : List (String × Json) → List (String × Option String)
  | [] => []
  | (name, j) :: rest => (name, packageTarget? j) :: conditionTargets rest

end

end Alias

end SourceAtlas
