import SourceAtlas.Text.Basic
/-!
Glob patterns over slash-separated relative paths, and the filter made of them. A glob is a list of
tokens; `Glob.matchTails` says for every tail of a path whether the tokens match it, from the last
token to the first, so matching takes one pass over the path per token.
-/

namespace SourceAtlas

/-- One token of a glob. -/
inductive GlobToken where
  /-- `**` before a slash, and that slash: nothing, or any directories. -/
  | directories
  /-- `**` elsewhere: any text on one line. -/
  | anything
  /-- `*`: any text within one name. -/
  | within
  /-- `?`: one character other than a line break. -/
  | single
  /-- The character itself. -/
  | exactly (c : Char)
  deriving DecidableEq, Repr

/-- A glob pattern. -/
structure Glob where
  tokens : List GlobToken
  deriving DecidableEq, Repr

namespace Glob

/-- The tokens of a pattern text, read from left to right. -/
def tokenize : List Char → List GlobToken
  | '*' :: '*' :: '/' :: rest => .directories :: tokenize rest
  | '*' :: '*' :: rest => .anything :: tokenize rest
  | '*' :: rest => .within :: tokenize rest
  | '?' :: rest => .single :: tokenize rest
  | c :: rest => .exactly c :: tokenize rest
  | [] => []

/-- The glob that a pattern text denotes; every text denotes one. -/
def ofString (pattern : String) : Glob := ⟨tokenize pattern.toList⟩

/-- Tails of a text from which one character of a class leads to an accepted tail. `tails` holds an
answer for each tail of the text, the empty one included. -/
def stepTails (accepts : Char → Bool) : (text : List Char) → (tails : List Bool) → List Bool
  | c :: cs, _ :: ts => (accepts c && ts.head?.getD false) :: stepTails accepts cs ts
  | _, _ => [false]

/-- Tails from which any number of characters of a class leads to an accepted tail. -/
def runTails (accepts : Char → Bool) : (text : List Char) → (tails : List Bool) → List Bool
  | c :: cs, t :: ts =>
    let rest := runTails accepts cs ts
    (t || (accepts c && rest.head?.getD false)) :: rest
  | _, tails => tails

/-- Tails from which some text that ends in a slash leads to an accepted tail. -/
def slashTails : (text : List Char) → (tails : List Bool) → List Bool
  | c :: cs, _ :: ts =>
    let rest := slashTails cs ts
    (c != '\n' && ((c == '/' && ts.head?.getD false) || rest.head?.getD false)) :: rest
  | _, _ => [false]

/-- The answers for the tails of a text with one more token in front. -/
def tokenTails (text : List Char) (tails : List Bool) : GlobToken → List Bool
  | .directories => tails.zipWith (· || ·) (slashTails text tails)
  | .anything => runTails (· != '\n') text tails
  | .within => runTails (· != '/') text tails
  | .single => stepTails (· != '\n') text tails
  | .exactly c => stepTails (· == c) text tails

/-- With no token left only the empty tail is matched. -/
def emptyTails : List Char → List Bool
  | [] => [true]
  | _ :: cs => false :: emptyTails cs

/-- For each tail of the text, longest first, whether the tokens match it. -/
def matchTails (text : List Char) (tokens : List GlobToken) : List Bool :=
  tokens.foldr (fun token tails => tokenTails text tails token) (emptyTails text)

/-- The glob matches the whole path. -/
def accepts (g : Glob) (path : String) : Bool :=
  (matchTails path.toList g.tokens).head?.getD false

end Glob

/-- Which files of a project are taken. -/
structure FileFilter where
  included : List Glob
  excluded : List Glob
  deriving DecidableEq, Repr

namespace FileFilter

/-- The filter of two lists of pattern texts. Every text makes a pattern: that a matcher cannot be made
of one that is too large is left to `Procedure.analyze`, which takes the patterns it can be made of as a
parameter. -/
def ofPatterns (included excluded : List String) : FileFilter :=
  ⟨included.map Glob.ofString, excluded.map Glob.ofString⟩

/-- No exclusion matches the file, and some inclusion does unless there is none. -/
def takesFile (f : FileFilter) (path : String) : Bool :=
  !f.excluded.any (·.accepts path) && (f.included.isEmpty || f.included.any (·.accepts path))

/-- An exclusion matches the directory with a slash behind it, so nothing below it is looked at. -/
def prunes (f : FileFilter) (directory : String) : Bool :=
  f.excluded.any (·.accepts (directory ++ "/"))

end FileFilter

end SourceAtlas
