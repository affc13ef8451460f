import SourceAtlas.Text.Basic
import SourceAtlas.Json.Reader
/-!
Documents as people write them in project files: with `//` and `/* */` comments, and with a comma
behind the last element. Both are removed outside of strings, and the rest is read strictly.
-/

namespace SourceAtlas.Json

/-- Where a scan of a relaxed document stands. -/
inductive ScanState where
  /-- Between tokens or inside one that is not a string. -/
  | code
  /-- Inside a string. -/
  | quote
  /-- Inside a comment that the line ends. -/
  | lineComment
  /-- Inside a comment that `*/` ends. -/
  | blockComment
  deriving DecidableEq, Repr

/-- The text without its comments. The line end behind a line comment stays. -/
def stripComments : ScanState → List Char → List Char
  | _, [] => []
  | .code, '"' :: cs => '"' :: stripComments .quote cs
  | .code, '/' :: '/' :: cs => stripComments .lineComment cs
  | .code, '/' :: '*' :: cs => stripComments .blockComment cs
  | .code, c :: cs => c :: stripComments .code cs
  | .quote, '\\' :: c :: cs => '\\' :: c :: stripComments .quote cs
  | .quote, '"' :: cs => '"' :: stripComments .code cs
  | .quote, c :: cs => c :: stripComments .quote cs
  | .lineComment, '\n' :: cs => '\n' :: stripComments .code cs
  | .lineComment, _ :: cs => stripComments .lineComment cs
  | .blockComment, '*' :: '/' :: cs => stripComments .code cs
  | .blockComment, _ :: cs => stripComments .blockComment cs

/-- The next character that is not blank closes an array or an object. -/
def closesNext (cs : List Char) : Bool :=
  match (Text.trimStart cs).head? with
  | some c => c == '}' || c == ']'
  | none => false

/-- The text without the commas that stand before a closing bracket. -/
def stripCommas : (inQuote : Bool) → List Char → List Char
  | _, [] => []
  | true, '\\' :: c :: cs => '\\' :: c :: stripCommas true cs
  | true, '"' :: cs => '"' :: stripCommas false cs
  | true, c :: cs => c :: stripCommas true cs
  | false, '"' :: cs => '"' :: stripCommas true cs
  | false, ',' :: cs =>
    if closesNext cs then stripCommas false cs else ',' :: stripCommas false cs
  | false, c :: cs => c :: stripCommas false cs

/-- The strict text of a relaxed document. -/
def strictText (text : List Char) : List Char := stripCommas false (stripComments .code text)

/-- The document that a relaxed text means. -/
def readRelaxed? (text : String) : Option Json := (readRaw? (strictText text.toList)).map settle

end SourceAtlas.Json
