/-!
Plain text as a list of characters: blanks, trimming, lines, and the search for one text inside
another. Lengths that leave the library are counted in UTF-8 bytes, so `byteLength` stands beside
`List.length`.
-/

namespace SourceAtlas.Text

/-- The characters that count as white space: the Unicode property `White_Space`. -/
def isBlank (c : Char) : Bool :=
  let n := c.toNat
  (9 ≤ n && n ≤ 13) || n == 0x20 || n == 0x85 || n == 0xA0 || n == 0x1680 ||
    (0x2000 ≤ n && n ≤ 0x200A) || n == 0x2028 || n == 0x2029 || n == 0x202F || n == 0x205F ||
    n == 0x3000

/-- The text without its leading blanks. -/
def trimStart (t : List Char) : List Char := t.dropWhile isBlank

/-- The text without its trailing blanks. -/
def trimEnd (t : List Char) : List Char := (t.reverse.dropWhile isBlank).reverse

/-- The text without blanks at either end. -/
def trim (t : List Char) : List Char := trimEnd (trimStart t)

/-- Length in UTF-8 bytes. -/
def byteLength (t : List Char) : Nat := t.foldl (fun n c => n + c.utf8Size) 0

/-- What follows `start` in a text that begins with it. -/
def stripPrefix? : (start text : List Char) → Option (List Char)
  | [], t => some t
  | _ :: _, [] => none
  | s :: ss, c :: cs => if s = c then stripPrefix? ss cs else none

/-- What precedes `ending` in a text that ends with it. -/
def stripSuffix? (ending text : List Char) : Option (List Char) :=
  (stripPrefix? ending.reverse text.reverse).map List.reverse

/-- `needle` stands somewhere in the text; the empty needle always does. -/
def occursIn (needle : List Char) : List Char → Bool
  | [] => needle.isEmpty
  | c :: cs => needle.isPrefixOf (c :: cs) || occursIn needle cs

/-- The pieces between the separators; `n` separators give `n + 1` pieces. -/
def split (sep : Char) : List Char → List (List Char)
  | [] => [[]]
  | c :: cs =>
    if c = sep then [] :: split sep cs
    else match split sep cs with
      | [] => [[c]]
      | piece :: pieces => (c :: piece) :: pieces

/-- The inverse of `split`. -/
def join (sep : Char) : List (List Char) → List Char
  | [] => []
  | [piece] => piece
  | piece :: pieces => piece ++ sep :: join sep pieces

theorem join_cons_cons (sep : Char) (piece next : List Char) (pieces : List (List Char)) :
    join sep (piece :: next :: pieces) = piece ++ sep :: join sep (next :: pieces) := rfl

/-- A line end may be written `\r\n`: the carriage return is not part of the line. -/
def dropReturn (line : List Char) : List Char := (stripSuffix? ['\r'] line).getD line

/-- A line without the `\n` that ends it, if one does, and the carriage return before that. -/
def dropLineEnd (line : List Char) : List Char :=
  match stripSuffix? ['\n'] line with
  | some line => dropReturn line
  | none => line

/-- The lines of a text. Each `\n` ends a line; text after the last one is a line if there is any,
and only a line that was ended loses its carriage return. -/
def lines (t : List Char) : List (List Char) :=
  let pieces := split '\n' t
  let last := pieces.getLast?.getD []
  pieces.dropLast.map dropReturn ++ if last.isEmpty then [] else [last]

/-- The words of a text: its maximal runs of non-blank characters. -/
def words (t : List Char) : List (List Char) :=
  let (word, rest) := t.foldr
    (fun c (word, rest) =>
      if isBlank c then ([], if word.isEmpty then rest else word :: rest) else (c :: word, rest))
    (([] : List Char), ([] : List (List Char)))
  if word.isEmpty then rest else word :: rest

/-- Each occurrence of `old` replaced by `new`. -/
def replaceChar (old new : Char) (t : List Char) : List Char :=
  t.map fun c => if c = old then new else c

/-- An ASCII capital becomes its small letter; every other character stays. -/
def asciiLower (t : List Char) : List Char := t.map Char.toLower

end SourceAtlas.Text

namespace SourceAtlas

/-- `needle` stands somewhere in `text`. -/
def Text.within (needle text : String) : Bool := Text.occursIn needle.toList text.toList

end SourceAtlas
