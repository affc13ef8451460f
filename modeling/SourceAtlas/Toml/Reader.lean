import SourceAtlas.Json.Reader
import SourceAtlas.Toml.Table
/-!
The TOML reader. A document is a list of lines: headers, assignments, blank lines and comments. A
reader takes characters and gives what it read with the characters left, or nothing.
-/

namespace SourceAtlas.Toml

/-- A reader of one kind of thing. -/
abbrev Reader (α : Type) := List Char → Option (α × List Char)

/-- How many arrays and inline tables may stand in one another, and the keys of a dotted key. -/
def maxDepth : Nat := 79

/-! ### Spaces and comments -/

/-- A space or a tab. -/
def isGap (c : Char) : Bool := c == ' ' || c == '\t'

/-- The characters behind spaces and tabs. -/
def skipGap (cs : List Char) : List Char := cs.dropWhile isGap

/-- A control character other than the tab, which no comment and no text may hold. -/
def isControl (c : Char) : Bool := (c.toNat < 0x20 && c != '\t') || c.toNat == 0x7F

/-- What follows the end of a line. -/
def newline? : List Char → Option (List Char)
  | '\n' :: cs => some cs
  | '\r' :: '\n' :: cs => some cs
  | _ => none

/-- What follows a comment, if there is one. -/
def skipComment : List Char → List Char
  | '#' :: cs => cs.dropWhile (!isControl ·)
  | cs => cs

/-- What follows spaces, comments and line ends inside an array. `fuel` bounds their number. -/
def skipLines : (fuel : Nat) → List Char → List Char
  | 0, cs => cs
  | fuel + 1, cs =>
    let cs := skipComment (skipGap cs)
    match newline? cs with
    | some rest => skipLines fuel rest
    | none => cs

/-! ### Texts -/

/-- The character of a one-letter escape. -/
def escaped? : Char → Option Char
  | 'b' => some '\x08'
  | 't' => some '\t'
  | 'n' => some '\n'
  | 'f' => some '\x0c'
  | 'r' => some '\r'
  | '"' => some '"'
  | '\\' => some '\\'
  | _ => none

/-- The character with the code that a number of hexadecimal digits give. -/
def scalar? (digits : List Char) : Option Char := do
  let ds ← digits.mapM Json.hexDigit?
  let n := ds.foldl (fun n d => n * 16 + d) 0
  if n < 0x110000 && !Json.isSurrogate n then some (Char.ofNat n) else none

/-- The character of an escape behind its backslash. -/
def escape? : Reader Char
  | 'u' :: a :: b :: c :: d :: cs => (scalar? [a, b, c, d]).map (·, cs)
  | 'U' :: a :: b :: c :: d :: e :: f :: g :: h :: cs =>
    (scalar? [a, b, c, d, e, f, g, h]).map (·, cs)
  | c :: cs => (escaped? c).map (·, cs)
  | [] => none

/-- The rest of a text in double quotes. `read` holds what was read, the last first. -/
def basicFrom (read : List Char) : Reader String
  | [] => none
  | '"' :: rest => some (.ofList read.reverse, rest)
  | '\\' :: 'u' :: a :: b :: c :: d :: rest =>
    match scalar? [a, b, c, d] with
    | some char => basicFrom (char :: read) rest
    | none => none
  | '\\' :: 'U' :: a :: b :: c :: d :: e :: f :: g :: h :: rest =>
    match scalar? [a, b, c, d, e, f, g, h] with
    | some char => basicFrom (char :: read) rest
    | none => none
  | '\\' :: e :: rest =>
    match escaped? e with
    | some char => basicFrom (char :: read) rest
    | none => none
  | c :: rest => if isControl c || c == '\\' then none else basicFrom (c :: read) rest

/-- The rest of a text in single quotes, in which nothing is escaped. -/
def literalFrom (read : List Char) : Reader String
  | [] => none
  | c :: cs =>
    if c.toNat == 0x27 then some (.ofList read.reverse, cs)
    else if isControl c then none
    else literalFrom (c :: read) cs

/-- What follows blanks and line ends. `fuel` bounds the number of lines. -/
def skipBlankLines : (fuel : Nat) → List Char → List Char
  | 0, cs => cs
  | fuel + 1, cs =>
    match newline? (skipGap cs) with
    | some rest => skipBlankLines fuel rest
    | none => skipGap cs

/-- What follows a backslash at the end of a line: all blanks and line ends up to the next text. -/
def skipContinuation (fuel : Nat) (cs : List Char) : Option (List Char) :=
  (newline? (skipGap cs)).map (skipBlankLines fuel)

/-- The rest of a text over several lines. Three quotes end it; up to two more before them belong to
the text. `fuel` is more than the characters left. -/
def multilineFrom (quote : Char) (escapes : Bool) : (fuel : Nat) → (read : List Char) → Reader String
  | 0, _, _ => none
  | fuel + 1, read, cs =>
    match cs with
    | [] => none
    | c :: rest =>
      if c == quote then
        let run := (cs.takeWhile (· == quote)).length
        if run < 3 then multilineFrom quote escapes fuel (c :: read) rest
        else
          let extra := min (run - 3) 2
          some (.ofList (read.reverse ++ List.replicate extra quote), cs.drop (extra + 3))
      else if escapes && c == '\\' then
        match escape? rest with
        | some (d, rest) => multilineFrom quote escapes fuel (d :: read) rest
        | none =>
          match skipContinuation fuel rest with
          | some rest => multilineFrom quote escapes fuel read rest
          | none => none
      else match newline? cs with
        | some rest => multilineFrom quote escapes fuel ('\n' :: read) rest
        | none => if isControl c then none else multilineFrom quote escapes fuel (c :: read) rest

/-- A text over several lines behind its three quotes. A line end right there is not part of it. -/
def multiline (quote : Char) (escapes : Bool) : Reader String := fun cs =>
  multilineFrom quote escapes (cs.length + 1) [] ((newline? cs).getD cs)

/-- The single quote. -/
def apostrophe : Char := Char.ofNat 0x27

/-- A text on one line. -/
def lineText? : Reader String
  | '"' :: cs => basicFrom [] cs
  | c :: cs => if c == apostrophe then literalFrom [] cs else none
  | [] => none

/-- A text of any form. -/
def text? : Reader String
  | '"' :: '"' :: '"' :: cs => multiline '"' true cs
  | a :: b :: c :: cs =>
    if a == apostrophe && b == apostrophe && c == apostrophe then multiline apostrophe false cs
    else lineText? (a :: b :: c :: cs)
  | cs => lineText? cs

/-! ### Keys -/

/-- A character of a key without quotes. -/
def isBare (c : Char) : Bool := c.isAlphanum || c == '_' || c == '-'

/-- One key. -/
def key? (cs : List Char) : Option (String × List Char) :=
  match cs.takeWhile isBare with
  | [] => lineText? cs
  | bare => some (.ofList bare, cs.dropWhile isBare)

/-- Keys with dots between them. `fuel` bounds their number. -/
def keysFrom : (fuel : Nat) → Reader (List String)
  | 0, _ => none
  | fuel + 1, cs =>
    match key? (skipGap cs) with
    | none => none
    | some (key, cs) =>
      match skipGap cs with
      | '.' :: rest => (keysFrom fuel rest).map fun (keys, cs) => (key :: keys, cs)
      | cs => some ([key], cs)

/-- A dotted key. -/
def keys? : Reader (List String) := keysFrom maxDepth

/-! ### Numbers -/

/-- Digits of a class with single underscores between them. -/
def digits? (isDigit : Char → Bool) : Reader (List Char)
  | [] => none
  | c :: '_' :: cs =>
    if isDigit c then (digits? isDigit cs).map fun (ds, cs) => (c :: ds, cs) else none
  | c :: cs =>
    if isDigit c then
      match digits? isDigit cs with
      | some (ds, cs) => some (c :: ds, cs)
      | none => if cs.head?.any isDigit then none else some ([c], cs)
    else none

/-- A sign, if there is one. -/
def sign : List Char → Bool × List Char
  | '-' :: cs => (true, cs)
  | '+' :: cs => (false, cs)
  | cs => (false, cs)

/-- Decimal digits of a whole number, without a leading zero unless it stands alone. -/
def decimal? (cs : List Char) : Option (List Char × List Char) :=
  match cs with
  | '0' :: rest => some (['0'], rest)
  | _ => digits? Char.isDigit cs

/-- The number that digits of a base give. -/
def number (base : Nat) (ds : List Char) : Nat :=
  ds.foldl (fun n c => n * base + (Json.hexDigit? c).getD 0) 0

/-- A whole number that fits 64 bits with its sign. -/
def integer? (cs : List Char) : Option (Value × List Char) :=
  let based (base : Nat) (isDigit : Char → Bool) (cs : List Char) : Option (Int × List Char) :=
    (digits? isDigit cs).map fun (ds, cs) => ((number base ds : Int), cs)
  let read : Option (Int × List Char) := match cs with
    | '0' :: 'x' :: rest => based 16 (fun c => (Json.hexDigit? c).isSome) rest
    | '0' :: 'o' :: rest => based 8 (fun c => '0' ≤ c && c ≤ '7') rest
    | '0' :: 'b' :: rest => based 2 (fun c => c == '0' || c == '1') rest
    | _ =>
      let (negative, cs) := sign cs
      (decimal? cs).map fun (ds, cs) =>
        let n : Int := number 10 ds
        (if negative then -n else n, cs)
  read.bind fun (n, cs) =>
    if isSigned64 n then some (.integer n, cs) else none

/-- The digits behind the point of a fraction. -/
def places? : Reader (List Char)
  | '.' :: cs => digits? Char.isDigit cs
  | _ => none

/-- The exponent of a fraction. -/
def power? : Reader Int
  | c :: cs =>
    if c == 'e' || c == 'E' then
      let (negative, cs) := sign cs
      (digits? Char.isDigit cs).map fun (ds, cs) =>
        let n : Int := number 10 ds
        (if negative then -n else n, cs)
    else none
  | [] => none

/-- A number with a point or an exponent, or one of the words for what is no number. It may lie below
every double, but not above. -/
def fraction? (cs : List Char) : Option (Value × List Char) :=
  let (negative, rest) := sign cs
  match rest with
  | 'i' :: 'n' :: 'f' :: rest => some (.fraction, rest)
  | 'n' :: 'a' :: 'n' :: rest => some (.fraction, rest)
  | _ => do
    let (whole, rest) ← decimal? rest
    let (ds, exponent, rest) ← match places? rest with
      | some (ds, rest) => match power? rest with
        | some (e, rest) => some (ds, e, rest)
        | none => some (ds, 0, rest)
      | none => (power? rest).map fun (e, rest) => (([] : List Char), e, rest)
    let size := Binary64.ofDecimal? false (number 10 (whole ++ ds)) (exponent - ds.length)
    if negative || size.isSome then some (.fraction, rest) else none

/-! ### Dates and times -/

/-- A number of exactly `n` digits, within bounds. -/
def fixed? (n low high : Nat) (cs : List Char) : Option (Nat × List Char) :=
  let ds := cs.take n
  let value := number 10 ds
  if ds.length == n && ds.all Char.isDigit && low ≤ value && value ≤ high then
    some (value, cs.drop n)
  else none

/-- What follows a character. -/
def expect? (c : Char) : List Char → Option (List Char)
  | d :: cs => if c == d then some cs else none
  | [] => none

/-- The days of a month. -/
def monthDays (year month : Nat) : Nat :=
  if month == 2 then
    if (year % 4 == 0 && year % 100 != 0) || year % 400 == 0 then 29 else 28
  else if [4, 6, 9, 11].contains month then 30 else 31

/-- What follows a date. -/
def date? (cs : List Char) : Option (List Char) := do
  let (year, cs) ← fixed? 4 0 9999 cs
  let cs ← expect? '-' cs
  let (month, cs) ← fixed? 2 1 12 cs
  let cs ← expect? '-' cs
  let (_, cs) ← fixed? 2 1 (monthDays year month) cs
  return cs

/-- What follows a time of day. -/
def time? (cs : List Char) : Option (List Char) := do
  let (_, cs) ← fixed? 2 0 23 cs
  let cs ← expect? ':' cs
  let (_, cs) ← fixed? 2 0 59 cs
  let cs ← expect? ':' cs
  let (_, cs) ← fixed? 2 0 60 cs
  match cs with
  | '.' :: rest => if (rest.takeWhile Char.isDigit).isEmpty then none else
      some (rest.dropWhile Char.isDigit)
  | _ => some cs

/-- What follows the offset of a time, if it has one. -/
def skipOffset (cs : List Char) : List Char :=
  let offset? (cs : List Char) : Option (List Char) := do
    let (_, cs) ← fixed? 2 0 23 cs
    let cs ← expect? ':' cs
    let (_, cs) ← fixed? 2 0 59 cs
    return cs
  match cs with
  | 'Z' :: rest => rest
  | 'z' :: rest => rest
  | c :: rest => if c == '+' || c == '-' then (offset? rest).getD cs else cs
  | [] => []

/-- A date, a time, or both with or without an offset. -/
def moment? (cs : List Char) : Option (Value × List Char) :=
  match date? cs with
  | some rest =>
    match rest with
    | c :: after =>
      if c == 'T' || c == 't' || c == ' ' then
        match time? after with
        | some rest => some (.moment, skipOffset rest)
        | none => some (.moment, rest)
      else some (.moment, rest)
    | [] => some (.moment, [])
  | none => (time? cs).map fun rest => (.moment, rest)

/-! ### Values -/

/-- The items of an array up to its bracket, over any number of lines; a comma may stand behind the
last. `fuel` is more than the characters left. -/
def itemsFrom (value : Reader Value) : (fuel : Nat) → Reader (List Value)
  | 0, _ => none
  | fuel + 1, cs =>
    match skipLines (fuel + 1) cs with
    | ']' :: rest => some ([], rest)
    | cs =>
      match value cs with
      | none => none
      | some (v, cs) =>
        match skipLines (fuel + 1) cs with
        | ']' :: rest => some ([v], rest)
        | ',' :: rest => (itemsFrom value fuel rest).map fun (vs, cs) => (v :: vs, cs)
        | _ => none

/-- The entries of an inline table up to its brace, on one line and with nothing behind the last. -/
def entriesFrom (value : Reader Value) : (fuel : Nat) → Entries → Reader Entries
  | 0, _, _ => none
  | fuel + 1, entries, cs =>
    match keys? cs with
    | none => none
    | some (keys, cs) =>
      match skipGap cs with
      | '=' :: cs =>
        match value (skipGap cs) with
        | none => none
        | some (v, cs) =>
          match assign v none keys entries with
          | none => none
          | some entries =>
            match skipGap cs with
            | '}' :: rest => some (entries, rest)
            | ',' :: rest => entriesFrom value fuel entries rest
            | _ => none
      | _ => none

/-- An inline table behind its opening brace. -/
def inlineTable? (value : Reader Value) (cs : List Char) : Option (Value × List Char) :=
  match skipGap cs with
  | '}' :: rest => some (.table [], rest)
  | _ => (entriesFrom value (cs.length + 1) [] cs).map fun (entries, rest) =>
    (.table (entryValues entries), rest)

/-- What follows a fixed word. -/
def word? (word : String) (value : Value) (cs : List Char) : Option (Value × List Char) :=
  if word.toList.isPrefixOf cs then some (value, cs.drop word.length) else none

/-- A value. `depth` says how many more arrays and inline tables may open. -/
def value? (depth : Nat) : Reader Value := fun cs =>
  match cs with
  | '[' :: rest =>
    match depth with
    | 0 => none
    | depth + 1 =>
      (itemsFrom (value? depth) (rest.length + 1) rest).map fun (vs, cs) => (.array vs, cs)
  | '{' :: rest =>
    match depth with
    | 0 => none
    | depth + 1 => inlineTable? (value? depth) rest
  | 't' :: _ => word? "true" (.boolean true) cs
  | 'f' :: _ => word? "false" (.boolean false) cs
  | c :: _ =>
    if c == '"' || c == apostrophe then (text? cs).map fun (s, rest) => (.string s, rest)
    else (moment? cs).or ((fraction? cs).or (integer? cs))
  | [] => none

/-! ### Documents -/

/-- The table that assignments go to, and what was read so far. -/
structure Draft where
  header : List String := []
  entries : Entries := []

/-- The draft behind a header. -/
def Draft.openHeader? (d : Draft) (repeated : Bool) (keys : List String) : Option Draft :=
  match keys.getLast? with
  | none => none
  | some key =>
    let make := if repeated then addTable key else openTable key
    (within make keys.dropLast d.entries).map fun entries => ⟨keys, entries⟩

/-- The draft behind an assignment. -/
def Draft.assign? (d : Draft) (keys : List String) (value : Value) : Option Draft :=
  (within (assign value none keys) d.header d.entries).map fun entries => { d with entries }

/-- The draft behind a header or an assignment, and what follows it on its line. -/
def Draft.expression? (d : Draft) : Reader Draft
  | '[' :: '[' :: cs =>
    match keys? cs with
    | some (keys, ']' :: ']' :: rest) => (d.openHeader? true keys).map (·, rest)
    | _ => none
  | '[' :: cs =>
    match keys? cs with
    | some (keys, ']' :: rest) => (d.openHeader? false keys).map (·, rest)
    | _ => none
  | cs =>
    match keys? cs with
    | some (keys, '=' :: rest) =>
      match value? maxDepth (skipGap rest) with
      | some (v, rest) => (d.assign? keys v).map (·, rest)
      | none => none
    | _ => none

/-- The draft behind all lines. `fuel` bounds their number. -/
def Draft.lines? : (fuel : Nat) → Draft → List Char → Option Draft
  | 0, _, _ => none
  | fuel + 1, d, cs =>
    let cs := skipGap cs
    let line := match cs with
      | [] => some (d, [])
      | '#' :: _ => some (d, cs)
      | _ => if (newline? cs).isSome then some (d, cs) else d.expression? cs
    match line with
    | none => none
    | some (d, rest) =>
      match skipComment (skipGap rest) with
      | [] => some d
      | rest =>
        match newline? rest with
        | some rest => Draft.lines? fuel d rest
        | none => none

/-- The table that a text describes; a byte order mark before it is passed over. -/
def read? (text : String) : Option Value :=
  let cs := match text.toList with
    | c :: rest => if c.toNat == 0xFEFF then rest else c :: rest
    | [] => []
  (Draft.lines? (cs.length + 1) {} cs).map fun d => .table (entryValues d.entries)

end SourceAtlas.Toml
