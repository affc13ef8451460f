import SourceAtlas.Json.Basic
/-!
The strict JSON reader. A reader takes characters and gives a value with the characters left, or
nothing. Arrays and objects are nested at most `maxDepth` deep; a value that is only passed over must
be well formed, and no more is asked of it.
-/

namespace SourceAtlas.Json

/-- How deep arrays and objects may stand in one another. -/
def maxDepth : Nat := 127

/-- A reader of one kind of value. -/
abbrev Reader (α : Type) := List Char → Option (α × List Char)

/-- White space between tokens. -/
def isSpace (c : Char) : Bool := c == ' ' || c == '\n' || c == '\t' || c == '\r'

/-- The characters after white space. -/
def skipSpace (cs : List Char) : List Char := cs.dropWhile isSpace

/-! ### Strings -/

/-- The value of a hexadecimal digit. -/
def hexDigit? (c : Char) : Option Nat :=
  if '0' ≤ c && c ≤ '9' then some (c.toNat - 48)
  else if 'a' ≤ c && c ≤ 'f' then some (c.toNat - 87)
  else if 'A' ≤ c && c ≤ 'F' then some (c.toNat - 55)
  else none

/-- The value of four hexadecimal digits. -/
def hex4? (a b c d : Char) : Option Nat := do
  let a ← hexDigit? a
  let b ← hexDigit? b
  let c ← hexDigit? c
  let d ← hexDigit? d
  return ((a * 16 + b) * 16 + c) * 16 + d

/-- The character of a one-letter escape. -/
def escaped? : Char → Option Char
  | '"' => some '"'
  | '\\' => some '\\'
  | '/' => some '/'
  | 'b' => some '\x08'
  | 'f' => some '\x0c'
  | 'n' => some '\n'
  | 'r' => some '\r'
  | 't' => some '\t'
  | _ => none

/-- The character of two surrogates, a high one before a low one. -/
def pair? (high low : Nat) : Option Char :=
  if 0xD800 ≤ high && high < 0xDC00 && 0xDC00 ≤ low && low < 0xE000 then
    some (Char.ofNat (0x10000 + (high - 0xD800) * 0x400 + (low - 0xDC00)))
  else none

/-- The code point is half of a pair. -/
def isSurrogate (n : Nat) : Bool := 0xD800 ≤ n && n < 0xE000

/-- The rest of a string behind its opening quote; `read` holds what was read, the last first. A
control character must be escaped, and a surrogate needs its other half. -/
def stringFrom (read : List Char) : Reader String
  | [] => none
  | '"' :: rest => some (.ofList read.reverse, rest)
  | '\\' :: 'u' :: a :: b :: c :: d :: rest =>
    match hex4? a b c d with
    | none => none
    | some n =>
      if isSurrogate n then
        match rest with
        | '\\' :: 'u' :: e :: f :: g :: h :: rest' =>
          match (hex4? e f g h).bind (pair? n) with
          | some char => stringFrom (char :: read) rest'
          | none => none
        | _ => none
      else stringFrom (Char.ofNat n :: read) rest
  | '\\' :: e :: rest =>
    match escaped? e with
    | some char => stringFrom (char :: read) rest
    | none => none
  | c :: rest => if c.toNat < 0x20 || c == '\\' then none else stringFrom (c :: read) rest

/-! ### Numbers -/

/-- The value of a run of decimal digits. -/
def digitsValue (ds : List Char) : Nat := ds.foldl (fun n c => n * 10 + (c.toNat - 48)) 0

/-- Digits without a leading zero, unless the zero stands alone. -/
def wholeDigits? (cs : List Char) : Option (List Char × List Char) :=
  match cs.takeWhile Char.isDigit, cs.dropWhile Char.isDigit with
  | [], _ => none
  | '0' :: _ :: _, _ => none
  | ds, rest => some (ds, rest)

/-- The digits behind a decimal point, if there is one. -/
def fraction? : List Char → Option (Option (List Char) × List Char)
  | '.' :: cs =>
    match cs.takeWhile Char.isDigit with
    | [] => none
    | ds => some (some ds, cs.dropWhile Char.isDigit)
  | cs => some (none, cs)

/-- The exponent, if there is one. -/
def exponent? : List Char → Option (Option Int × List Char)
  | c :: cs =>
    if c == 'e' || c == 'E' then
      let (negative, cs) := match cs with
        | '-' :: rest => (true, rest)
        | '+' :: rest => (false, rest)
        | rest => (false, rest)
      match cs.takeWhile Char.isDigit with
      | [] => none
      | ds =>
        let n : Int := digitsValue ds
        some (some (if negative then -n else n), cs.dropWhile Char.isDigit)
    else some (none, c :: cs)
  | [] => some (none, [])

/-- The number of the first digits, as many as fit 64 bits, behind those of `n`; and the digits that
are left. -/
def fitting : (n : Nat) → List Char → Nat × List Char
  | n, [] => (n, [])
  | n, c :: cs =>
    let longer := n * 10 + (c.toNat - 48)
    if longer < unsignedLimit then fitting longer cs else (n, c :: cs)

/-- An integer of 64 bits, signed or not; a negative one that does not fit, and `-0`, is a double. -/
def integer? (negative : Bool) (n : Nat) : Option JsonNumber :=
  if !negative then some (.int n)
  else if n != 0 && n ≤ signedLimit then some (.int (-n))
  else (Binary64.ofScaled? true n 0).map .real

/-- A number. A fraction, an exponent or too many digits make it a double, which must be finite. Of
the digits as many count as fit 64 bits. -/
def number? (cs : List Char) : Option (JsonNumber × List Char) := do
  let (negative, cs) := match cs with
    | '-' :: rest => (true, rest)
    | rest => (false, rest)
  let (whole, cs) ← wholeDigits? cs
  let (behind, cs) ← fraction? cs
  let (exponent, cs) ← exponent? cs
  let (n, dropped) := fitting 0 whole
  if behind.isNone && exponent.isNone && dropped.isEmpty then
    return (← integer? negative n, cs)
  let places := behind.getD []
  let (n, unread) := fitting n places
  let power : Int := exponent.getD 0 + dropped.length + unread.length - places.length
  return (.real (← Binary64.ofScaled? negative n power), cs)

/-! ### Documents -/

/-- What follows a fixed word. -/
def keyword? (word : String) (value : Json) : Reader Json := fun cs =>
  if word.toList.isPrefixOf cs then some (value, cs.drop word.length) else none

/-- The items up to the closing character, one at least, with commas between them. `fuel` bounds
their number. -/
def itemsUntil (close : Char) (item : Reader α) : (fuel : Nat) → Reader (List α)
  | 0, _ => none
  | fuel + 1, cs =>
    match item cs with
    | none => none
    | some (a, cs) =>
      match skipSpace cs with
      | [] => none
      | c :: cs =>
        if c == close then some ([a], cs)
        else if c == ',' then
          match itemsUntil close item fuel cs with
          | some (rest, cs) => some (a :: rest, cs)
          | none => none
        else none

/-- A possibly empty sequence up to the closing character. -/
def sequence (close : Char) (item : Reader α) : Reader (List α) := fun cs =>
  match skipSpace cs with
  | [] => none
  | c :: rest => if c == close then some ([], rest) else itemsUntil close item (cs.length + 1) cs

/-- A name and the colon behind it. -/
def name? : Reader String := fun cs =>
  match skipSpace cs with
  | '"' :: cs =>
    match stringFrom [] cs with
    | some (name, cs) =>
      match skipSpace cs with
      | ':' :: cs => some (name, cs)
      | _ => none
    | none => none
  | _ => none

/-- A name, a colon and a value. -/
def member (value : Reader Json) : Reader (String × Json) := fun cs =>
  match name? cs with
  | some (name, cs) =>
    match value cs with
    | some (j, cs) => some ((name, j), cs)
    | none => none
  | none => none

/-- A value behind white space. `depth` says how many more arrays and objects may open. -/
def value (depth : Nat) : Reader Json := fun cs =>
  match skipSpace cs with
  | [] => none
  | '"' :: cs => (stringFrom [] cs).map fun (s, rest) => (string s, rest)
  | '[' :: cs =>
    match depth with
    | 0 => none
    | depth + 1 => (sequence ']' (value depth) cs).map fun (items, rest) => (array items, rest)
  | '{' :: cs =>
    match depth with
    | 0 => none
    | depth + 1 =>
      (sequence '}' (member (value depth)) cs).map fun (members, rest) => (object members, rest)
  | 'n' :: cs => keyword? "null" null ('n' :: cs)
  | 't' :: cs => keyword? "true" (bool true) ('t' :: cs)
  | 'f' :: cs => keyword? "false" (bool false) ('f' :: cs)
  | cs => (number? cs).map fun (n, rest) => (number n, rest)

/-- The document written in a text, members as often as they are mentioned. -/
def readRaw? (text : List Char) : Option Json :=
  match value maxDepth text with
  | some (j, rest) => if (skipSpace rest).isEmpty then some j else none
  | none => none

/-- The document that a text means. -/
def read? (text : String) : Option Json := (readRaw? text.toList).map settle

/-! ### Passing over values -/

/-- What follows a string, behind its opening quote. Escapes must be written right, but no surrogate
needs its other half. -/
def skipString : List Char → Option (List Char)
  | [] => none
  | '"' :: rest => some rest
  | '\\' :: 'u' :: a :: b :: c :: d :: rest =>
    if (hex4? a b c d).isSome then skipString rest else none
  | '\\' :: e :: rest => if (escaped? e).isSome then skipString rest else none
  | c :: rest => if c.toNat < 0x20 || c == '\\' then none else skipString rest

/-- What follows a number of any size. -/
def skipNumber (cs : List Char) : Option (List Char) := do
  let cs := match cs with
    | '-' :: rest => rest
    | rest => rest
  let (_, cs) ← wholeDigits? cs
  let (_, cs) ← fraction? cs
  let (_, cs) ← exponent? cs
  return cs

/-- What follows a fixed word or a number. -/
def skipPlain : List Char → Option (List Char)
  | 'n' :: 'u' :: 'l' :: 'l' :: cs => some cs
  | 't' :: 'r' :: 'u' :: 'e' :: cs => some cs
  | 'f' :: 'a' :: 'l' :: 's' :: 'e' :: cs => some cs
  | cs => skipNumber cs

/-- What follows a name and the colon behind it. -/
def skipName (cs : List Char) : Option (List Char) :=
  match skipSpace cs with
  | '"' :: cs =>
    match skipString cs with
    | some cs =>
      match skipSpace cs with
      | ':' :: cs => some cs
      | _ => none
    | none => none
  | _ => none

/-- What is expected next when a value is passed over. -/
inductive Expected where
  | value
  | separator

/-- What follows a value and all that it stands in. `open_` holds the closing characters of those,
the innermost first, and `fuel` bounds the tokens. -/
def skipFrom : (fuel : Nat) → Expected → (open_ : List Char) → List Char → Option (List Char)
  | 0, _, _, _ => none
  | _ + 1, .separator, [], cs => some cs
  | fuel + 1, .separator, close :: outer, cs =>
    match skipSpace cs with
    | [] => none
    | c :: cs =>
      if c == close then skipFrom fuel .separator outer cs
      else if c != ',' then none
      else if close == ']' then skipFrom fuel .value (close :: outer) cs
      else match skipName cs with
        | some cs => skipFrom fuel .value (close :: outer) cs
        | none => none
  | fuel + 1, .value, outer, cs =>
    match skipSpace cs with
    | '"' :: cs =>
      match skipString cs with
      | some cs => skipFrom fuel .separator outer cs
      | none => none
    | '[' :: cs =>
      match skipSpace cs with
      | ']' :: cs => skipFrom fuel .separator outer cs
      | cs => skipFrom fuel .value (']' :: outer) cs
    | '{' :: cs =>
      match skipSpace cs with
      | '}' :: cs => skipFrom fuel .separator outer cs
      | cs =>
        match skipName cs with
        | some cs => skipFrom fuel .value ('}' :: outer) cs
        | none => none
    | cs =>
      match skipPlain cs with
      | some cs => skipFrom fuel .separator outer cs
      | none => none

/-- What follows a value, which may be nested to any depth and hold numbers of any size. -/
def skipValue (cs : List Char) : Option (List Char) := skipFrom (cs.length + 2) .value [] cs

/-! ### Records -/

/-- A member of a record: one of its fields, or one that is passed over. -/
def fieldMember (names : List String) (value : Reader Json) : Reader (Option (String × Json)) :=
  fun cs =>
    match name? cs with
    | some (name, cs) =>
      if names.contains name then (value cs).map fun (j, rest) => (some (name, j), rest)
      else (skipValue cs).map fun rest => (none, rest)
    | none => none

/-- The record written in a text, with the members under its names as often as they are mentioned.
The others are only passed over. -/
def readRecord? (names : List String) (text : List Char) : Option Json :=
  match skipSpace text with
  | '{' :: cs =>
    match sequence '}' (fieldMember names (value (maxDepth - 1))) cs with
    | some (members, rest) =>
      if (skipSpace rest).isEmpty then some (object (members.filterMap id)) else none
    | none => none
  | _ => readRaw? text

end SourceAtlas.Json
