import SourceAtlas.Text.Word
/-!
Line patterns with ordered choice. A pattern is read from a place of a line on and hands each of its
ends, the preferred one first, to what comes next: an alternative is preferred to the ones after it,
a repetition to a shorter one, and `fewest` prefers the nearest end. A `run` takes all that stands
there and gives nothing back, so a pattern that wants an earlier end says so by an alternative, and
reading a line takes a number of steps that grows with its length only.
-/

namespace SourceAtlas

/-- A place in a line: how many characters stand before it, the last of them, and what follows. -/
structure Cursor where
  read : Nat
  last : Option Char
  after : List Char
  deriving DecidableEq, Repr

namespace Cursor

/-- The place before the first character. -/
def start (line : List Char) : Cursor := ⟨0, none, line⟩

/-- The place behind the next character, if there is one. -/
def next? (k : Cursor) : Option (Char × Cursor) :=
  match k.after with
  | [] => none
  | c :: rest => some (c, ⟨k.read + 1, some c, rest⟩)

/-- The text between two places of one line, the second not before the first. -/
def upTo (k stop : Cursor) : List Char := k.after.take (stop.read - k.read)

/-- A word character stands on one side of the place and none on the other. -/
def atWordEdge (k : Cursor) : Bool := k.last.any Text.isWord != k.after.head?.any Text.isWord

/-- The place behind all characters of a class that follow. -/
def skipFrom (accepts : Char → Bool) : (read : Nat) → (last : Option Char) → List Char → Cursor
  | read, last, [] => ⟨read, last, []⟩
  | read, last, c :: cs =>
    if accepts c then skipFrom accepts (read + 1) (some c) cs else ⟨read, last, c :: cs⟩

/-- The place behind all characters of a class that follow. -/
def skip (accepts : Char → Bool) (k : Cursor) : Cursor := skipFrom accepts k.read k.last k.after

end Cursor

/-- Where a pattern has ended, and where its groups began and ended, the latest first. -/
structure Match where
  cursor : Cursor
  groups : List (Nat × Cursor × Cursor)
  deriving DecidableEq, Repr

namespace Match

/-- A match that has read nothing. -/
def start (k : Cursor) : Match := ⟨k, []⟩

/-- The match moved on to a place. -/
def moveTo (m : Match) (k : Cursor) : Match := { m with cursor := k }

/-- The text of a group, if the group took part in the match. -/
def group? (m : Match) (index : Nat) : Option (List Char) :=
  (m.groups.lookup index).map fun (first, last) => first.upTo last

/-- The text of a group that takes part in every match. -/
def group (m : Match) (index : Nat) : List Char := (m.group? index).getD []

/-- What follows the match. -/
def rest (m : Match) : List Char := m.cursor.after

end Match

/-- A pattern over the characters of one line. -/
inductive Pattern where
  /-- Reads nothing. -/
  | empty
  /-- Reads one character of a class. -/
  | one (accepts : Char → Bool)
  /-- Reads nothing, at the edge of a word. -/
  | wordEdge
  /-- Reads nothing, at the end of the line. -/
  | lineEnd
  /-- The first pattern, then the second. -/
  | both (p q : Pattern)
  /-- The first pattern or else the second. -/
  | either (p q : Pattern)
  /-- Reads all characters of a class that follow. -/
  | run (accepts : Char → Bool)
  /-- Reads as few characters of a class as what comes next allows. -/
  | fewest (accepts : Char → Bool)
  /-- Any number of times, as often as possible. -/
  | many (p : Pattern)
  /-- The pattern where the text that it read fits. -/
  | only (fits : List Char → Bool) (p : Pattern)
  /-- Keeps what the pattern read under a number. -/
  | group (index : Nat) (p : Pattern)

namespace Pattern

/-- What comes next, at the first of the places from here on where it can go on. Only characters of
the class are passed over. -/
def advance (accepts : Char → Bool) (next : Cursor → Option Match) :
    (read : Nat) → (last : Option Char) → List Char → Option Match
  | read, last, [] => next ⟨read, last, []⟩
  | read, last, c :: cs =>
    match next ⟨read, last, c :: cs⟩ with
    | some m => some m
    | none => if accepts c then advance accepts next (read + 1) (some c) cs else none

/-- What comes next, behind as many steps as it can go on from. `fuel` bounds the steps; the number
of characters left is enough. -/
def repeated (step : (Match → Option Match) → Match → Option Match) (next : Match → Option Match) :
    (fuel : Nat) → Match → Option Match
  | 0, m => next m
  | fuel + 1, m =>
    match step (repeated step next fuel) m with
    | some e => some e
    | none => next m

/-- Reads a pattern from where `m` has ended and goes on with `next`, from the first end of the
pattern from which `next` comes to a match. -/
def find? : Pattern → (next : Match → Option Match) → Match → Option Match
  | empty, next, m => next m
  | one accepts, next, m =>
    match m.cursor.next? with
    | some (c, k) => if accepts c then next (m.moveTo k) else none
    | none => none
  | wordEdge, next, m => if m.cursor.atWordEdge then next m else none
  | lineEnd, next, m => if m.rest.isEmpty then next m else none
  | both p q, next, m => find? p (find? q next) m
  | either p q, next, m =>
    match find? p next m with
    | some e => some e
    | none => find? q next m
  | run accepts, next, m => next (m.moveTo (m.cursor.skip accepts))
  | fewest accepts, next, m =>
    advance accepts (fun k => next (m.moveTo k)) m.cursor.read m.cursor.last m.cursor.after
  | many p, next, m => repeated (find? p) next m.rest.length m
  | only fits p, next, m =>
    find? p (fun e => if fits (m.cursor.upTo e.cursor) then next e else none) m
  | group i p, next, m =>
    find? p (fun e => next { e with groups := (i, m.cursor, e.cursor) :: e.groups }) m

/-! ### Building patterns -/

/-- The patterns of a list one after the other. -/
def all : List Pattern → Pattern
  | [] => empty
  | [p] => p
  | p :: ps => both p (all ps)

/-- The first of the patterns that leads to a match. -/
def anyOf : List Pattern → Pattern
  | [] => one fun _ => false
  | [p] => p
  | p :: ps => either p (anyOf ps)

/-- The character itself. -/
def char (c : Char) : Pattern := one (· == c)

/-- The characters of a text in their order. -/
def literal (text : String) : Pattern := all (text.toList.map char)

/-- The pattern if possible, else nothing. -/
def optional (p : Pattern) : Pattern := either p empty

/-- All characters of a class that follow, one at least. -/
def oneOrMore (accepts : Char → Bool) : Pattern := both (one accepts) (run accepts)

/-- One of the texts. -/
def word (texts : List String) : Pattern := anyOf (texts.map literal)

/-! ### Matching -/

/-- The match of a pattern that starts at a place. -/
def matchAt? (p : Pattern) (k : Cursor) : Option Match := p.find? some (Match.start k)

/-- The match of a pattern at the start of a line. -/
def match? (p : Pattern) (line : List Char) : Option Match := p.matchAt? (Cursor.start line)

/-- The leftmost match among the places from here on. -/
def searchFrom? (p : Pattern) : (read : Nat) → (last : Option Char) → List Char → Option Match
  | read, last, [] => p.matchAt? ⟨read, last, []⟩
  | read, last, c :: cs =>
    match p.matchAt? ⟨read, last, c :: cs⟩ with
    | some m => some m
    | none => searchFrom? p (read + 1) (some c) cs

/-- The leftmost match in a line. -/
def search? (p : Pattern) (line : List Char) : Option Match := p.searchFrom? 0 none line

/-- The matches from a place on, none overlapping the one before. The search is over when a match
reads nothing. -/
def searchAllFrom (p : Pattern) : (fuel : Nat) → Cursor → List Match
  | 0, _ => []
  | fuel + 1, k =>
    match p.searchFrom? k.read k.last k.after with
    | none => []
    | some m => if k.read < m.cursor.read then m :: p.searchAllFrom fuel m.cursor else [m]

/-- The matches in a line from left to right, none overlapping the one before. -/
def searchAll (p : Pattern) (line : List Char) : List Match :=
  p.searchAllFrom (line.length + 1) (Cursor.start line)

end Pattern

end SourceAtlas
