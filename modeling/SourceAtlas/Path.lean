import SourceAtlas.Text.Basic
/-!
Path texts, read as names between slashes. An empty name and the name `.` say nothing, except that a
leading `.` is kept as the mark of a relative path. Everything here is about the text alone: no
function asks whether a path exists.
-/

namespace SourceAtlas

/-- One step of a path. -/
inductive Component where
  /-- The leading slash. -/
  | root
  /-- A leading `.`. -/
  | current
  /-- The name `..`. -/
  | parent
  /-- Any other name. -/
  | name (text : List Char)
  deriving DecidableEq, Repr

namespace Component

/-- The text of a component. -/
def text : Component → List Char
  | root => ['/']
  | current => ['.']
  | parent => ['.', '.']
  | name t => t

end Component

namespace Path

/-- The texts between the slashes. -/
def segments (p : List Char) : List (List Char) := Text.split '/' p

/-- A segment that says nothing: two slashes in a row, a final slash, or `.`. -/
def isIdle (s : List Char) : Bool := s.isEmpty || s == ['.']

/-- The path starts at the root. -/
def isAbsolute (p : List Char) : Bool := p.head? == some '/'

/-- The component that a segment stands for, if it says anything. -/
def component? (s : List Char) : Option Component :=
  if isIdle s then none else if s == ['.', '.'] then some .parent else some (.name s)

/-- The components of a path in their order. -/
def components (p : List Char) : List Component :=
  let body := (segments p).filterMap component?
  if isAbsolute p then .root :: body
  else if (segments p).head? == some ['.'] then .current :: body
  else body

/-- The segments with the idle ones at the end removed. -/
def dropIdleEnd (s : List (List Char)) : List (List Char) := (s.reverse.dropWhile isIdle).reverse

/-- The text of segments that begin a path: idle ones at its end say nothing, but the slash or the
`.` that marks the path's beginning stays. -/
def ofSegments (absolute : Bool) : List (List Char) → List Char
  | [] => []
  | first :: rest =>
    if absolute then '/' :: Text.join '/' (dropIdleEnd rest)
    else if first == ['.'] then Text.join '/' (first :: dropIdleEnd rest)
    else Text.join '/' (dropIdleEnd (first :: rest))

/-- The path without its last component; nothing stands above the root or the empty path. -/
def parent? (p : List Char) : Option (List Char) :=
  match (components p).getLast? with
  | none => none
  | some .root => none
  | some .current => some []
  | some _ => some (ofSegments (isAbsolute p) (dropIdleEnd (segments p)).dropLast)

/-- The path, its parent, the parent of that, and so on: at most `n` of them. -/
def ancestors : (n : Nat) → List Char → List (List Char)
  | 0, _ => []
  | n + 1, p => p :: match parent? p with
    | some q => ancestors n q
    | none => []

/-- The name at the end of a path. -/
def fileName? (p : List Char) : Option (List Char) :=
  match (components p).getLast? with
  | some (.name t) => some t
  | _ => none

/-- A name cut at its last dot. A dot that begins the name does not cut it. -/
def splitName (t : List Char) : List Char × Option (List Char) :=
  let after := (t.reverse.takeWhile (· != '.')).reverse
  let stem := t.take (t.length - after.length - 1)
  if t.contains '.' && !stem.isEmpty then (stem, some after) else (t, none)

/-- What follows the last dot of the file name. -/
def extension? (p : List Char) : Option (List Char) := (fileName? p).bind fun t => (splitName t).2

/-- The path with its file name cut at the extension and a new extension added. -/
def addExtension (p ext : List Char) : List Char :=
  match fileName? p with
  | none => p
  | some t =>
    Text.join '/' ((dropIdleEnd (segments p)).dropLast ++ [(splitName t).1 ++ '.' :: ext])

/-- The path with the extension of its file name replaced, or added if there is none. The old one
goes first: a name such as `..js` is then no name any more, and stays without an extension. -/
def withExtension (p ext : List Char) : List Char :=
  match extension? p with
  | none => addExtension p ext
  | some old => addExtension (p.take (p.length - old.length)) ext

/-- The path `q` as seen from `p`: an absolute `q` stands alone. -/
def join (p q : List Char) : List Char :=
  if isAbsolute q then q
  else if p.isEmpty || p.getLast? == some '/' then p ++ q
  else p ++ '/' :: q

/-- The segments after the first `n` that say something. -/
def dropSegments : (n : Nat) → List (List Char) → List (List Char)
  | 0, s => s
  | _ + 1, [] => []
  | n + 1, s :: rest => if isIdle s then dropSegments (n + 1) rest else dropSegments n rest

/-- The rest of a path below `base`, if the components of `base` begin it. -/
def relativeTo? (base p : List Char) : Option (List Char) :=
  let front := components base
  if front.isPrefixOf (components p) then
    if front.isEmpty then some (ofSegments (isAbsolute p) (segments p))
    else
      let named := front.filter fun c => c != .root && c != .current
      some (Text.join '/' (dropIdleEnd ((dropSegments named.length (segments p)).dropWhile isIdle)))
  else none

/-! ### Normal form -/

/-- One component joins those kept so far, the last first. A `..` takes back the ordinary name
before it; without one it is kept in a relative path and dropped at the root. -/
def keep (absolute : Bool) (kept : List (List Char)) : Component → List (List Char)
  | .root => kept
  | .current => kept
  | .name t => t :: kept
  | .parent =>
    match kept with
    | [] => if absolute then [] else [['.', '.']]
    | t :: rest => if t == ['.', '.'] then ['.', '.'] :: t :: rest else rest

/-- The path without `.`, and without `..` as far as names before it can be taken back. -/
def normalize (p : List Char) : List Char :=
  let kept := ((components p).foldl (keep (isAbsolute p)) []).reverse
  if isAbsolute p then '/' :: Text.join '/' kept else Text.join '/' kept

end Path

/-- The path of a file below a root, with forward slashes only; a path that is not below the root is
taken whole. -/
def Path.relative (root p : String) : String :=
  .ofList (Text.replaceChar '\\' '/' ((relativeTo? root.toList p.toList).getD p.toList))

/-- Lexical normal form of a path text. -/
def Path.normalized (p : String) : String := .ofList (normalize p.toList)

end SourceAtlas
