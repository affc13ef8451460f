import SourceAtlas.Catalog.TextMap
import SourceAtlas.Json.Decode
import SourceAtlas.Json.Printer
import SourceAtlas.Json.Reader
import SourceAtlas.Tree.Edit
/-!
A cache of documents under keys, in memory and in files, one file for each key. An entry may have a
time to live. Memory is asked first; an entry that is only in a file is taken into memory when it is
read. Files that cannot be read or written never make an operation fail.
-/

namespace SourceAtlas

/-- A document with the time it was stored and how long it lives, in milliseconds. -/
structure CacheEntry where
  data : Json
  timestamp : Int
  ttl : Option Nat
  deriving BEq, Repr

namespace CacheEntry

/-- The entry has outlived its time. The comparison is one of signed 64-bit numbers, in which the
difference and the time to live wrap around. -/
def isExpired (e : CacheEntry) (now : Int) : Bool :=
  match e.ttl with
  | some ttl => wrap64 (now - e.timestamp) > wrap64 ttl
  | none => false

/-- The written form of an entry. -/
def toJson (e : CacheEntry) : Json :=
  .object [("data", e.data), ("timestamp", .int e.timestamp), ("ttl", Json.ofOption .nat e.ttl)]

/-- The names of the fields, in their order. -/
def fieldNames : List String := ["data", "timestamp", "ttl"]

/-- The entry written in a text. -/
def ofText? (text : String) : Option CacheEntry := do
  let document ← Json.readRecord? fieldNames text.toList
  let fs ← document.writtenFields? fieldNames 3
  let data ← Json.required fs "data" some
  let timestamp ← Json.required fs "timestamp" Json.int?
  let ttl ← Json.unsettable fs "ttl" Json.nat?
  return ⟨data, timestamp, ttl⟩

end CacheEntry

/-- A cache: the directory of its files, and what it holds in memory. -/
structure Cache where
  directory : List Char
  memory : TextMap CacheEntry := .empty

namespace Cache

/-! ### File names -/

/-- The longest name of a cache file, its extension apart. -/
def maxStem : Nat := 200

/-- The key with every run of characters other than ASCII letters and digits made one `_`. -/
def sanitize : (inRun : Bool) → List Char → List Char
  | _, [] => []
  | inRun, c :: cs =>
    if c.isAlphanum then c :: sanitize false cs
    else if inRun then sanitize true cs
    else '_' :: sanitize true cs

/-- The name of the file for a key. -/
def fileName (key : String) : String :=
  .ofList ((sanitize false key.toList).take maxStem ++ ['.', 'j', 's', 'o', 'n'])

/-- The path of the file for a key. -/
def pathOf (c : Cache) (key : String) : List Char := Path.join c.directory (fileName key).toList

/-! ### Files -/

/-- The tree without the file of a key. -/
def dropFile (c : Cache) (t : FileTree) (key : String) : FileTree :=
  (t.removeFile (c.pathOf key)).getD t

/-- The tree with the entry in the file of its key. It is written beside that file and then moved;
the tree keeps what was done when a step fails. -/
def writeFile (c : Cache) (t : FileTree) (now : Int) (key : String) (e : CacheEntry) : FileTree :=
  match t.makeDirectories c.directory with
  | none => t
  | some t =>
    let path := c.pathOf key
    let draft := Path.withExtension path "json.tmp".toList
    match t.write draft e.toJson.compact.toUTF8 now with
    | none => t
    | some t => (t.moveFile draft path).getD t

/-! ### Operations -/

/-- The cache and the tree without the entry of a key. -/
def delete (c : Cache) (t : FileTree) (key : String) : Cache × FileTree :=
  ({ c with memory := c.memory.erase key }, c.dropFile t key)

/-- The living entry in the file of a key. One that has expired is removed. -/
def readFile (c : Cache) (t : FileTree) (now : Int) (key : String) : Option CacheEntry × FileTree :=
  match (t.readText? (c.pathOf key)).bind CacheEntry.ofText? with
  | none => (none, t)
  | some e => if e.isExpired now then (none, c.dropFile t key) else (some e, t)

/-- The document under a key, if it is there and living. -/
def get (c : Cache) (t : FileTree) (now : Int) (key : String) : Option Json × Cache × FileTree :=
  match c.memory.get? key with
  | some e =>
    if e.isExpired now then (none, c.delete t key) else (some e.data, c, t)
  | none =>
    match c.readFile t now key with
    | (some e, t) => (some e.data, { c with memory := c.memory.insert key e }, t)
    | (none, t) => (none, c, t)

/-- The cache and the tree with a document stored under a key. -/
def set (c : Cache) (t : FileTree) (now : Int) (key : String) (data : Json) (ttl : Option Nat) :
    Cache × FileTree :=
  let e : CacheEntry := ⟨data, now, ttl⟩
  ({ c with memory := c.memory.insert key e }, c.writeFile t now key e)

/-- The names of what stands in the directory. -/
def fileNames (c : Cache) (t : FileTree) : List (List Char) :=
  match t.place? c.directory with
  | some p => if t.hasDirectory p then t.names p else []
  | none => []

/-- The cache and the tree with every entry gone: all of memory, and every file of the directory
whose name ends in `.json`. -/
def clear (c : Cache) (t : FileTree) : Cache × FileTree :=
  let paths := (c.fileNames t).map (Path.join c.directory ·)
  let doomed := paths.filter fun p => Path.extension? p == some ['j', 's', 'o', 'n']
  ({ c with memory := .empty }, doomed.foldl (fun t p => (t.removeFile p).getD t) t)

/-- A cache on the same directory that has nothing in memory. -/
def fresh (c : Cache) : Cache := { c with memory := .empty }

end Cache

end SourceAtlas
