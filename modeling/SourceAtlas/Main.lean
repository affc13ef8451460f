import SourceAtlas.CommandLine.Footprint
import Std.Time.DateTime.Timestamp
/-!
The program. What a run or a message needs is read from the disk into a file tree, the answer is
worked out on the tree alone, and what changed in the tree is written back.
-/

namespace SourceAtlas.Main

open SourceAtlas.CommandLine

/-- Reading the disk into a tree. -/
abbrev Reading := StateT FileTree IO

/-- The path text of a place. -/
def textOf (p : Place) : String := .ofList (FileTree.placeText p)

/-- The place of an absolute path without links. -/
def placeOf (path : String) : Place := (Path.segments path.toList).filter (!Path.isIdle ·)

/-- The time of a file in milliseconds since the start of 1970. -/
def milliseconds (t : IO.FS.SystemTime) : Int := t.sec * 1000 + t.nsec.toNat / 1000000

/-- The present in milliseconds since the start of 1970. -/
def present : IO Int := do
  return (← Std.Time.Timestamp.now).toMillisecondsSinceUnixEpoch.val

/-- What an action gives, unless it fails. -/
def attempt (action : IO α) : IO (Option α) := do
  try
    return some (← action)
  catch _ =>
    return none

/-- Takes in the directories down to a place. -/
def takeDirectories (p : Place) : Reading Unit :=
  modify fun t => (List.range p.length).foldl (fun t n => t.put (p.take (n + 1)) .directory) t

/-- Bytes in place of those of a file that cannot be read: as many as it has, one at least, and no text.
So the file is there with its size, and wherever its text is asked for it has none. -/
def unreadable (size : Nat) : ByteArray := ⟨Array.replicate (max size 1) 0xff⟩

/-- Takes in the file at a place without links. -/
def takeFile (p : Place) (about : IO.FS.Metadata) : Reading Unit := do
  let content ← attempt (IO.FS.readBinFile (textOf p))
  takeDirectories p.dropLast
  modify (·.put p (.file (content.getD (unreadable about.byteSize.toNat)) (milliseconds about.modified)))

/-- Takes in the link at a place, and gives the place it leads to. -/
def takeLink (p : Place) : Reading (Option Place) := do
  match ← attempt (IO.FS.realPath (textOf p)) with
  | some real =>
    modify (·.put p (.link real.toString.toList))
    return some (placeOf real.toString)
  | none =>
    modify (·.put p (.link []))
    return none

/-- Takes in what stands at a place, and gives the place it leads to. -/
def takeOne (p : Place) : Reading (Option Place) := do
  let some up ← attempt (IO.FS.realPath (textOf p.dropLast)) | return none
  let some name := p.getLast? | return some p
  let some about ← attempt (up / String.ofList name).symlinkMetadata | return none
  match about.type with
  | .dir => takeDirectories p; return some p
  | .file => takeFile p about; return some p
  | .symlink => takeLink p
  | .other => return none

/-- Takes in all that a path leads through, and gives the place it ends at. -/
partial def takeAlong : Place → List (List Char) → Reading (Option Place)
  | here, [] => return some here
  | here, s :: rest => do
    if Path.isIdle s then takeAlong here rest
    else if s == ['.', '.'] then takeAlong here.dropLast rest
    else
      let some next ← takeOne (here ++ [s]) | return none
      takeDirectories next.dropLast
      if (← get).node? next == none then
        let _ ← takeOne next
      takeAlong next rest

/-- Takes in what a path leads to, and gives its place. -/
def takePath (path : List Char) : Reading (Option Place) := do
  if path.isEmpty then return none
  takeAlong (FileTree.startOf (← get).working path) (Path.segments path)

/-- Takes in all that stands below a directory. -/
partial def takeBelow (p : Place) : Reading Unit := do
  let some root ← attempt (IO.FS.realPath (textOf p)) | return
  let some entries ← attempt root.readDir | return
  for e in entries do
    let place := p ++ [e.fileName.toList]
    let some next ← takeOne place | continue
    if next == place then
      if (← get).hasDirectory place then takeBelow place
    else if (← get).node? next == none then
      let _ ← takeOne next

/-- Takes in a directory with all below it. -/
def takeDirectory (path : List Char) : Reading Unit := do
  match ← takePath path with
  | some p => takeBelow p
  | none => return

/-- Takes in a project with the configuration above it. -/
def takeProject (project : String) : Reading Unit := do
  for path in configurationPaths project.toList do
    let _ ← takePath path
  match ← takePath project.toList with
  | some p =>
    for path in configurationPaths (FileTree.placeText p) do
      let _ ← takePath path
    takeBelow p
  | none => return

/-- Removes from the disk what is gone from the tree, and writes what is new in it. -/
def writeBack (old new : FileTree) : IO Unit := do
  for (p, n) in old.nodes do
    match n, new.node? p with
    | .file _ _, none => let _ ← attempt (IO.FS.removeFile (textOf p))
    | _, _ => continue
  for (p, n) in new.nodes.reverse do
    if old.node? p != some n then
      match n with
      | .file content _ =>
        let _ ← attempt do
          IO.FS.createDirAll (textOf p.dropLast)
          IO.FS.writeBinFile (textOf p) content
      | .directory => let _ ← attempt (IO.FS.createDirAll (textOf p))
      | .link _ => continue

/-- The tree of the current directory with what a reading adds. -/
def gather (reading : Reading Unit) : IO FileTree := do
  let working := placeOf (← IO.currentDir).toString
  let (_, t) ← (do takeDirectories working; reading).run ⟨[], working⟩
  return t

/-- Where caches stand unless the settings say otherwise. -/
def fallbackCache : IO String := do
  let directory := (← IO.getEnv "TMPDIR").getD "/tmp"
  return .ofList (Path.join directory.toList "tsgraph-cache".toList)

/-- The line that begins with some bytes, read on to the line feed that ends it or to the end of the
input. -/
partial def readLine (input : IO.FS.Stream) (begun : ByteArray) : IO ByteArray := do
  let next ← input.read 1
  if next.isEmpty then return begun
  let line := begun ++ next
  if next.data == #[10] then return line else readLine input line

/-- The exit code of a run that failed. -/
def fail (message : String) : IO UInt32 := do
  IO.eprintln ("Error: " ++ message)
  return 1

/-- Answers the lines of the input until one stops the server or has no text, or there are no more, and
gives the exit code. -/
partial def serve (w : Workspace) : IO UInt32 := do
  let line ← readLine (← IO.getStdin) .empty
  if line.isEmpty then return 0
  let some text := Rpc.lineText? line | fail Rpc.noTextMessage
  let tree ← gather do
    takeDirectory w.cache.directory
    match requestedProject? (.ofList text) with
    | some project => takeProject project
    | none => return
  let r := Rpc.handleLine w tree (← present) text
  writeBack tree r.tree
  if let some response := r.response then
    let out ← IO.getStdout
    out.putStrLn response.compact
    out.flush
  if r.stops then return 0 else serve r.workspace

/-- The tree that a run needs. -/
def treeOf (arguments : List String) (fallback : String) : IO FileTree :=
  gather do
    match subject? arguments with
    | none => return
    | some (common, project) =>
      let _ ← takePath (settingsPath common)
      takeDirectory (cachePath (← get) fallback common)
      match project with
      | some project => takeProject project
      | none => return

/-- Runs the program with an argument list, and gives its exit code. -/
def perform (arguments : List String) : IO UInt32 := do
  let fallback ← fallbackCache
  let tree ← treeOf arguments fallback
  match CommandLine.run ⟨tree, ← present, fallback⟩ arguments with
  | .serving w t =>
    writeBack tree t
    serve w
  | .ended outcome =>
    writeBack tree outcome.tree
    IO.print outcome.output
    match outcome.failure with
    | some failure => fail failure
    | none => return outcome.exitCode.toUInt32

end SourceAtlas.Main

/-- The program. -/
def main (arguments : List String) : IO UInt32 := SourceAtlas.Main.perform arguments
