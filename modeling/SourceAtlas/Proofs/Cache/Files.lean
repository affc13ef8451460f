import SourceAtlas.Proofs.Cache.Entry
import SourceAtlas.Proofs.Tree.WellFormed
/-!
The files of a cache, seen as what stands under the reserved names of its directory. Each operation
on files is described by what it does to this view: reading finds the entry in the file, dropping
clears one name, writing sets one and leaves no draft behind.
-/

namespace SourceAtlas

/-! ### Names in a directory -/

namespace FileTree

variable {t u : FileTree} {p : Place} {dir : List Char}

/-- What stands under a name in the directory at a path. -/
def standing? (t : FileTree) (dir name : List Char) : Option Node :=
  (t.seat? dir).bind fun p => t.node? (p ++ [name])

/-- What stands under a name in the directory at a path, once that directory is made. -/
def held? (t : FileTree) (dir name : List Char) : Option Node :=
  (t.makeDirectories dir).bind fun u => u.standing? dir name

theorem standing?_of_seat? (seat : t.seat? dir = some p) (name : List Char) :
    t.standing? dir name = t.node? (p ++ [name]) := by
  rw [standing?, seat, Option.bind_some]

theorem held?_of_seat? (seat : t.seat? dir = some p) (name : List Char) :
    t.held? dir name = t.node? (p ++ [name]) := by
  rw [held?, makeDirectories_of_seat? seat, Option.bind_some, standing?_of_seat? seat]

/-- What stands in a directory is held there. -/
theorem held?_of_standing? {name : List Char} {n : Node} (h : t.standing? dir name = some n) :
    t.held? dir name = some n := by
  obtain ⟨p, seat, node⟩ := Option.bind_eq_some_iff.1 h
  rw [held?_of_seat? seat, node]

theorem held?_makeDirectories (wf : t.WellFormed) (made : t.makeDirectories dir = some u)
    (name : List Char) : u.held? dir name = t.held? dir name := by
  obtain ⟨_, _, p, seat⟩ := makeDirectories_spec wf made
  rw [held?, makeDirectories_of_seat? seat, held?, made]

/-- The second tree is well-formed, has the ways of the first and its nodes but at one place. -/
structure Becomes (t u : FileTree) (p : Place) (o : Option Node) : Prop where
  wellFormed : u.WellFormed
  keeps : t.Keeps u
  node? : ∀ q, u.node? q = if q = p then o else t.node? q

theorem Becomes.node?_self {o : Option Node} (h : t.Becomes u p o) : u.node? p = o := by
  rw [h.node?, if_pos rfl]

theorem Becomes.node?_other {o : Option Node} (h : t.Becomes u p o) {q : Place} (ne : q ≠ p) :
    u.node? q = t.node? q := by
  rw [h.node?, if_neg ne]

/-- A tree that has lost a node is part of the tree it had been. -/
theorem Becomes.partOf (h : t.Becomes u p none) : u.PartOf t := by
  refine ⟨h.keeps.working.symm, fun q n node => ?_⟩
  rw [h.node?] at node
  split at node
  · cases node
  · exact node

/-- A place where a file may stand: nothing or a file is there. -/
def Open (t : FileTree) (p : Place) : Prop := ∀ n, t.node? p = some n → ∃ content m, n = .file content m

theorem Open.leaf (free : t.Open p) : t.hasDirectory p = false := by
  cases node : t.node? p with
  | none => rw [hasDirectory, node]
  | some n =>
    obtain ⟨_, _, rfl⟩ := free n node
    rw [hasDirectory, node]

theorem Open.solid (free : t.Open p) (target : List Char) : t.node? p ≠ some (.link target) := by
  intro node
  obtain ⟨_, _, eq⟩ := free _ node
  cases eq

theorem Becomes.open {o : Option Node} (h : t.Becomes u p o) {q : Place} (ne : q ≠ p)
    (free : t.Open q) : u.Open q := by
  intro n node
  exact free n (h.node?_other ne ▸ node)

variable {name : List Char} (plain : Path.isPlainName name)

include plain

theorem becomes_put (wf : t.WellFormed) (inside : t.hasDirectory p) (free : t.Open (p ++ [name]))
    (content : ByteArray) (m : Int) :
    t.Becomes (t.put (p ++ [name]) (.file content m)) (p ++ [name]) (some (.file content m)) :=
  ⟨wf.put inside plain (by simp [free.leaf]), .put (by simp) free.leaf free.solid,
    node?_put (by simp) _⟩

omit plain in
theorem becomes_prune (wf : t.WellFormed) (free : t.Open p) : t.Becomes (t.prune p) p none :=
  ⟨wf.prune free.leaf, .prune wf free.leaf free.solid, wf.node?_prune free.leaf⟩

/-- Writing below a path sets one file. -/
theorem write_join (seat : t.seat? dir = some p) (free : t.Open (p ++ [name])) (content : ByteArray)
    (now : Int) :
    t.write (Path.join dir name) content now = some (t.put (p ++ [name]) (.file content now)) := by
  rw [write, target?_join plain seat free.solid]
  simp [free.leaf]

/-- Removing a name clears it, also if nothing was there. -/
theorem removeFile_join (wf : t.WellFormed) (seat : t.seat? dir = some p)
    (free : t.Open (p ++ [name])) :
    t.Becomes ((t.removeFile (Path.join dir name)).getD t) (p ++ [name]) none := by
  rw [removeFile, entry?_join plain, seat, Option.map_some]
  cases node : t.node? (p ++ [name]) with
  | none =>
    simp only [node, Option.getD_none]
    refine ⟨wf, .refl, fun q => ?_⟩
    by_cases same : q = p ++ [name]
    · rw [if_pos same, same, node]
    · rw [if_neg same]
  | some n =>
    obtain ⟨content, m, rfl⟩ := free n node
    simp only [node, Option.getD_some]
    exact becomes_prune wf free

/-- A file that is moved below one path takes the place of the file there. -/
theorem moveFile_join (seat : t.seat? dir = some p) {other : List Char}
    (plain' : Path.isPlainName other) {content : ByteArray} {m : Int}
    (node : t.node? (p ++ [name]) = some (.file content m)) (free : t.Open (p ++ [other])) :
    t.moveFile (Path.join dir name) (Path.join dir other) =
      some ((t.prune (p ++ [name])).put (p ++ [other]) (.file content m)) := by
  rw [moveFile, entry?_join plain, entry?_join plain', seat]
  simp [node, free.leaf]

omit plain in
/-- A file that is written under one name and then moved to another stands there alone. -/
theorem write_move_join (wf : t.WellFormed) (seat : t.seat? dir = some p) {draft file : List Char}
    (plainDraft : Path.isPlainName draft) (plainFile : Path.isPlainName file) (ne : file ≠ draft)
    (freeDraft : t.Open (p ++ [draft])) (freeFile : t.Open (p ++ [file])) (content : ByteArray)
    (now : Int) :
    ∃ v w, t.write (Path.join dir draft) content now = some v ∧
      v.moveFile (Path.join dir draft) (Path.join dir file) = some w ∧
      w.WellFormed ∧ t.Keeps w ∧
      ∀ q, w.node? q = if q = p ++ [file] then some (.file content now)
        else if q = p ++ [draft] then none
        else t.node? q := by
  have inside := hasDirectory_of_seat? seat
  have apart : p ++ [file] ≠ p ++ [draft] := by simpa using ne
  -- the draft is written, taken away, and set under the name of the file
  have drafted := becomes_put plainDraft wf inside freeDraft content now
  have written := write_join plainDraft seat freeDraft content now
  obtain ⟨v, eq⟩ : ∃ v, t.put (p ++ [draft]) (.file content now) = v := ⟨_, rfl⟩
  rw [eq] at drafted written
  have free' : v.Open (p ++ [draft]) := by
    intro n node
    exact ⟨_, _, (Option.some.inj (drafted.node?_self ▸ node)).symm⟩
  have cleared := becomes_prune drafted.wellFormed free'
  have inside' := cleared.keeps.directory _ (drafted.keeps.directory _ inside)
  have set := becomes_put plainFile cleared.wellFormed inside'
    (cleared.open apart (drafted.open apart freeFile)) content now
  have moved := moveFile_join plainDraft (drafted.keeps.seat? seat) plainFile
    drafted.node?_self (drafted.open apart freeFile)
  refine ⟨v, _, written, moved, set.wellFormed,
    drafted.keeps.trans (cleared.keeps.trans set.keeps), fun q => ?_⟩
  rw [set.node?, cleared.node?, drafted.node?]
  by_cases old : q = p ++ [draft]
  · simp [old]
  · simp [old]

end FileTree

namespace Cache

variable {c : Cache} {t u : FileTree} {p : Place} {key : String}

/-- Nothing but files stands under the reserved names of the directory. -/
def Tidy (c : Cache) (t : FileTree) : Prop :=
  ∀ name, isReserved name → ∀ n, t.held? c.directory name = some n → ∃ content m, n = .file content m

/-- The entry in a node: the one that the bytes of a file give. -/
def entryIn? : Option Node → Option CacheEntry
  | some (.file content _) => CacheEntry.ofBytes? content
  | _ => none

/-- The entry that the file of a key holds, whatever its age. -/
def stored? (c : Cache) (t : FileTree) (key : String) : Option CacheEntry :=
  entryIn? (t.standing? c.directory (fileName key).toList)

/-- Nothing but files stands under the names that are used for a key. -/
def Clean (c : Cache) (t : FileTree) (key : String) : Prop :=
  ∀ name, name = (fileName key).toList ∨ name = draftName key →
    ∀ n, t.held? c.directory name = some n → ∃ content m, n = .file content m

theorem Tidy.clean (tidy : c.Tidy t) (key : String) : c.Clean t key := by
  rintro name (rfl | rfl)
  · exact tidy _ (isReserved_fileName key)
  · exact tidy _ (isReserved_draftName key)

theorem Tidy.open (tidy : c.Tidy t) {name : List Char} (reserved : isReserved name)
    (seat : t.seat? c.directory = some p) : t.Open (p ++ [name]) := by
  intro n node
  exact tidy name reserved n (by rw [FileTree.held?_of_seat? seat, node])

theorem Clean.open (clean : c.Clean t key) {name : List Char}
    (used : name = (fileName key).toList ∨ name = draftName key)
    (seat : t.seat? c.directory = some p) : t.Open (p ++ [name]) := by
  intro n node
  exact clean name used n (by rw [FileTree.held?_of_seat? seat, node])

/-- Directories that are made leave the names as they are. -/
theorem Clean.made (clean : c.Clean t key) (wf : t.WellFormed)
    (made : t.makeDirectories c.directory = some u) : c.Clean u key := by
  intro name used n held
  rw [FileTree.held?_makeDirectories wf made] at held
  exact clean name used n held

theorem Tidy.of_directory {d : Cache} (tidy : c.Tidy t) (same : d.directory = c.directory) :
    d.Tidy t := by
  rw [Tidy, same]
  exact tidy

/-- A directory stays tidy when nothing but files comes to stand under its reserved names. -/
theorem Tidy.of_held? (tidy : c.Tidy t)
    (less : ∀ name, isReserved name → ∀ n, u.held? c.directory name = some n →
      t.held? c.directory name = some n ∨ ∃ content modified, n = .file content modified) :
    c.Tidy u := by
  intro name reserved n held
  rcases less name reserved n held with old | new
  · exact tidy name reserved n old
  · exact new

/-! ### Reading -/

/-- Reading the file of a key gives the entry stored in it. -/
theorem readText?_pathOf (ne : key ≠ "")
    (solid : ∀ target, t.standing? c.directory (fileName key).toList ≠ some (.link target)) :
    (t.readText? (c.pathOf key)).bind CacheEntry.ofText? = c.stored? t key := by
  have found : t.find? (c.pathOf key) = t.standing? c.directory (fileName key).toList := by
    refine FileTree.find?_join (isPlainName_fileName ne) fun p target seat link => ?_
    exact solid target (by rw [FileTree.standing?_of_seat? seat, link])
  rw [FileTree.readText?, stored?, found]
  cases t.standing? c.directory (fileName key).toList with
  | none => rfl
  | some n => cases n <;> rfl

theorem Clean.solid (clean : c.Clean t key) (target : List Char) :
    t.standing? c.directory (fileName key).toList ≠ some (.link target) := by
  intro link
  obtain ⟨_, _, file⟩ := clean _ (.inl rfl) _ (FileTree.held?_of_standing? link)
  cases file

/-- An entry is stored in no link. -/
theorem solid_of_stored {e : CacheEntry} (stored : c.stored? t key = some e) (target : List Char) :
    t.standing? c.directory (fileName key).toList ≠ some (.link target) := by
  intro link
  rw [stored?, link] at stored
  cases stored

/-! ### Looking up -/

theorem get_of_memory {now : Int} {e : CacheEntry} (found : c.memory.get? key = some e)
    (living : e.isExpired now = false) : c.get t now key = (some e.data, c, t) := by
  rw [get, found]
  simp only [living]
  rfl

theorem get_of_memory_expired {now : Int} {e : CacheEntry} (found : c.memory.get? key = some e)
    (expired : e.isExpired now) : c.get t now key = (none, c.delete t key) := by
  rw [get, found]
  simp only [expired, if_true]

theorem get_of_stored_none {now : Int} (ne : key ≠ "") (clean : c.Clean t key)
    (missing : c.memory.get? key = none) (stored : c.stored? t key = none) :
    c.get t now key = (none, c, t) := by
  have text := (readText?_pathOf ne clean.solid).trans stored
  have read : c.readFile t now key = (none, t) := by
    unfold readFile
    rw [text]
  unfold get
  simp only [missing]
  rw [read]

theorem get_of_stored {now : Int} {e : CacheEntry} (ne : key ≠ "")
    (missing : c.memory.get? key = none) (stored : c.stored? t key = some e)
    (living : e.isExpired now = false) :
    c.get t now key = (some e.data, { c with memory := c.memory.insert key e }, t) := by
  have text := (readText?_pathOf ne (solid_of_stored stored)).trans stored
  have read : c.readFile t now key = (some e, t) := by
    unfold readFile
    rw [text]
    exact if_neg (by simp [living])
  unfold get
  simp only [missing]
  rw [read]

theorem get_of_stored_expired {now : Int} {e : CacheEntry} (ne : key ≠ "")
    (missing : c.memory.get? key = none) (stored : c.stored? t key = some e)
    (expired : e.isExpired now) : c.get t now key = (none, c, c.dropFile t key) := by
  have text := (readText?_pathOf ne (solid_of_stored stored)).trans stored
  have read : c.readFile t now key = (none, c.dropFile t key) := by
    unfold readFile
    rw [text]
    exact if_pos expired
  unfold get
  simp only [missing]
  rw [read]

/-! ### Dropping -/

/-- Where there is no directory, there is no file to drop. -/
theorem dropFile_of_no_seat (ne : key ≠ "") (seat : t.seat? c.directory = none) :
    c.dropFile t key = t := by
  have entry : t.entry? (c.pathOf key) = none := by
    rw [pathOf, FileTree.entry?_join (isPlainName_fileName ne), seat, Option.map_none]
  rw [dropFile, FileTree.removeFile, entry]
  rfl

/-- Dropping clears the name of the key and nothing else. -/
theorem dropFile_of_seat? (wf : t.WellFormed) (clean : c.Clean t key) (ne : key ≠ "")
    (seat : t.seat? c.directory = some p) :
    t.Becomes (c.dropFile t key) (p ++ [(fileName key).toList]) none :=
  FileTree.removeFile_join (isPlainName_fileName ne) wf seat (clean.open (.inl rfl) seat)

/-! ### The tree after a look-up -/

/-- Dropping a file removes at most what stands at its path. -/
theorem dropFile_cases (c : Cache) (t : FileTree) (key : String) :
    c.dropFile t key = t ∨ ∃ p, t.entry? (c.pathOf key) = some p ∧ t.hasDirectory p = false ∧
      c.dropFile t key = t.prune p := by
  rw [dropFile, FileTree.removeFile]
  cases entry : t.entry? (c.pathOf key) with
  | none => exact .inl rfl
  | some p =>
    cases node : t.node? p with
    | none => exact .inl (by simp [node])
    | some n =>
      cases n with
      | directory => exact .inl (by simp [node])
      | file content m => exact .inr ⟨p, rfl, by simp [FileTree.hasDirectory, node], by simp [node]⟩
      | link target => exact .inr ⟨p, rfl, by simp [FileTree.hasDirectory, node], by simp [node]⟩

theorem readFile_tree_cases (c : Cache) (t : FileTree) (now : Int) (key : String) :
    (c.readFile t now key).2 = t ∨ (c.readFile t now key).2 = c.dropFile t key := by
  unfold readFile
  cases (t.readText? (c.pathOf key)).bind CacheEntry.ofText? with
  | none => exact .inl rfl
  | some e =>
    cases expired : e.isExpired now with
    | true =>
      refine .inr ?_
      simp only [expired, if_pos]
    | false =>
      refine .inl ?_
      simp only [expired, Bool.false_eq_true, if_false]

/-- A look-up changes the tree in no other way. -/
theorem get_tree_cases (c : Cache) (t : FileTree) (now : Int) (key : String) :
    (c.get t now key).2.2 = t ∨ (c.get t now key).2.2 = c.dropFile t key := by
  cases found : c.memory.get? key with
  | some e =>
    cases expired : e.isExpired now with
    | true =>
      rw [get_of_memory_expired found expired]
      refine .inr ?_
      simp only [delete]
    | false =>
      rw [get_of_memory found expired]
      exact .inl rfl
  | none =>
    have tree := c.readFile_tree_cases t now key
    unfold get
    simp only [found]
    rcases read : c.readFile t now key with ⟨e, u⟩
    rw [read] at tree
    cases e <;> exact tree

theorem get_directory (c : Cache) (t : FileTree) (now : Int) (key : String) :
    (c.get t now key).2.1.directory = c.directory := by
  unfold get
  split
  · split <;> rfl
  · split <;> rfl

/-! ### Writing -/

/-- Writing sets the file of the key and leaves no draft. -/
theorem writeFile_of_seat? (wf : t.WellFormed) (clean : c.Clean t key) (ne : key ≠ "")
    (seat : t.seat? c.directory = some p) (now : Int) (e : CacheEntry) :
    (c.writeFile t now key e).WellFormed ∧ t.Keeps (c.writeFile t now key e) ∧
      ∀ q, (c.writeFile t now key e).node? q =
        if q = p ++ [(fileName key).toList] then some (.file e.bytes now)
        else if q = p ++ [draftName key] then none
        else t.node? q := by
  obtain ⟨v, w, written, moved, spec⟩ := FileTree.write_move_join wf seat
    (isPlainName_draftName ne) (isPlainName_fileName ne) (fileName_ne_draftName key key)
    (clean.open (.inr rfl) seat) (clean.open (.inl rfl) seat) e.bytes now
  have result : c.writeFile t now key e = w := by
    rw [writeFile, FileTree.makeDirectories_of_seat? seat]
    simp only [withExtension_pathOf c ne]
    rw [← CacheEntry.bytes, written]
    simp only [pathOf, moved, Option.getD_some]
  rw [result]
  exact spec

/-- A directory that is missing is made before the file is written. -/
theorem writeFile_made (wf : t.WellFormed) (made : t.makeDirectories c.directory = some u) (now : Int)
    (key : String) (e : CacheEntry) : c.writeFile t now key e = c.writeFile u now key e := by
  obtain ⟨_, _, p, seat⟩ := FileTree.makeDirectories_spec wf made
  simp only [writeFile, made, FileTree.makeDirectories_of_seat? seat]

/-! ### What the directory holds afterwards -/

theorem held?_dropFile (wf : t.WellFormed) (clean : c.Clean t key) (ne : key ≠ "")
    (seat : t.seat? c.directory = some p) (name : List Char) :
    (c.dropFile t key).held? c.directory name =
      if name = (fileName key).toList then none else t.held? c.directory name := by
  have dropped := dropFile_of_seat? wf clean ne seat
  rw [FileTree.held?_of_seat? (dropped.keeps.seat? seat), FileTree.held?_of_seat? seat,
    dropped.node?]
  simp

theorem wellFormed_dropFile (wf : t.WellFormed) (c : Cache) (key : String) :
    (c.dropFile t key).WellFormed := by
  rcases c.dropFile_cases t key with same | ⟨p, _, leaf, pruned⟩
  · rw [same]
    exact wf
  · rw [pruned]
    exact wf.prune leaf

theorem partOf_dropFile (c : Cache) (t : FileTree) (key : String) :
    (c.dropFile t key).PartOf t := by
  rcases c.dropFile_cases t key with same | ⟨p, _, leaf, pruned⟩
  · rw [same]
    exact .refl
  · rw [pruned]
    exact t.partOf_prune leaf

theorem seat?_dropFile (wf : t.WellFormed) (clean : c.Clean t key) (ne : key ≠ "")
    (path : List Char) : (c.dropFile t key).seat? path = t.seat? path := by
  cases seat : t.seat? c.directory with
  | none => rw [dropFile_of_no_seat ne seat]
  | some p =>
    have dropped := dropFile_of_seat? wf clean ne seat
    refine Option.ext fun q => ⟨fun h => ?_, fun h => dropped.keeps.seat? h⟩
    exact (c.partOf_dropFile t key).keeps.seat? h

theorem standing?_dropFile (wf : t.WellFormed) (clean : c.Clean t key) (ne : key ≠ "") :
    (c.dropFile t key).standing? c.directory (fileName key).toList = none := by
  rw [FileTree.standing?, seat?_dropFile wf clean ne]
  cases seat : t.seat? c.directory with
  | none => rfl
  | some p => exact (dropFile_of_seat? wf clean ne seat).node?_self

theorem Clean.dropFile (clean : c.Clean t key) (wf : t.WellFormed) (ne : key ≠ "") :
    c.Clean (c.dropFile t key) key := by
  cases seat : t.seat? c.directory with
  | none =>
    rw [dropFile_of_no_seat ne seat]
    exact clean
  | some p =>
    intro name used n held
    rw [held?_dropFile wf clean ne seat] at held
    split at held
    · cases held
    · exact clean name used n held

/-- Dropping a file takes nothing away that the directory could be made from. -/
theorem writable_dropFile (wf : t.WellFormed) (clean : c.Clean t key) (ne : key ≠ "")
    (writable : (t.makeDirectories c.directory).isSome) :
    ((c.dropFile t key).makeDirectories c.directory).isSome := by
  cases seat : t.seat? c.directory with
  | none =>
    rw [dropFile_of_no_seat ne seat]
    exact writable
  | some p =>
    rw [FileTree.makeDirectories_of_seat? ((seat?_dropFile wf clean ne _).trans seat)]
    rfl

theorem held?_writeFile (wf : t.WellFormed) (clean : c.Clean t key) (ne : key ≠ "")
    (made : t.makeDirectories c.directory = some u) (now : Int) (e : CacheEntry)
    (name : List Char) :
    (c.writeFile t now key e).held? c.directory name =
      if name = (fileName key).toList then some (.file e.bytes now)
      else if name = draftName key then none
      else t.held? c.directory name := by
  obtain ⟨wf', _, p, seat⟩ := FileTree.makeDirectories_spec wf made
  have held := FileTree.held?_makeDirectories wf made
  obtain ⟨_, keeps, nodes⟩ := writeFile_of_seat? wf' (clean.made wf made) ne seat now e
  rw [writeFile_made wf made, FileTree.held?_of_seat? (keeps.seat? seat), nodes, ← held,
    FileTree.held?_of_seat? seat]
  simp

/-- A written file stands in a directory that is there. -/
theorem writeFile_made_spec (wf : t.WellFormed) (clean : c.Clean t key) (ne : key ≠ "")
    (made : t.makeDirectories c.directory = some u) (now : Int) (e : CacheEntry) :
    (c.writeFile t now key e).WellFormed ∧
      ∃ p, (c.writeFile t now key e).seat? c.directory = some p := by
  obtain ⟨wf', _, p, seat⟩ := FileTree.makeDirectories_spec wf made
  obtain ⟨wf'', keeps, _⟩ := writeFile_of_seat? wf' (clean.made wf made) ne seat now e
  rw [writeFile_made wf made]
  exact ⟨wf'', p, keeps.seat? seat⟩

/-- Writing takes no way away, whether the directory is there or has to be made. -/
theorem keeps_writeFile (wf : t.WellFormed) (clean : c.Clean t key) (ne : key ≠ "") (now : Int)
    (e : CacheEntry) : t.Keeps (c.writeFile t now key e) := by
  cases made : t.makeDirectories c.directory with
  | none =>
    have unchanged : c.writeFile t now key e = t := by simp only [writeFile, made]
    rw [unchanged]
    exact .refl
  | some u =>
    obtain ⟨wf', grows, p, seat⟩ := FileTree.makeDirectories_spec wf made
    rw [writeFile_made wf made]
    exact grows.keeps.trans (writeFile_of_seat? wf' (clean.made wf made) ne seat now e).2.1

/-! ### Clearing -/

/-- Names that are removed one after the other are cleared, and nothing else is. -/
theorem foldl_removeFile {dir : List Char} {names : List (List Char)} (wf : t.WellFormed)
    (seat : t.seat? dir = some p) (plain : ∀ s ∈ names, Path.isPlainName s)
    (free : ∀ s ∈ names, t.Open (p ++ [s])) :
    ∃ u, (names.map (Path.join dir ·)).foldl (fun t path => (t.removeFile path).getD t) t = u ∧
      u.WellFormed ∧ u.seat? dir = some p ∧
      ∀ s, u.node? (p ++ [s]) = if s ∈ names then none else t.node? (p ++ [s]) := by
  induction names generalizing t with
  | nil => exact ⟨t, rfl, wf, seat, by simp⟩
  | cons name names ih =>
    have removed := FileTree.removeFile_join (plain name List.mem_cons_self) wf seat
      (free name List.mem_cons_self)
    have free' : ∀ s ∈ names,
        ((t.removeFile (Path.join dir name)).getD t).Open (p ++ [s]) := by
      intro s hs
      by_cases same : p ++ [s] = p ++ [name]
      · intro n node
        rw [same, removed.node?_self] at node
        cases node
      · exact removed.open same (free s (List.mem_cons_of_mem _ hs))
    obtain ⟨u, eq, wf', seat', nodes⟩ := ih removed.wellFormed (removed.keeps.seat? seat)
      (fun s hs => plain s (List.mem_cons_of_mem _ hs)) free'
    refine ⟨u, by rw [← eq]; rfl, wf', seat', fun s => ?_⟩
    rw [nodes, removed.node?]
    by_cases first : s = name <;> simp [first]

/-- The names that a cache clears. -/
def doomed (c : Cache) (t : FileTree) : List (List Char) :=
  (c.fileNames t).filter fun s => Path.extension? (Path.join c.directory s) == some "json".toList

theorem clear_tree (c : Cache) (t : FileTree) :
    (c.clear t).2 = ((c.doomed t).map (Path.join c.directory ·)).foldl
      (fun t path => (t.removeFile path).getD t) t := by
  rw [clear, doomed, List.filter_map]
  rfl

theorem fileNames_of_seat? (filled : c.directory ≠ []) (seat : t.seat? c.directory = some p) :
    c.fileNames t = t.names p := by
  rw [fileNames, FileTree.place?_of_seat? filled seat]
  simp [FileTree.hasDirectory_of_seat? seat]

theorem fileNames_of_no_seat (filled : c.directory ≠ []) (seat : t.seat? c.directory = none) :
    c.fileNames t = [] := by
  rw [← FileTree.filter_place? filled] at seat
  rw [fileNames]
  cases place : t.place? c.directory with
  | none => rfl
  | some p =>
    have outside : t.hasDirectory p = false := by simpa [place, Option.filter_some] using seat
    simp [outside]

/-- A name with the extension of cache files is a reserved one. -/
theorem isReserved_of_extension? {dir name : List Char} (plain : Path.isPlainName name)
    (h : Path.extension? (Path.join dir name) = some "json".toList) : isReserved name := by
  rw [Path.extension?, Path.fileName?_join plain, Option.bind_some] at h
  have whole := Path.eq_append_of_splitName (Prod.ext rfl h)
  rw [isReserved, Bool.or_eq_true]
  exact .inl (List.isSuffixOf_iff_suffix.2 ⟨(Path.splitName name).1, whole.symm⟩)

/-- Clearing takes the doomed names out of the directory, and no others. -/
theorem held?_clear (wf : t.WellFormed) (tidy : c.Tidy t) (filled : c.directory ≠ [])
    (seat : t.seat? c.directory = some p) :
    (c.clear t).2.WellFormed ∧ (c.clear t).2.seat? c.directory = some p ∧
      ∀ name, (c.clear t).2.held? c.directory name =
        if name ∈ c.doomed t then none else t.held? c.directory name := by
  have listed : ∀ s ∈ c.doomed t, (t.node? (p ++ [s])).isSome ∧
      Path.extension? (Path.join c.directory s) = some "json".toList := by
    intro s hs
    rw [doomed, fileNames_of_seat? filled seat, List.mem_filter, FileTree.mem_names] at hs
    simpa using hs
  have plain : ∀ s ∈ c.doomed t, Path.isPlainName s := by
    intro s hs
    obtain ⟨n, node⟩ := Option.isSome_iff_exists.1 (listed s hs).1
    exact wf.plain node
  have free : ∀ s ∈ c.doomed t, t.Open (p ++ [s]) := fun s hs =>
    tidy.open (isReserved_of_extension? (plain s hs) (listed s hs).2) seat
  obtain ⟨u, eq, wf', seat', nodes⟩ := foldl_removeFile wf seat plain free
  rw [clear_tree, eq]
  refine ⟨wf', seat', fun name => ?_⟩
  rw [FileTree.held?_of_seat? seat', FileTree.held?_of_seat? seat, nodes]

/-- Clearing leaves no file of a key, and brings nothing new into the directory. -/
theorem clear_of_seat? (wf : t.WellFormed) (tidy : c.Tidy t) (filled : c.directory ≠ [])
    (seat : t.seat? c.directory = some p) :
    (c.clear t).2.WellFormed ∧ (c.clear t).2.seat? c.directory = some p ∧
      (∀ key, key ≠ "" → (c.clear t).2.held? c.directory (fileName key).toList = none) ∧
      ∀ name, (c.clear t).2.held? c.directory name = none ∨
        (c.clear t).2.held? c.directory name = t.held? c.directory name := by
  obtain ⟨wf', seat', held⟩ := held?_clear wf tidy filled seat
  refine ⟨wf', seat', ?_, ?_⟩
  · intro key ne
    rw [held]
    split
    · rfl
    · rename_i safe
      rw [doomed, fileNames_of_seat? filled seat, List.mem_filter, FileTree.mem_names] at safe
      have named := extension?_pathOf c ne
      rw [pathOf] at named
      rw [FileTree.held?_of_seat? seat]
      simpa [named] using safe
  · intro name
    rw [held]
    split
    · exact .inl rfl
    · exact .inr rfl

theorem clear_of_no_seat (filled : c.directory ≠ []) (seat : t.seat? c.directory = none) :
    (c.clear t).2 = t := by
  rw [clear_tree, doomed, fileNames_of_no_seat filled seat]
  rfl

end Cache

end SourceAtlas
