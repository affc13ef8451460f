import SourceAtlas.Proofs.Cache.Files
import SourceAtlas.Proofs.Catalog.TextMap
/-!
Work on one key leaves the others alone. Whatever a cache does for a key, its memory under other
keys and the files under other names stay as they are, and the directory stays fit for use.
-/

namespace SourceAtlas.Cache

variable {c c' : Cache} {t t' : FileTree} {key : String}

/-- The second cache and tree come from the first by work on one key. -/
structure Works (key : String) (c : Cache) (t : FileTree) (c' : Cache) (t' : FileTree) : Prop where
  directory : c'.directory = c.directory
  wellFormed : t'.WellFormed
  tidy : c'.Tidy t'
  keeps : t.Keeps t'
  writable : (t.makeDirectories c.directory).isSome → (t'.makeDirectories c.directory).isSome
  held : ∀ name, name ≠ (fileName key).toList → name ≠ draftName key →
    t'.held? c.directory name = t.held? c.directory name
  memory : ∀ k, k ≠ key → c'.memory.get? k = c.memory.get? k

theorem Works.seat (works : Works key c t c' t') (p : Place) (h : t.seat? c.directory = some p) :
    t'.seat? c.directory = some p :=
  works.keeps.seat? h

theorem Works.trans {c'' : Cache} {t'' : FileTree} (first : Works key c t c' t')
    (second : Works key c' t' c'' t'') : Works key c t c'' t'' := by
  have directory := first.directory
  refine ⟨second.directory.trans directory, second.wellFormed, second.tidy,
    first.keeps.trans second.keeps, fun h => ?_, fun name file draft => ?_, fun k ne => ?_⟩
  · rw [← directory]
    exact second.writable (directory ▸ first.writable h)
  · rw [← directory, second.held name file draft, directory, first.held name file draft]
  · rw [second.memory k ne, first.memory k ne]

/-- Nothing is done, but memory may change under the key. -/
theorem works_memory (wf : t.WellFormed) (tidy : c.Tidy t) {memory : TextMap CacheEntry}
    (same : ∀ k, k ≠ key → memory.get? k = c.memory.get? k) :
    Works key c t { c with memory } t :=
  ⟨rfl, wf, tidy, .refl, fun h => h, fun _ _ _ => rfl, same⟩

theorem works_refl (wf : t.WellFormed) (tidy : c.Tidy t) : Works key c t c t :=
  works_memory wf tidy fun _ _ => rfl

/-- The file of the key is dropped. -/
theorem works_dropFile (wf : t.WellFormed) (tidy : c.Tidy t) (ne : key ≠ "") :
    Works key c t c (c.dropFile t key) := by
  cases seat : t.seat? c.directory with
  | none =>
    -- without a directory there is no file to drop
    rw [dropFile_of_no_seat ne seat]
    exact works_refl wf tidy
  | some p =>
    have dropped := dropFile_of_seat? wf (tidy.clean key) ne seat
    have held := held?_dropFile wf (tidy.clean key) ne seat
    refine ⟨rfl, dropped.wellFormed, tidy.of_held? fun name _ n node => .inl ?_, dropped.keeps,
      writable_dropFile wf (tidy.clean key) ne, fun name file _ => ?_, fun _ _ => rfl⟩
    · rw [held] at node
      split at node
      · cases node
      · exact node
    · rw [held, if_neg file]

theorem works_delete (wf : t.WellFormed) (tidy : c.Tidy t) (ne : key ≠ "") :
    Works key c t (c.delete t key).1 (c.delete t key).2 := by
  have dropped := works_dropFile wf tidy ne
  simp only [Cache.delete]
  refine dropped.trans (works_memory dropped.wellFormed dropped.tidy fun k other => ?_)
  rw [TextMap.get?_erase, if_neg other]

/-- The file of the key is written, if its directory can be made. -/
theorem works_writeFile (wf : t.WellFormed) (tidy : c.Tidy t) (ne : key ≠ "") (now : Int)
    (e : CacheEntry) : Works key c t c (c.writeFile t now key e) := by
  cases made : t.makeDirectories c.directory with
  | none =>
    have unchanged : c.writeFile t now key e = t := by simp only [writeFile, made]
    rw [unchanged]
    exact works_refl wf tidy
  | some u =>
    obtain ⟨wf', p, seat⟩ := writeFile_made_spec wf (tidy.clean key) ne made now e
    have held := held?_writeFile wf (tidy.clean key) ne made now e
    refine ⟨rfl, wf', tidy.of_held? fun name _ n node => ?_,
      keeps_writeFile wf (tidy.clean key) ne now e, fun _ => ?_, fun name file draft => ?_,
      fun _ _ => rfl⟩
    · rw [held] at node
      split at node
      · exact .inr ⟨_, _, (Option.some.inj node).symm⟩
      · split at node
        · cases node
        · exact .inl node
    · rw [FileTree.makeDirectories_of_seat? seat]
      rfl
    · rw [held, if_neg file, if_neg draft]

theorem works_set (wf : t.WellFormed) (tidy : c.Tidy t) (ne : key ≠ "") (now : Int) (data : Json)
    (ttl : Option Nat) :
    Works key c t (c.set t now key data ttl).1 (c.set t now key data ttl).2 := by
  have written := works_writeFile wf tidy ne now ⟨data, now, ttl⟩
  refine written.trans (works_memory written.wellFormed written.tidy fun k other => ?_)
  rw [TextMap.get?_insert, if_neg other]

/-- A look-up gives a living entry of one of the tiers and keeps it in memory, or it gives nothing;
either way the key has no entry afterwards that it had not before. -/
structure Finds (c : Cache) (t : FileTree) (now : Int) (key : String) : Prop where
  works : Works key c t (c.get t now key).2.1 (c.get t now key).2.2
  data : ∀ data, (c.get t now key).1 = some data → ∃ e, e.data = data ∧
    (c.memory.get? key = some e ∨ c.stored? t key = some e)
  memory : ∀ e, (c.get t now key).2.1.memory.get? key = some e →
    c.memory.get? key = some e ∨ c.stored? t key = some e

theorem finds_get (wf : t.WellFormed) (tidy : c.Tidy t) (ne : key ≠ "") (now : Int) :
    Finds c t now key := by
  -- the file counts only where memory has nothing, and age only where there is an entry
  cases found : c.memory.get? key with
  | some e =>
    cases expired : e.isExpired now with
    | true =>
      have result := get_of_memory_expired (t := t) found expired
      refine ⟨by rw [result]; exact works_delete wf tidy ne, ?_, ?_⟩
      · intro data answer
        rw [result] at answer
        cases answer
      · intro d there
        rw [result] at there
        simp [delete] at there
    | false =>
      have result := get_of_memory (t := t) found expired
      refine ⟨by rw [result]; exact works_refl wf tidy, ?_, ?_⟩
      · intro data answer
        rw [result] at answer
        exact ⟨e, Option.some.inj answer, .inl found⟩
      · intro d there
        rw [result] at there
        exact .inl there
  | none =>
    cases stored : c.stored? t key with
    | none =>
      have result : c.get t now key = (none, c, t) := get_of_stored_none ne (tidy.clean key) found stored
      refine ⟨by rw [result]; exact works_refl wf tidy, ?_, ?_⟩
      · intro data answer
        rw [result] at answer
        cases answer
      · intro d there
        rw [result] at there
        exact .inl there
    | some e =>
      cases expired : e.isExpired now with
      | true =>
        have result := get_of_stored_expired ne found stored expired
        refine ⟨by simp only [result]; exact works_dropFile wf tidy ne, ?_, ?_⟩
        · intro data answer
          rw [result] at answer
          cases answer
        · intro d there
          rw [result] at there
          exact .inl there
      | false =>
        have result := get_of_stored ne found stored expired
        refine ⟨?_, ?_, ?_⟩
        · rw [result]
          refine works_memory wf tidy fun k other => ?_
          rw [TextMap.get?_insert, if_neg other]
        · intro data answer
          rw [result] at answer
          exact ⟨e, Option.some.inj answer, .inr stored⟩
        · intro d there
          rw [result] at there
          simp only [TextMap.get?_insert, if_pos] at there
          exact .inr (stored.trans there)

/-! ### What a cache holds under a key -/

/-- Whatever the cache has under the key, in memory or in the file, is an entry with a property. -/
structure Holds (P : CacheEntry → Prop) (key : String) (c : Cache) (t : FileTree) : Prop where
  memory : ∀ e, c.memory.get? key = some e → P e
  file : ∀ content modified,
    t.held? c.directory (fileName key).toList = some (.file content modified) →
    ∃ e, content = e.bytes ∧ P e

namespace Holds

variable {P : CacheEntry → Prop}

/-- Work on another key with another file changes nothing of it. -/
theorem works {k : String} (h : Holds P k c t) (works : Works key c t c' t')
    (apart : fileName k ≠ fileName key) : Holds P k c' t' := by
  refine ⟨fun e found => ?_, fun content modified held => ?_⟩
  · rw [works.memory k fun same => apart (congrArg fileName same)] at found
    exact h.memory e found
  · rw [works.directory, works.held _ (fun same => apart (String.toList_inj.1 same))
      (fileName_ne_draftName k key)] at held
    exact h.file content modified held

/-- The entry that is read from the file has the property, if such entries survive their files. -/
theorem stored (h : Holds P key c t) (fits : ∀ e, P e → e.Fits) {e : CacheEntry}
    (stored : c.stored? t key = some e) : P e := by
  rw [stored?] at stored
  cases standing : t.standing? c.directory (fileName key).toList with
  | none =>
    rw [standing] at stored
    cases stored
  | some n =>
    cases n with
    | directory =>
      rw [standing] at stored
      cases stored
    | link target =>
      rw [standing] at stored
      cases stored
    | file content modified =>
      obtain ⟨d, rfl, good⟩ := h.file content modified (FileTree.held?_of_standing? standing)
      rw [standing, entryIn?, CacheEntry.ofBytes?_bytes (fits d good)] at stored
      obtain rfl := Option.some.inj stored
      exact good

theorem dropFile (h : Holds P key c t) (wf : t.WellFormed) (tidy : c.Tidy t) (ne : key ≠ "") :
    Holds P key c (c.dropFile t key) := by
  cases seat : t.seat? c.directory with
  | none =>
    rw [dropFile_of_no_seat ne seat]
    exact h
  | some p =>
    refine ⟨h.memory, fun content modified held => ?_⟩
    rw [held?_dropFile wf (tidy.clean key) ne seat, if_pos rfl] at held
    cases held

theorem delete (h : Holds P key c t) (wf : t.WellFormed) (tidy : c.Tidy t) (ne : key ≠ "") :
    Holds P key (c.delete t key).1 (c.delete t key).2 := by
  simp only [Cache.delete]
  refine ⟨fun e found => ?_, (h.dropFile wf tidy ne).file⟩
  simp at found

/-- A look-up leaves only entries that were there. -/
theorem get (h : Holds P key c t) (fits : ∀ e, P e → e.Fits) (wf : t.WellFormed) (tidy : c.Tidy t)
    (ne : key ≠ "") (now : Int) :
    Holds P key (c.get t now key).2.1 (c.get t now key).2.2 := by
  have finds := finds_get wf tidy ne now
  refine ⟨fun e found => ?_, ?_⟩
  · rcases finds.memory e found with remembered | stored
    · exact h.memory e remembered
    · exact h.stored fits stored
  · rw [finds.works.directory]
    rcases c.get_tree_cases t now key with same | dropped
    · rw [same]
      exact h.file
    · rw [dropped]
      exact (h.dropFile wf tidy ne).file

theorem set (h : Holds P key c t) (wf : t.WellFormed) (tidy : c.Tidy t) (ne : key ≠ "") {now : Int}
    {data : Json} {ttl : Option Nat} (good : P ⟨data, now, ttl⟩) :
    Holds P key (c.set t now key data ttl).1 (c.set t now key data ttl).2 := by
  refine ⟨fun e found => ?_, fun content modified held => ?_⟩
  · simp only [Cache.set, TextMap.get?_insert, if_pos] at found
    obtain rfl := Option.some.inj found
    exact good
  · have held : (c.writeFile t now key ⟨data, now, ttl⟩).held? c.directory (fileName key).toList =
        some (.file content modified) := held
    cases made : t.makeDirectories c.directory with
    | none =>
      rw [writeFile, made] at held
      exact h.file content modified held
    | some u =>
      rw [held?_writeFile wf (tidy.clean key) ne made, if_pos rfl] at held
      obtain ⟨rfl, _⟩ := Node.file.inj (Option.some.inj held)
      exact ⟨_, rfl, good⟩

end Holds

end SourceAtlas.Cache
