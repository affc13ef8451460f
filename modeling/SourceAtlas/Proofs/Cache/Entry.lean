import SourceAtlas.Cache
import SourceAtlas.Proofs.Path.Steps
import SourceAtlas.Proofs.Record.RoundTrip
import SourceAtlas.Proofs.Text.Bytes
/-!
What a cache puts in its directory. An entry is read back from the bytes of its file, and the names
of the files are plain names that no draft of another entry has.
-/

namespace SourceAtlas

/-! ### Entries -/

namespace CacheEntry

/-- The entry survives its file: its document is plain and not nested too deeply, its numbers are
integers of 64 bits. -/
structure Fits (e : CacheEntry) : Prop where
  data : e.data.PlainWithin 126
  timestamp : isSigned64 e.timestamp
  ttl : ∀ ttl ∈ e.ttl, isUnsigned64 ttl

theorem plainWithin_toJson {e : CacheEntry} (fits : e.Fits) : e.toJson.PlainWithin 127 := by
  have ttl : (Json.ofOption .nat e.ttl).PlainWithin 126 := by
    cases set : e.ttl with
    | none => exact ⟨rfl, Nat.zero_le _⟩
    | some n => exact Json.plainWithin_nat 126 (fits.ttl n set)
  exact Json.plainWithin_record (by decide : fieldNames.Nodup)
    (.set fits.data (.set (Json.plainWithin_int 126 fits.timestamp) (.set ttl .nil)))

theorem writtenFields?_object {members : List (String × Json)} (plain : Json.isPlain (.object members))
    (once : fieldNames.all fun n => (members.filter (·.1 == n)).length ≤ 1) :
    Json.writtenFields? fieldNames 3 (.object members) = some members := by
  rw [Json.writtenFields?, if_pos once, Json.settle_eq_self _ plain, Json.fields?]

theorem ofText?_of_fields {text : String} {members : List (String × Json)} {e : CacheEntry}
    (read : Json.readRecord? fieldNames text.toList = some (.object members))
    (fields : Json.writtenFields? fieldNames 3 (.object members) = some members)
    (data : Json.required members "data" some = some e.data)
    (timestamp : Json.required members "timestamp" Json.int? = some e.timestamp)
    (ttl : Json.unsettable members "ttl" Json.nat? = some e.ttl) : ofText? text = some e := by
  simp [ofText?, read, fields, data, timestamp, ttl]

/-- An entry is read back from its text. -/
theorem ofText?_compact {e : CacheEntry} (fits : e.Fits) : ofText? e.toJson.compact = some e := by
  obtain ⟨plain, deep⟩ := plainWithin_toJson fits
  have named : ∀ m ∈ [("data", e.data), ("timestamp", Json.int e.timestamp),
      ("ttl", Json.ofOption .nat e.ttl)], m.1 ∈ fieldNames := by
    simp [fieldNames]
  have read := Json.readRecord?_compactText named plain deep
  have ttl : Json.unsettable [("data", e.data), ("timestamp", Json.int e.timestamp),
      ("ttl", Json.ofOption .nat e.ttl)] "ttl" Json.nat? = some e.ttl := by
    rw [Json.unsettable]
    cases set : e.ttl with
    | none => simp [lookup_cons_ite, Json.ofOption]
    | some n =>
      have number : Json.nat? (.number (.int n)) = some n := Json.nat?_nat (fits.ttl n set)
      simp [lookup_cons_ite, Json.ofOption, Json.nat, number]
  refine ofText?_of_fields (by rw [Json.compact, String.toList_ofList]; exact read)
    (writtenFields?_object plain (by simp [fieldNames])) ?_ ?_ ttl
  · exact Json.required_eq (j := e.data) List.lookup_cons_self rfl
  · exact Json.required_eq (j := .int e.timestamp) (by simp [lookup_cons_ite])
      (Json.int?_int fits.timestamp)

/-- The bytes of an entry's file. -/
def bytes (e : CacheEntry) : ByteArray := e.toJson.compact.toUTF8

/-- The entry in the bytes of a file. -/
def ofBytes? (content : ByteArray) : Option CacheEntry := (String.fromUTF8? content).bind ofText?

theorem ofBytes?_bytes {e : CacheEntry} (fits : e.Fits) : ofBytes? e.bytes = some e := by
  rw [ofBytes?, bytes, Text.fromUTF8?_eq_some_iff.2 rfl, Option.bind_some, ofText?_compact fits]

end CacheEntry

/-! ### File names -/

namespace Cache

/-- What the file of a key and its draft are called, their extensions apart. -/
def stem (key : String) : List Char := (sanitize false key.toList).take maxStem

/-- The name under which the file of a key is written before it is moved. -/
def draftName (key : String) : List Char := stem key ++ '.' :: "json.tmp".toList

theorem fileName_toList (key : String) : (fileName key).toList = stem key ++ '.' :: "json".toList := by
  rw [fileName, String.toList_ofList]
  rfl

theorem mem_sanitize {c : Char} : ∀ {cs : List Char} {inRun : Bool}, c ∈ sanitize inRun cs →
    c.isAlphanum ∨ c = '_'
  | d :: cs, inRun, h => by
    rw [sanitize] at h
    split at h
    · rename_i letter
      rcases List.mem_cons.1 h with rfl | h
      · exact .inl letter
      · exact mem_sanitize h
    · split at h
      · exact mem_sanitize h
      · rcases List.mem_cons.1 h with rfl | h
        · exact .inr rfl
        · exact mem_sanitize h

theorem not_mem_stem {c : Char} (odd : c.isAlphanum = false ∧ c ≠ '_') (key : String) :
    c ∉ stem key := by
  intro mem
  rcases mem_sanitize (List.mem_of_mem_take mem) with letter | score
  · simp [odd.1] at letter
  · exact odd.2 score

theorem stem_ne_nil {key : String} (ne : key ≠ "") : stem key ≠ [] := by
  have filled : key.toList ≠ [] := fun empty => ne (String.toList_eq_nil_iff.1 empty)
  cases chars : key.toList with
  | nil => exact absurd chars filled
  | cons c cs =>
    rw [stem, chars, sanitize, maxStem]
    split <;> simp

/-- A stem with any extension names an entry of a directory. -/
theorem isPlainName_stem {key : String} (ne : key ≠ "") {ext : List Char} (slash : '/' ∉ ext) :
    Path.isPlainName (stem key ++ '.' :: ext) := by
  have noSlash := not_mem_stem (c := '/') (by decide) key
  have noDot := not_mem_stem (c := '.') (by decide) key
  have filled := stem_ne_nil ne
  cases eq : stem key with
  | nil => exact absurd eq filled
  | cons c cs =>
    rw [eq] at noDot noSlash
    have first : c ≠ '.' := fun same => noDot (same ▸ List.mem_cons_self)
    refine Path.isPlainName_iff.2 ⟨?_, ?_, ?_⟩
    · simp [Path.isIdle]
    · simp [first]
    · simp only [List.mem_append, List.mem_cons, not_or] at noSlash ⊢
      exact ⟨noSlash, by decide, slash⟩

theorem isPlainName_fileName {key : String} (ne : key ≠ "") :
    Path.isPlainName (fileName key).toList := by
  rw [fileName_toList]
  exact isPlainName_stem ne (by decide)

theorem isPlainName_draftName {key : String} (ne : key ≠ "") : Path.isPlainName (draftName key) :=
  isPlainName_stem ne (by decide)

/-- No file has the extension of a draft. -/
theorem fileName_ne_tmp (key : String) (front : List Char) :
    (fileName key).toList ≠ front ++ '.' :: "json.tmp".toList := by
  intro same
  have last := congrArg List.getLast? same
  rw [fileName_toList] at last
  simp [List.getLast?_append] at last

/-- No file has the name of a draft. -/
theorem fileName_ne_draftName (key other : String) : (fileName key).toList ≠ draftName other :=
  fileName_ne_tmp key (stem other)

/-- The draft of a key stands beside its file. -/
theorem withExtension_pathOf (c : Cache) {key : String} (ne : key ≠ "") :
    Path.withExtension (c.pathOf key) "json.tmp".toList = Path.join c.directory (draftName key) := by
  rw [pathOf, fileName_toList]
  exact Path.withExtension_join (stem_ne_nil ne) (by decide) (isPlainName_stem ne (by decide))
    (isPlainName_stem ne (by decide)) (by decide) c.directory

theorem extension?_pathOf (c : Cache) {key : String} (ne : key ≠ "") :
    Path.extension? (c.pathOf key) = some "json".toList := by
  rw [pathOf, fileName_toList]
  exact Path.extension?_join (stem_ne_nil ne) (by decide) (isPlainName_stem ne (by decide)) c.directory

/-- The name is kept for the files of a cache and their drafts. -/
def isReserved (name : List Char) : Bool :=
  ".json".toList.isSuffixOf name || ".json.tmp".toList.isSuffixOf name

theorem isReserved_fileName (key : String) : isReserved (fileName key).toList := by
  rw [fileName_toList, isReserved, Bool.or_eq_true]
  exact .inl (List.isSuffixOf_iff_suffix.2 ⟨stem key, rfl⟩)

theorem isReserved_draftName (key : String) : isReserved (draftName key) := by
  rw [draftName, isReserved, Bool.or_eq_true]
  exact .inr (List.isSuffixOf_iff_suffix.2 ⟨stem key, rfl⟩)

end Cache

end SourceAtlas
