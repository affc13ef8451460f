import SourceAtlas.Proofs.Catalog.TextMap
import SourceAtlas.Proofs.Record.RoundTrip
import SourceAtlas.Proofs.Text.Bytes
/-!
Catalogs and snapshots. A catalog survives the way through the text of its snapshot, if its numbers are
integers of 64 bits. A snapshot, on the other hand, may be any lists of entries, and the catalog made
from it gives it back in *normal form*: in the order of the paths, each path once, with the value that
was given last. What is in normal form stays as it is.
-/

namespace SourceAtlas

/-! ### Entries in normal form -/

/-- No entry behind this one has its key. -/
def IsLast (entries : List (String × α)) (e : String × α) : Prop :=
  ∃ front rest, entries = front ++ e :: rest ∧ e.1 ∉ rest.map (·.1)

theorem IsLast.mem {entries : List (String × α)} {e : String × α} (h : IsLast entries e) :
    e ∈ entries := by
  obtain ⟨front, rest, rfl, -⟩ := h
  simp

theorem isLast_cons {d e : String × α} {rest : List (String × α)} :
    IsLast (d :: rest) e ↔ IsLast rest e ∨ d = e ∧ e.1 ∉ rest.map (·.1) := by
  constructor
  · rintro ⟨front, later, split, last⟩
    cases front with
    | nil =>
      obtain ⟨rfl, rfl⟩ := List.cons.inj split
      exact .inr ⟨rfl, last⟩
    | cons f front =>
      obtain ⟨-, rfl⟩ := List.cons.inj split
      exact .inl ⟨front, later, rfl, last⟩
  · rintro (⟨front, later, rfl, last⟩ | ⟨rfl, last⟩)
    · exact ⟨d :: front, later, rfl, last⟩
    · exact ⟨[], rest, rfl, last⟩

/-- Some entry is the last with a given key. -/
theorem exists_isLast {key : String} {entries : List (String × α)} (h : key ∈ entries.map (·.1)) :
    ∃ value, IsLast entries (key, value) := by
  induction entries with
  | nil => cases h
  | cons d rest ih =>
    by_cases later : key ∈ rest.map (·.1)
    · obtain ⟨value, last⟩ := ih later
      exact ⟨value, isLast_cons.2 (.inl last)⟩
    · rcases List.mem_cons.1 h with rfl | again
      · exact ⟨d.2, isLast_cons.2 (.inr ⟨rfl, later⟩)⟩
      · exact absurd again later

/-- The entries that are kept of those that are given: in the byte order of their keys, for each key
that occurs the last that is given. -/
structure NormalForm (given kept : List (String × α)) : Prop where
  increasing : kept.Pairwise fun a b => a.1.toUTF8.toList < b.1.toUTF8.toList
  keys : ∀ key, key ∈ kept.map (·.1) ↔ key ∈ given.map (·.1)
  last : ∀ e, e ∈ kept ↔ IsLast given e

namespace TextMap

/-- Each insertion takes the place of what was there under its key. -/
theorem get?_foldl_insert (entries : List (String × α)) (m : TextMap α) (key : String) (value : α) :
    (entries.foldl (fun m e => m.insert e.1 e.2) m).get? key = some value ↔
      IsLast entries (key, value) ∨ key ∉ entries.map (·.1) ∧ m.get? key = some value := by
  induction entries generalizing m with
  | nil => simp [IsLast]
  | cons d rest ih =>
    rw [List.foldl_cons, ih, get?_insert, isLast_cons, List.map_cons, List.mem_cons]
    by_cases here : key = d.1
    · subst here
      have same : d = (d.1, value) ↔ d.2 = value := by
        rw [Prod.ext_iff]
        simp
      simp only [if_pos, Option.some.injEq, same, true_or, not_true, false_and, or_false]
      exact or_congr_right And.comm
    · have other : d ≠ (key, value) := fun same => here (by rw [same])
      simp only [here, other, if_false, false_and, or_false, false_or]

theorem mem_entries_ofList {entries : List (String × α)} {e : String × α} :
    e ∈ (ofList entries).entries ↔ IsLast entries e := by
  have held : (ofList entries).get? e.1 = some e.2 ↔ IsLast entries e := by
    rw [ofList, get?_foldl_insert]
    simp [get?, empty]
  exact ⟨fun mem => held.1 (get?_of_mem_entries mem), fun last => mem_of_lookup (held.2 last)⟩

theorem normalForm_ofList (entries : List (String × α)) :
    NormalForm entries (ofList entries).entries := by
  refine ⟨(ofList entries).increasing.imp Text.bytes_lt, fun key => ?_, fun e => mem_entries_ofList⟩
  constructor
  · intro kept
    obtain ⟨e, mem, rfl⟩ := List.mem_map.1 kept
    exact List.mem_map.2 ⟨e, (mem_entries_ofList.1 mem).mem, rfl⟩
  · intro given
    obtain ⟨value, last⟩ := exists_isLast given
    exact List.mem_map.2 ⟨(key, value), mem_entries_ofList.2 last, rfl⟩

end TextMap

/-! ### Snapshots -/

/-- Each list of one snapshot is the normal form of that of another, and the time is the same. -/
structure Snapshot.Normal (given kept : Snapshot) : Prop where
  files : NormalForm given.files kept.files
  symbols : NormalForm given.symbols kept.symbols
  routes : NormalForm given.routes kept.routes
  dependencies : NormalForm given.dependencies kept.dependencies
  lastIndexed : kept.lastIndexed = given.lastIndexed

namespace Catalog

/-- The catalog written in a text. -/
def ofText? (text : String) : Option Catalog :=
  ((Json.read? text).bind Snapshot.ofJson?).map ofSnapshot

/-- The snapshot of a catalog as text. -/
def toText (c : Catalog) : String := c.toSnapshot.toJson.compact

theorem ofText?_toText {c : Catalog} (fits : c.toSnapshot.Fits) : ofText? c.toText = some c := by
  obtain ⟨plain, deep⟩ := Snapshot.plainWithin_toJson fits
  have read : Json.read? c.toText = some c.toSnapshot.toJson := by
    rw [Json.read?, toText, Json.compact, String.toList_ofList,
      Json.readRaw?_compactText plain (Nat.le_trans deep (by decide)), Option.map_some,
      Json.settle_eq_self _ plain]
  rw [ofText?, read, Option.bind_some, Snapshot.ofJson?_toJson fits, Option.map_some,
    ofSnapshot_toSnapshot]

theorem normal_ofSnapshot (s : Snapshot) : s.Normal (ofSnapshot s).toSnapshot :=
  ⟨TextMap.normalForm_ofList _, TextMap.normalForm_ofList _, TextMap.normalForm_ofList _,
    TextMap.normalForm_ofList _, rfl⟩

theorem fits_ofSnapshot {s : Snapshot} (fits : s.Fits) : (ofSnapshot s).toSnapshot.Fits := by
  have normal := normal_ofSnapshot s
  exact ⟨fun e he => fits.files e ((normal.files.last e).1 he).mem,
    fun e he => fits.symbols e ((normal.symbols.last e).1 he).mem,
    fun e he => fits.routes e ((normal.routes.last e).1 he).mem,
    fun e he => fits.dependencies e ((normal.dependencies.last e).1 he).mem, fits.lastIndexed⟩

/-- A catalog is read back from the text of its snapshot, whatever its texts are, whichever of the
optional fields are set, and whatever integers of 64 bits its numbers are. Any snapshot, also one that
is out of order or names a path twice, is brought into normal form by the catalog made from it, and one
that is in normal form comes back as it is. -/
theorem snapshot_faithful :
    (∀ c : Catalog, c.toSnapshot.Fits → ofText? c.toText = some c) ∧
      ∀ s : Snapshot, s.Normal (ofSnapshot s).toSnapshot ∧
        (ofSnapshot (ofSnapshot s).toSnapshot).toSnapshot = (ofSnapshot s).toSnapshot := by
  refine ⟨fun c => ofText?_toText, fun s => ⟨normal_ofSnapshot s, ?_⟩⟩
  rw [ofSnapshot_toSnapshot]

/-- A snapshot out of order that names a path twice, with the largest and smallest numbers, characters
that must be escaped, and symbols with all of the optional fields and with none. -/
def extremeSnapshot : Snapshot :=
  { files := [("/ß", ⟨"/ß", "\"\\", ".ts", 18446744073709551615, -9223372036854775808, "\x00"⟩),
      ("/😀", ⟨"/😀", "\n", "", 0, 9223372036854775807, "\x7f"⟩),
      ("/ß", ⟨"/ß", "\t", ".ts", 1, 0, "\u2028"⟩)]
    symbols := [("/ß",
      [⟨"f", .method, "/ß", 18446744073709551615, 1,
          some [⟨"x", some "T", some true, some "0"⟩, ⟨"y", none, none, none⟩], some "", some .ownClass,
          some false, some true, some "A", some ["B", "C"], "\x7b"⟩,
        ⟨"g", .function, "/ß", 2, 3, none, none, none, none, none, none, none, "\x7d"⟩])]
    routes := [("/ß", [⟨"/", .options, "/ß", 4, some "h", some []⟩, ⟨"", .get, "/ß", 0, none, none⟩])]
    dependencies := [("/ß", [⟨"/ß", "./b", some "/b.ts", .usage, "/ß", 5⟩,
      ⟨"/ß", "c", none, .importing, "/ß", 6⟩])]
    lastIndexed := -9223372036854775808 }

theorem fits_extremeSnapshot : extremeSnapshot.Fits := by
  refine ⟨?_, ?_, ?_, ?_, by decide⟩ <;>
    simp [extremeSnapshot, FileRecord.Fits, SymbolRecord.Fits, RouteRecord.Fits, DependencyEdge.Fits,
      isUnsigned64, isSigned64, unsignedLimit, signedLimit]

theorem snapshot_faithful_extreme :
    ofText? (ofSnapshot extremeSnapshot).toText = some (ofSnapshot extremeSnapshot) ∧
      (ofSnapshot extremeSnapshot).toSnapshot.files.map (fun e => (e.1, e.2.name)) =
        [("/ß", "\t"), ("/😀", "\n")] :=
  ⟨snapshot_faithful.1 _ (fits_ofSnapshot fits_extremeSnapshot), by decide +kernel⟩

end Catalog

end SourceAtlas
