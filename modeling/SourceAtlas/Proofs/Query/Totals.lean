import SourceAtlas.Proofs.Catalog.Tally
import SourceAtlas.Proofs.Record.RoundTrip
import SourceAtlas.Query.Listing
import SourceAtlas.Query.Search
/-!
The totals of a catalog against what its queries answer. However a catalog came about, it holds
extractions of recorded files only; so the totals, which run through whole maps, are sums over the
recorded files. The counts of kinds are those of searches for the empty text, which every name holds.
-/

namespace SourceAtlas

namespace Catalog

/-- The catalogs that come about by operations one after the other, with the paths that are recorded:
files and what was found in recorded ones come in, the time is set, all is cleared, or the snapshot of
another such catalog takes the place of what is there. -/
inductive Arises : Catalog → Finset String → Prop
  | empty : Arises .empty ∅
  | recordFile {c : Catalog} {paths : Finset String} (before : Arises c paths) (f : FileRecord) :
    Arises (c.recordFile f) (insert f.path paths)
  | recordExtraction {c : Catalog} {paths : Finset String} (before : Arises c paths) {path : String}
    (recorded : path ∈ paths) (x : Extraction) : Arises (c.recordExtraction path x) paths
  | setTime {c : Catalog} {paths : Finset String} (before : Arises c paths) (now : Int) :
    Arises { c with lastIndexed := now } paths
  | clear {c : Catalog} {paths : Finset String} (before : Arises c paths) : Arises .empty ∅
  | restore {c d : Catalog} {paths saved : Finset String} (before : Arises c paths)
    (other : Arises d saved) : Arises (.ofSnapshot d.toSnapshot) saved

/-- Exactly the paths have a record, and only they may have an extraction. -/
structure Records (c : Catalog) (paths : Finset String) : Prop where
  files : ∀ k, k ∈ c.files.keys ↔ k ∈ paths
  symbols : ∀ k ∈ c.symbols.keys, k ∈ paths
  routes : ∀ k ∈ c.routes.keys, k ∈ paths
  dependencies : ∀ k ∈ c.dependencies.keys, k ∈ paths

variable {c : Catalog} {paths : Finset String}

theorem records_empty : Records .empty ∅ := by
  constructor <;> simp [Catalog.empty, TextMap.keys, TextMap.empty]

theorem Records.recordFile (h : Records c paths) (f : FileRecord) :
    Records (c.recordFile f) (insert f.path paths) where
  files k := by rw [Catalog.recordFile, TextMap.mem_keys_insert, h.files, Finset.mem_insert]
  symbols k mem := Finset.mem_insert_of_mem (h.symbols k mem)
  routes k mem := Finset.mem_insert_of_mem (h.routes k mem)
  dependencies k mem := Finset.mem_insert_of_mem (h.dependencies k mem)

theorem Records.recordExtraction (h : Records c paths) {path : String} (recorded : path ∈ paths)
    (x : Extraction) : Records (c.recordExtraction path x) paths where
  files := h.files
  symbols k mem := (TextMap.mem_keys_insert.1 mem).elim (fun same => same ▸ recorded) (h.symbols k)
  routes k mem := (TextMap.mem_keys_insert.1 mem).elim (fun same => same ▸ recorded) (h.routes k)
  dependencies k mem :=
    (TextMap.mem_keys_insert.1 mem).elim (fun same => same ▸ recorded) (h.dependencies k)

/-- Every operation keeps extractions to recorded files. -/
theorem Arises.records (h : Arises c paths) : c.Records paths := by
  induction h with
  | empty => exact records_empty
  | recordFile _ f ih => exact ih.recordFile f
  | recordExtraction _ recorded x ih => exact ih.recordExtraction recorded x
  | setTime _ now ih => exact ⟨ih.files, ih.symbols, ih.routes, ih.dependencies⟩
  | clear _ _ => exact records_empty
  | restore _ _ _ ih =>
    rw [ofSnapshot_toSnapshot]
    exact ih

theorem counts_kindCounts (c : Catalog) :
    TextMap.Counts (fun s : SymbolRecord => s.kind.word) c.allSymbols c.kindCounts :=
  (TextMap.counts_nil _).foldl c.allSymbols

end Catalog

/-! ### Open queries -/

theorem matchesName_empty (s : SymbolRecord) : matchesName "" s = true := by
  rw [matchesName]
  cases s.name.toList.map Text.foldCase <;> rfl

theorem SymbolKind.word_beq (k l : SymbolKind) : (k.word == l.word) = (l == k) := by
  cases k <;> cases l <;> decide

namespace Atlas

/-- A search for the empty text counts the symbols of the kind. -/
theorem totalCount_search_empty (a : Atlas) (kind : Option SymbolKind) (withUsages : Bool) (limit : Nat) :
    (a.search "" kind withUsages limit).totalCount =
      a.catalog.allSymbols.countP fun s => kind.all (· == s.kind) := by
  simp [search, ranked, List.countP_eq_length_filter, matchesName_empty]

theorem length_routes_open (a : Atlas) : (a.routes none none).length = a.catalog.allRoutes.length := by
  simp [routes]

end Atlas

/-- The counts of kinds are those of the searches that find something. -/
theorem Atlas.get?_kindCounts (a : Atlas) (withUsages : Bool) (limit : Nat) (word : String) (n : Nat) :
    a.catalog.kindCounts.get? word = some n ↔ ∃ kind : SymbolKind, kind.word = word ∧
      n = (a.search "" (some kind) withUsages limit).totalCount ∧ n ≠ 0 := by
  have same : ∀ kind : SymbolKind,
      (a.search "" (some kind) withUsages limit).totalCount =
        a.catalog.allSymbols.countP fun s => s.kind.word == kind.word := fun kind => by
    rw [totalCount_search_empty]
    exact List.countP_congr fun s _ => by rw [SymbolKind.word_beq]; rfl
  rw [a.catalog.counts_kindCounts.counted]
  constructor
  · rintro ⟨count, filled⟩
    -- some symbol has the word, so it is that of a kind
    have some : 0 < a.catalog.allSymbols.countP fun s => s.kind.word == word := by omega
    obtain ⟨s, _, named⟩ := List.countP_pos_iff.1 some
    obtain rfl := eq_of_beq named
    exact ⟨s.kind, rfl, count.trans (same s.kind).symm, filled⟩
  · rintro ⟨kind, rfl, count, filled⟩
    exact ⟨count.trans (same kind), filled⟩

/-- The totals of a catalog, however it came about, agree with what is answered about it. With the paths
that were recorded, each once, there are as many files as paths, and the symbols, routes and dependencies
are those of the single files together, the resolved dependencies among them. A word stands among the
kinds exactly if it is that of a kind of which a search for the empty text finds something, with the number
that are found; all kinds together are all symbols, which is what that search finds when it is not limited
to a kind. And the routes are those that are listed without a filter. -/
theorem Catalog.stats_agree {c : Catalog} {paths : Finset String} (h : c.Arises paths) :
    (∀ path, (c.file? path).isSome ↔ path ∈ paths) ∧
    c.stats.totalFiles = paths.card ∧
    c.stats.totalSymbols = ∑ path ∈ paths, (c.symbolsIn path).length ∧
    c.stats.totalRoutes = ∑ path ∈ paths, (c.routesIn path).length ∧
    c.stats.totalDependencies = ∑ path ∈ paths, (c.dependenciesIn path).length ∧
    c.stats.resolvedDependencies =
      ∑ path ∈ paths, ((c.dependenciesIn path).filter (·.resolved.isSome)).length ∧
    c.stats.resolvedDependencies ≤ c.stats.totalDependencies ∧
    ∀ a : Atlas, a.catalog = c → ∀ (withUsages : Bool) (limit : Nat),
      (∀ word n, c.stats.symbolsByKind.get? word = some n ↔ ∃ kind : SymbolKind, kind.word = word ∧
        n = (a.search "" (some kind) withUsages limit).totalCount ∧ n ≠ 0) ∧
      c.stats.symbolsByKind.values.sum = c.stats.totalSymbols ∧
      (a.search "" none withUsages limit).totalCount = c.stats.totalSymbols ∧
      (a.routes none none).length = c.stats.totalRoutes := by
  have records := h.records
  refine ⟨fun path => ?_, TextMap.size_eq_card records.files,
    TextMap.length_flatten_values _ records.symbols, TextMap.length_flatten_values _ records.routes,
    TextMap.length_flatten_values _ records.dependencies, ?_, List.length_filter_le _ _, ?_⟩
  · rw [file?, ← TextMap.mem_keys_iff, records.files]
  · simp only [stats, ← List.countP_eq_length_filter]
    exact TextMap.countP_flatten_values _ _ records.dependencies
  · rintro a rfl withUsages limit
    refine ⟨a.get?_kindCounts withUsages limit, a.catalog.counts_kindCounts.total, ?_,
      a.length_routes_open⟩
    rw [Atlas.totalCount_search_empty]
    exact congrFun List.countP_true _

namespace Catalog

/-- A class of the file `a.ts`. -/
def trackedClass : SymbolRecord :=
  ⟨"A", .classType, "/p/a.ts", 1, 1, none, none, none, none, none, none, none, "class A"⟩

/-- A function of that file. -/
def trackedFunction : SymbolRecord :=
  ⟨"run", .function, "/p/a.ts", 3, 1, some [], none, none, none, some false, none, none, "function run()"⟩

/-- The catalog of the file, with both and an import. -/
def tracked : Catalog :=
  (empty.recordFile ⟨"/p/a.ts", "a.ts", ".ts", 90, 1, "a.ts"⟩).recordExtraction "/p/a.ts"
    ⟨[trackedClass, trackedFunction], [], [⟨"/p/a.ts", "./b", some "/p/b.ts", .importing, "/p/a.ts", 2⟩]⟩

/-- The snapshot of that catalog is taken up when all was cleared. Then the file is read again, with the
class alone, and a second file comes in that is not read. -/
def trackedAgain : Catalog :=
  ((ofSnapshot tracked.toSnapshot).recordExtraction "/p/a.ts" ⟨[trackedClass], [], []⟩).recordFile
    ⟨"/p/b.ts", "b.ts", ".ts", 7, 2, "b.ts"⟩

theorem stats_agree_tracked :
    trackedAgain.Arises {"/p/b.ts", "/p/a.ts"} ∧ trackedAgain.stats.totalFiles = 2 ∧
      trackedAgain.stats.totalSymbols =
        ∑ path ∈ {"/p/b.ts", "/p/a.ts"}, (trackedAgain.symbolsIn path).length ∧
      trackedAgain.stats.symbolsByKind.get? "class" = some 1 ∧
      trackedAgain.stats.symbolsByKind.get? "function" = none := by
  have first : tracked.Arises {"/p/a.ts"} :=
    (Arises.empty.recordFile _).recordExtraction (Finset.mem_insert_self _ _) _
  have again : trackedAgain.Arises {"/p/b.ts", "/p/a.ts"} :=
    ((first.clear.restore first).recordExtraction (Finset.mem_singleton_self _) _).recordFile _
  obtain ⟨_, files, symbols, _⟩ := stats_agree again
  exact ⟨again, files, symbols, by decide +kernel, by decide +kernel⟩

end Catalog

end SourceAtlas
