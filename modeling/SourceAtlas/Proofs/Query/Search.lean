import Mathlib.Data.Prod.Lex
import Mathlib.Data.String.Basic
import SourceAtlas.Proofs.Query.Reachability
import SourceAtlas.Proofs.StableSort
import SourceAtlas.Query.Search
/-!
What a search for symbols finds, and in which order. A name is matched by case folding and ranked by
its small letters; on ASCII texts the two are the same, so that a search finds the names whose small
letters hold those of the query. The ranking is a stable sort by one key, hence a smaller limit only
cuts it off earlier, and a choice of kinds may come before or after it.
-/

namespace SourceAtlas

/-! ### Letter case of ASCII texts -/

namespace Text

/-- Every character is one of the first 128. -/
def IsAscii (t : List Char) : Prop := ∀ c ∈ t, c.isAscii

variable {t : List Char}

theorem IsAscii.small (ascii : IsAscii t) {c : Char} (mem : c ∈ t) : c.toNat < 0x80 :=
  of_decide_eq_true (ascii c mem)

theorem IsAscii.tail {c : Char} (ascii : IsAscii (c :: t)) : IsAscii t :=
  fun d mem => ascii d (List.mem_cons_of_mem _ mem)

theorem foldCase_of_ascii (ascii : IsAscii t) : t.map foldCase = asciiLower t :=
  List.map_congr_left fun _ mem => if_pos (ascii.small mem)

theorem lowerFrom_of_ascii (ascii : IsAscii t) (before : List Char) :
    lowerFrom before t = asciiLower t := by
  induction t generalizing before with
  | nil => rfl
  | cons c t ih =>
    have first : lowerChar before c t = [c.toLower] := if_pos (ascii.small List.mem_cons_self)
    rw [lowerFrom, first, ih ascii.tail]
    rfl

theorem lower_of_ascii (ascii : IsAscii t) : lower t = asciiLower t := lowerFrom_of_ascii ascii []

theorem utf8Len_of_ascii (ascii : IsAscii t) : String.utf8Len t = t.length := by
  induction t with
  | nil => rfl
  | cons c t ih =>
    have one : c.utf8Size = 1 := Char.utf8Size_eq_one_iff.2
      (UInt32.le_iff_toNat_le.2 (Nat.le_of_lt_succ (ascii.small List.mem_cons_self)))
    rw [String.utf8Len_cons, one, ih ascii.tail, List.length_cons]

end Text

/-! ### The key of the ranking -/

/-- How close a name is to a query, letter case apart: 0 if it is the query, 1 if it begins with it,
2 otherwise. -/
def nameDistance (query name : String) : ℕ :=
  if Text.lower name.toList = Text.lower query.toList then 0
  else if Text.lower query.toList <+: Text.lower name.toList then 1
  else 2

/-- What a search ranks symbols by: how close the name is to the query, its length, and then where
the symbol stands. -/
def SymbolRecord.rankingKey (query : String) (s : SymbolRecord) : ℕ ×ₗ ℕ ×ₗ String ×ₗ ℕ :=
  toLex (nameDistance query s.name, toLex (s.name.length, toLex (s.filePath, s.line)))

/-- The same symbols in the order of their keys; those with one key stay in the order they had. -/
structure IsRanking (query : String) (found ranking : List SymbolRecord) : Prop where
  perm : ranking.Perm found
  ordered : ranking.Pairwise fun s u => s.rankingKey query ≤ u.rankingKey query
  stable : ∀ key, ranking.filter (fun s => s.rankingKey query = key) =
    found.filter fun s => s.rankingKey query = key

theorem matchRank_eq (query name : String) :
    matchRank (Text.lower query.toList) name.toList = nameDistance query name := by
  simp only [matchRank, nameDistance, List.isPrefixOf_iff_prefix]

/-- The order of a search is that of the keys. -/
theorem ranksBefore_iff {query : String} {s u : SymbolRecord} (hs : Text.IsAscii s.name.toList)
    (hu : Text.IsAscii u.name.toList) :
    ranksBefore (matchRank (Text.lower query.toList) s.name.toList, s)
        (matchRank (Text.lower query.toList) u.name.toList, u) ↔
      s.rankingKey query ≤ u.rankingKey query := by
  have size {r : SymbolRecord} (hr : Text.IsAscii r.name.toList) :
      r.name.utf8ByteSize = r.name.length := by
    rw [← String.utf8Len_toList, Text.utf8Len_of_ascii hr, String.length_toList]
  simp only [ranksBefore, matchRank_eq, size hs, size hu, SymbolRecord.rankingKey,
    Prod.Lex.toLex_le_toLex]
  by_cases distance : nameDistance query s.name = nameDistance query u.name
  · by_cases length : s.name.length = u.name.length
    · by_cases path : s.filePath = u.filePath
      · simp [distance, length, path]
      · simp [distance, length, path]
    · simp [distance, length]
  · simp [distance]

theorem SymbolRecord.ranking_trans (query : String) (s u v : SymbolRecord)
    (su : decide (s.rankingKey query ≤ u.rankingKey query))
    (uv : decide (u.rankingKey query ≤ v.rankingKey query)) :
    decide (s.rankingKey query ≤ v.rankingKey query) :=
  decide_eq_true ((of_decide_eq_true su).trans (of_decide_eq_true uv))

theorem SymbolRecord.ranking_total (query : String) (s u : SymbolRecord) :
    decide (s.rankingKey query ≤ u.rankingKey query) ||
      decide (u.rankingKey query ≤ s.rankingKey query) := by
  simpa using le_total (s.rankingKey query) (u.rankingKey query)

/-! ### What is found -/

namespace Atlas

variable {a : Atlas} {query : String} {kind : Option SymbolKind} {withUsages : Bool}

/-- The symbols of a kind whose names hold the query, letter case apart, in the order in which they
are stored. -/
def matching (a : Atlas) (query : String) (kind : Option SymbolKind) : List SymbolRecord :=
  a.catalog.allSymbols.filter fun s =>
    kind.all (· == s.kind) ∧ Text.lower query.toList <:+: Text.lower s.name.toList

theorem matchesName_iff {s : SymbolRecord} (ascii : Text.IsAscii query.toList)
    (name : Text.IsAscii s.name.toList) :
    matchesName query s ↔ Text.lower query.toList <:+: Text.lower s.name.toList := by
  rw [matchesName, Text.occursIn_iff, Text.foldCase_of_ascii ascii, Text.foldCase_of_ascii name,
    Text.lower_of_ascii ascii, Text.lower_of_ascii name]

/-- A ranking is the stable sort of what matches by the key. -/
theorem ranked_eq (ascii : Text.IsAscii query.toList)
    (names : ∀ s ∈ a.catalog.allSymbols, Text.IsAscii s.name.toList) :
    a.ranked query kind = (a.matching query kind).mergeSort fun s u =>
      s.rankingKey query ≤ u.rankingKey query := by
  have found : (a.catalog.allSymbols.filter fun s => kind.all (· == s.kind) && matchesName query s) =
      a.matching query kind := by
    refine List.filter_congr fun s stored => ?_
    rw [Bool.eq_iff_iff, Bool.and_eq_true, matchesName_iff ascii (names s stored)]
    simp
  have ascii_of_mem : ∀ s ∈ a.matching query kind, Text.IsAscii s.name.toList :=
    fun s mem => names s (List.mem_filter.1 mem).1
  rw [ranked, found, ← List.map_mergeSort (r := fun s u => s.rankingKey query ≤ u.rankingKey query)]
  · rw [List.map_map]
    exact List.map_id _
  · intro s hs u hu
    rw [Bool.eq_iff_iff, decide_eq_true_eq]
    exact (ranksBefore_iff (ascii_of_mem s hs) (ascii_of_mem u hu)).symm

theorem isRanking_ranked (ascii : Text.IsAscii query.toList)
    (names : ∀ s ∈ a.catalog.allSymbols, Text.IsAscii s.name.toList) :
    IsRanking query (a.matching query kind) (a.ranked query kind) := by
  rw [ranked_eq ascii names]
  refine ⟨List.mergeSort_perm _ _, ?_, fun key => ?_⟩
  · exact (List.pairwise_mergeSort (SymbolRecord.ranking_trans query)
      (SymbolRecord.ranking_total query) _).imp of_decide_eq_true
  · -- symbols with one key are in order as they stand, so that sorting them changes nothing
    rw [filter_mergeSort (SymbolRecord.ranking_trans query) (SymbolRecord.ranking_total query)]
    refine List.mergeSort_of_pairwise (List.pairwise_of_forall_mem_list fun s hs u hu => ?_)
    rw [of_decide_eq_true (List.mem_filter.1 hs).2, of_decide_eq_true (List.mem_filter.1 hu).2]
    exact decide_eq_true (le_refl key)

/-- The symbols of one kind are ranked as they are among those of all kinds. -/
theorem ranked_filter (ascii : Text.IsAscii query.toList)
    (names : ∀ s ∈ a.catalog.allSymbols, Text.IsAscii s.name.toList) :
    a.ranked query kind = (a.ranked query none).filter fun s => kind.all (· == s.kind) := by
  rw [ranked_eq ascii names, ranked_eq ascii names,
    filter_mergeSort (SymbolRecord.ranking_trans query) (SymbolRecord.ranking_total query), matching,
    matching, List.filter_filter]
  simp

/-- What a search finds, if names and query are ASCII texts: it counts the symbols of the kind whose
names hold the query, letter case apart, and lists the first of them by their ranking. So a smaller
limit gives the beginning of what a larger one gives, and what is found of a kind without a limit is
what is found of all kinds, less the others. -/
theorem search_exact (a : Atlas) {query : String} (ascii : Text.IsAscii query.toList)
    (names : ∀ s ∈ a.catalog.allSymbols, Text.IsAscii s.name.toList) (kind : Option SymbolKind)
    (withUsages : Bool) :
    (∃ ranking, IsRanking query (a.matching query kind) ranking ∧ ∀ limit,
      (a.search query kind withUsages limit).totalCount = (a.matching query kind).length ∧
      (a.search query kind withUsages limit).items.map (·.symbol) = ranking.take limit) ∧
    (∀ less more, less ≤ more →
      (a.search query kind withUsages less).items <+: (a.search query kind withUsages more).items ∧
      (a.search query kind withUsages less).totalCount =
        (a.search query kind withUsages more).totalCount) ∧
    ∀ limit ample, (a.matching query kind).length ≤ limit → (a.matching query none).length ≤ ample →
      (a.search query kind withUsages limit).items =
        (a.search query none withUsages ample).items.filter fun h => kind.all (· == h.symbol.kind) := by
  have ranking (kind) : IsRanking query (a.matching query kind) (a.ranked query kind) :=
    isRanking_ranked ascii names
  refine ⟨⟨a.ranked query kind, ranking kind, fun limit => ⟨(ranking kind).perm.length_eq, ?_⟩⟩,
    fun less more le => ⟨?_, rfl⟩, fun limit ample enough room => ?_⟩
  · rw [search, List.map_map]
    exact List.map_id _
  · exact (List.take_prefix_take_left le).map _
  · have whole : (a.ranked query kind).take limit = a.ranked query kind :=
      List.take_of_length_le ((ranking kind).perm.length_eq ▸ enough)
    have every : (a.ranked query none).take ample = a.ranked query none :=
      List.take_of_length_le ((ranking none).perm.length_eq ▸ room)
    rw [search, search, whole, every, ranked_filter ascii names, List.filter_map]
    rfl

/-- A symbol that says nothing but its name, its kind and where it stands. -/
def namedSymbol (name : String) (kind : SymbolKind) (filePath : String) (line : Nat) : SymbolRecord :=
  { name, kind, filePath, line, column := 1, signature := name }

/-- Names with a character that means something in patterns. -/
def searchedAtlas : Atlas :=
  ⟨{ symbols := .ofList [
      ("/p/a.ts", [namedSymbol "get$User" .function "/p/a.ts" 1,
        namedSymbol "$users" .binding "/p/a.ts" 2, namedSymbol "$User" .classType "/p/a.ts" 3]),
      ("/p/b.ts", [namedSymbol "$user" .function "/p/b.ts" 1,
        namedSymbol "user" .function "/p/b.ts" 4])] }, {}, "/p"⟩

/-- Those of its symbols that hold `$user` in some letter case, best first. -/
def searchedRanking : List SymbolRecord :=
  [namedSymbol "$User" .classType "/p/a.ts" 3, namedSymbol "$user" .function "/p/b.ts" 1,
    namedSymbol "$users" .binding "/p/a.ts" 2, namedSymbol "get$User" .function "/p/a.ts" 1]

theorem search_exact_sample : Text.IsAscii "$USER".toList ∧
    (∀ s ∈ searchedAtlas.catalog.allSymbols, Text.IsAscii s.name.toList) ∧
    (searchedAtlas.search "$USER" none false 3).totalCount = 4 ∧
    (searchedAtlas.search "$USER" none false 3).items.map (·.symbol) = searchedRanking.take 3 ∧
    (searchedAtlas.search "$USER" (some .function) false 2).items =
      (searchedAtlas.search "$USER" none false 4).items.filter (·.symbol.kind == .function) := by
  have ascii : Text.IsAscii "$USER".toList := by simp [Text.IsAscii, Char.isAscii]
  have names : ∀ s ∈ searchedAtlas.catalog.allSymbols, Text.IsAscii s.name.toList := by
    unfold Text.IsAscii
    decide +kernel
  obtain ⟨⟨ranking, isRanking, found⟩, _, _⟩ := search_exact searchedAtlas ascii names none false
  obtain ⟨_, _, restricted⟩ := search_exact searchedAtlas ascii names (some .function) false
  refine ⟨ascii, names, ?_, ?_, ?_⟩
  · rw [(found 3).1]
    decide +kernel
  · -- no two of the symbols have one key, so that there is only one ranking
    have distinct : ∀ s ∈ searchedAtlas.matching "$USER" none,
        ∀ u ∈ searchedAtlas.matching "$USER" none,
          s.rankingKey "$USER" = u.rankingKey "$USER" → s = u := by
      decide +kernel
    have sorted : searchedRanking.Pairwise fun s u =>
        s.rankingKey "$USER" ≤ u.rankingKey "$USER" := by
      decide +kernel
    have perm : searchedRanking.Perm (searchedAtlas.matching "$USER" none) := by
      decide +kernel
    have only := List.Perm.eq_of_pairwise (fun s u hs hu less more =>
      distinct s (isRanking.perm.mem_iff.1 hs) u (perm.mem_iff.1 hu) (le_antisymm less more))
      isRanking.ordered sorted (isRanking.perm.trans perm.symm)
    rw [(found 3).2, only]
  · have kinds : (fun h : SearchHit => (some SymbolKind.function).all (· == h.symbol.kind)) =
        (·.symbol.kind == .function) := by
      funext h
      exact Bool.beq_comm
    rw [restricted 2 4 (by decide +kernel) (by decide +kernel), kinds]

end Atlas

end SourceAtlas
