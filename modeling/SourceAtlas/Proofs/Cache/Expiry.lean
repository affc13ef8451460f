import SourceAtlas.Proofs.Cache.Sharing
/-!
Expiry at the limits of 64-bit numbers. An entry has expired if more time than its time to live has
passed since it was stored. The comparison is made in signed numbers: a time to live that is too large
for them and a span that leaves them are each off by a whole period. What the two periods leave
between span and time to live tells when the comparison is right, and with it which look-ups drop an
entry too early.
-/

namespace SourceAtlas

/-! ### Wrapping around -/

theorem signedLimit_cast : (signedLimit : Int) = 9223372036854775808 := rfl

theorem unsignedLimit_cast : (unsignedLimit : Int) = 18446744073709551616 := rfl

/-- A natural number that is a signed one is its own wrap. -/
theorem wrap64_natCast {n : Nat} (small : n < signedLimit) : wrap64 n = n := by
  refine wrap64_eq (isSigned64_iff.2 ⟨by omega, ?_⟩)
  rw [← signedLimit_cast]
  exact Int.ofNat_lt.2 small

/-- A number above the signed ones comes round from below, -/
theorem wrap64_of_le {i : Int} (large : signedLimit ≤ i) (near : i < unsignedLimit) :
    wrap64 i = i - unsignedLimit := by
  rw [signedLimit_cast] at large
  rw [unsignedLimit_cast] at near ⊢
  rw [wrap64, ← Int.sub_bmod_right, unsignedLimit]
  exact Int.bmod_eq_of_le (by omega) (by omega)

/-- and a number below them from above. -/
theorem wrap64_of_lt {i : Int} (small : i < -signedLimit) (near : -unsignedLimit < i) :
    wrap64 i = i + unsignedLimit := by
  rw [signedLimit_cast] at small
  rw [unsignedLimit_cast] at near ⊢
  rw [wrap64, ← Int.add_bmod_right, unsignedLimit]
  exact Int.bmod_eq_of_le (by omega) (by omega)

theorem isSigned64_wrap64 (i : Int) : isSigned64 (wrap64 i) := by
  rw [isSigned64_iff, wrap64, unsignedLimit]
  have low : -(18446744073709551616 / 2) ≤ i.bmod 18446744073709551616 := Int.le_bmod (by decide)
  have high : i.bmod 18446744073709551616 < (18446744073709551616 + 1) / 2 := Int.bmod_lt (by decide)
  omega

/-- How many periods a span comes to lie above a time to live when both are wrapped around. -/
def laps (span ttl : Int) : Int :=
  (if signedLimit ≤ ttl then 1 else 0) + (if span < -signedLimit then 1 else 0) -
    if signedLimit ≤ span then 1 else 0

/-- The comparison of a time to live with a span, both wrapped around. -/
theorem wrap64_lt_wrap64 {ttl : Nat} {span : Int} (sized : isUnsigned64 ttl)
    (low : -unsignedLimit < span) (high : span < unsignedLimit) :
    wrap64 ttl < wrap64 span ↔ (ttl : Int) < span + unsignedLimit * laps span ttl := by
  rw [isUnsigned64_iff] at sized
  have wrappedTtl : wrap64 ttl = ttl - unsignedLimit * if (signedLimit : Int) ≤ ttl then 1 else 0 := by
    split
    · rename_i large
      rw [wrap64_of_le large sized.2, Int.mul_one]
    · rename_i fits
      rw [wrap64_natCast (by omega)]
      omega
  have wrappedSpan : wrap64 span = span + unsignedLimit * (if span < -signedLimit then 1 else 0) -
      unsignedLimit * if signedLimit ≤ span then 1 else 0 := by
    rw [signedLimit_cast, unsignedLimit_cast] at *
    by_cases small : span < -9223372036854775808
    · rw [if_pos small, if_neg (by omega), wrap64_of_lt small low, unsignedLimit_cast]
      omega
    · rw [if_neg small]
      by_cases large : (9223372036854775808 : Int) ≤ span
      · rw [if_pos large, wrap64_of_le large high, unsignedLimit_cast]
        omega
      · rw [if_neg large, wrap64_eq (isSigned64_iff.2 ⟨by omega, by omega⟩)]
        omega
  rw [wrappedTtl, wrappedSpan, laps, unsignedLimit_cast]
  omega

/-- The difference of two signed integers of 64 bits is less than a period. -/
theorem span_bounds {i j : Int} (left : isSigned64 i) (right : isSigned64 j) :
    -unsignedLimit < i - j ∧ i - j < unsignedLimit := by
  rw [isSigned64_iff] at left right
  rw [unsignedLimit_cast]
  omega

namespace Json

theorem isSigned64_of_int? {j : Json} {i : Int} (read : j.int? = some i) : isSigned64 i := by
  unfold int? at read
  split at read
  · split at read
    · rename_i fits
      exact Option.some.inj read ▸ fits
    · cases read
  · cases read

theorem isUnsigned64_of_nat? {j : Json} {n : Nat} (read : j.nat? = some n) : isUnsigned64 n := by
  unfold nat? at read
  split at read
  · split at read
    · rename_i fits
      rw [← Option.some.inj read, Int.toNat_of_nonneg (isUnsigned64_iff.1 fits).1]
      exact fits
    · cases read
  · cases read

/-- What an unset field may hold is read from a document. -/
theorem exists_of_unsettable {fields : List (String × Json)} {name : String} {read : Json → Option α}
    {a : α} (found : unsettable fields name read = some (some a)) : ∃ j, read j = some a := by
  unfold unsettable at found
  split at found
  · cases found
  · cases found
  · obtain ⟨b, written, same⟩ := Option.map_eq_some_iff.1 found
    exact ⟨_, Option.some.inj same ▸ written⟩

end Json

namespace CacheEntry

variable {e : CacheEntry} {now : Int}

/-- The numbers of the entry are integers of 64 bits. -/
structure Sized (e : CacheEntry) : Prop where
  timestamp : isSigned64 e.timestamp
  ttl : ∀ ttl ∈ e.ttl, isUnsigned64 ttl

/-- More time has passed since the entry was stored than it has to live. -/
def Elapsed (e : CacheEntry) (now : Int) : Prop := ∃ ttl ∈ e.ttl, (ttl : Int) < now - e.timestamp

/-- Wrapping around does no harm to the comparison: the two periods cancel out, or there is one too
many and the time to live is so large that the span stays below it all the same. -/
def Faithful (e : CacheEntry) (now : Int) : Prop :=
  ∀ ttl ∈ e.ttl, laps (now - e.timestamp) ttl = 0 ∨
    laps (now - e.timestamp) ttl = 1 ∧ now - e.timestamp + unsignedLimit ≤ ttl

theorem isExpired_of_ttl {ttl : Nat} (lifetime : e.ttl = some ttl) :
    e.isExpired now ↔ wrap64 ttl < wrap64 (now - e.timestamp) := by
  rw [isExpired, lifetime]
  exact decide_eq_true_iff

/-- An entry without a time to live never expires. -/
theorem isExpired_of_ttl_none (lifetime : e.ttl = none) : e.isExpired now = false := by
  rw [isExpired, lifetime]

/-- What the comparison says: the span is off by some periods. -/
theorem isExpired_iff (sized : e.Sized) (clock : isSigned64 now) : e.isExpired now ↔
    ∃ ttl ∈ e.ttl, (ttl : Int) < now - e.timestamp + unsignedLimit * laps (now - e.timestamp) ttl := by
  obtain ⟨low, high⟩ := span_bounds clock sized.timestamp
  cases lifetime : e.ttl with
  | none => simp [isExpired_of_ttl_none lifetime]
  | some ttl =>
    rw [isExpired_of_ttl lifetime, wrap64_lt_wrap64 (sized.ttl ttl lifetime) low high]
    simp

/-- Expiry is what it should be where wrapping around does no harm, and nowhere else. -/
theorem isExpired_iff_elapsed (sized : e.Sized) (clock : isSigned64 now) :
    (e.isExpired now ↔ e.Elapsed now) ↔ e.Faithful now := by
  obtain ⟨low, high⟩ := span_bounds clock sized.timestamp
  rw [isExpired_iff sized clock, Elapsed, Faithful]
  cases lifetime : e.ttl with
  | none => simp
  | some ttl =>
    have small := isUnsigned64_iff.1 (sized.ttl ttl lifetime)
    simp only [Option.mem_def, Option.some.injEq, exists_eq_left', forall_eq', laps]
    rw [signedLimit_cast, unsignedLimit_cast] at *
    split_ifs <;> omega

/-- So it is for a time to live and a span that are both signed numbers. -/
theorem faithful_of_signed (small : ∀ ttl ∈ e.ttl, ttl < signedLimit)
    (span : isSigned64 (now - e.timestamp)) : e.Faithful now := by
  intro ttl lifetime
  have bounded := small ttl lifetime
  rw [isSigned64_iff, ← signedLimit_cast] at span
  refine .inl ?_
  rw [laps, if_neg (by omega), if_neg (by omega), if_neg (by omega)]
  rfl

/-- A longer life never ends before a shorter one exactly if both are signed numbers or neither is:
otherwise the longer one ends first when the shorter one has just run out. -/
theorem isExpired_antitone_iff {ttl longer : Nat} (le : ttl ≤ longer) (sized : isUnsigned64 longer)
    (data : Json) (timestamp : Int) :
    (∀ now, isSigned64 now → (⟨data, timestamp, some longer⟩ : CacheEntry).isExpired now →
      (⟨data, timestamp, some ttl⟩ : CacheEntry).isExpired now) ↔
      (longer < signedLimit ∨ signedLimit ≤ ttl) := by
  have order : ∀ now, ((⟨data, timestamp, some longer⟩ : CacheEntry).isExpired now →
      (⟨data, timestamp, some ttl⟩ : CacheEntry).isExpired now) ↔
      (wrap64 longer < wrap64 (now - timestamp) → wrap64 ttl < wrap64 (now - timestamp)) := by
    intro now
    rw [isExpired_of_ttl rfl, isExpired_of_ttl rfl]
  simp only [order]
  rw [isUnsigned64_iff] at sized
  constructor
  · intro antitone
    by_contra apart
    obtain ⟨large, small⟩ := not_or.1 apart
    -- the moment at which the shorter life has just run out
    have span : wrap64 (wrap64 (timestamp + ttl) - timestamp) = wrap64 ttl := by
      rw [Int.add_comm, wrap64, wrap64, Int.bmod_sub_bmod, Int.add_sub_cancel, wrap64]
    have ended := antitone (wrap64 (timestamp + ttl)) (isSigned64_wrap64 _)
    rw [span] at ended
    refine Int.lt_irrefl _ (ended ?_)
    rw [wrap64_of_le (by omega) sized.2, wrap64_natCast (by omega), unsignedLimit_cast]
    omega
  · rintro fits now - ended
    refine Int.lt_of_le_of_lt ?_ ended
    rcases fits with small | large
    · rw [wrap64_natCast (by omega), wrap64_natCast small]
      omega
    · have bounded : (ttl : Int) < unsignedLimit := Int.lt_of_le_of_lt (Int.ofNat_le.2 le) sized.2
      rw [wrap64_of_le (by omega) sized.2, wrap64_of_le (by omega) bounded]
      omega

/-- The numbers in a file are integers of 64 bits. -/
theorem sized_of_ofText? {text : String} (read : ofText? text = some e) : e.Sized := by
  simp only [ofText?, Option.bind_eq_bind, Option.bind_eq_some_iff, Option.pure_def] at read
  obtain ⟨_, _, fields, _, data, _, timestamp, stamped, ttl, lifetime, same⟩ := read
  obtain rfl := Option.some.inj same
  obtain ⟨written, _, stamp⟩ := Option.bind_eq_some_iff.1 stamped
  refine ⟨Json.isSigned64_of_int? stamp, fun n set => ?_⟩
  obtain ⟨number, limit⟩ := Json.exists_of_unsettable (lifetime.trans (congrArg some set))
  exact Json.isUnsigned64_of_nat? limit

end CacheEntry

namespace Cache

variable {c : Cache} {t : FileTree} {now : Int} {key : String} {e : CacheEntry}

/-- A look-up answers from the entry and keeps it: the tree is as it was, and memory has the entry. -/
structure Spares (c : Cache) (t : FileTree) (now : Int) (key : String) (e : CacheEntry) : Prop where
  answer : (c.get t now key).1 = some e.data
  tree : (c.get t now key).2.2 = t
  memory : (c.get t now key).2.1.memory.get? key = some e

theorem spares_iff (found : c.deciding? t key = some e) :
    c.Spares t now key e ↔ e.isExpired now = false := by
  rw [deciding?] at found
  constructor
  · intro spared
    rcases c.getAmid_cases t t now key with
      ⟨nothing, _, _⟩ | ⟨d, there, expired, answer, _⟩ | ⟨d, there, living, _, _⟩
    · cases (found.symm.trans nothing)
    · rw [getAmid_self, spared.answer] at answer
      cases answer
    · obtain rfl := Option.some.inj (found.symm.trans there)
      exact living
  · intro living
    cases copy : c.memory.get? key with
    | some d =>
      rw [copy] at found
      obtain rfl := Option.some.inj found
      have got := get_of_memory (t := t) copy living
      exact ⟨by rw [got], by rw [got], by rw [got, copy]⟩
    | none =>
      rw [copy, Option.none_or] at found
      have got : c.get t now key = (some e.data, { c with memory := c.memory.insert key e }, t) := by
        rw [← getAmid_self, getAmid]
        simp only [copy, found, living, Bool.false_eq_true, if_false]
      exact ⟨by rw [got], by rw [got], by rw [got, TextMap.get?_insert, if_pos rfl]⟩

/-- Files hold entries whose numbers are integers of 64 bits. -/
theorem sized_of_deciding? (sized : ∀ e, c.memory.get? key = some e → e.Sized)
    (found : c.deciding? t key = some e) : e.Sized := by
  rw [deciding?, Option.or_eq_some_iff] at found
  rcases found with copy | ⟨_, filed⟩
  · exact sized e copy
  · obtain ⟨text, _, read⟩ := Option.bind_eq_some_iff.1 filed
    exact CacheEntry.sized_of_ofText? read

/-- Whatever 64-bit numbers the clock, the timestamp and the time to live are: an entry has expired
when the span, off by some periods, is above the time to live. That is when its time has elapsed, where
wrapping around does no harm, and only there. Of two times to live the longer never ends first exactly
if both are signed numbers or neither is. And a look-up spares an entry whose time has not elapsed, be
it in memory or in a file, exactly where wrapping around does no harm. -/
theorem expiry_at_the_limits {now : Int} (clock : isSigned64 now) :
    (∀ e : CacheEntry, e.Sized →
      (e.isExpired now ↔ ∃ ttl ∈ e.ttl,
        (ttl : Int) < now - e.timestamp + unsignedLimit * laps (now - e.timestamp) ttl) ∧
      ((e.isExpired now ↔ e.Elapsed now) ↔ e.Faithful now)) ∧
    (∀ data timestamp (ttl longer : Nat), ttl ≤ longer → isUnsigned64 longer →
      ((∀ now, isSigned64 now → (⟨data, timestamp, some longer⟩ : CacheEntry).isExpired now →
        (⟨data, timestamp, some ttl⟩ : CacheEntry).isExpired now) ↔
        (longer < signedLimit ∨ signedLimit ≤ ttl))) ∧
    ∀ (c : Cache) t key e, (∀ d, c.memory.get? key = some d → d.Sized) →
      c.deciding? t key = some e → ¬e.Elapsed now → (c.Spares t now key e ↔ e.Faithful now) := by
  refine ⟨fun e sized => ⟨CacheEntry.isExpired_iff sized clock,
      CacheEntry.isExpired_iff_elapsed sized clock⟩,
    fun data timestamp ttl longer le sized => CacheEntry.isExpired_antitone_iff le sized data timestamp,
    fun c t key e memory found young => ?_⟩
  rw [spares_iff found, ← CacheEntry.isExpired_iff_elapsed (sized_of_deciding? memory found) clock]
  simp [young]

/-- A cache that holds one entry with the given time to live, stored at the start of time. -/
def holding (ttl : Nat) : Cache := ⟨['/', 'c'], TextMap.empty.insert "k" ⟨.nat 1, 0, some ttl⟩⟩

theorem deciding?_holding (ttl : Nat) (t : FileTree) :
    (holding ttl).deciding? t "k" = some ⟨.nat 1, 0, some ttl⟩ := by
  simp [holding, deciding?]

/-- An entry that lives for ten milliseconds is spared after five. -/
theorem expiry_at_the_limits_young :
    isSigned64 5 ∧ (holding 10).Spares bareTree 5 "k" ⟨.nat 1, 0, some 10⟩ := by
  have clock : isSigned64 5 := by decide
  refine ⟨clock, ((expiry_at_the_limits clock).2.2 (holding 10) bareTree "k"
    ⟨.nat 1, 0, some 10⟩ ?_ (deciding?_holding 10 bareTree) ?_).2 ?_⟩
  · intro d found
    simp only [holding, TextMap.get?_insert, if_true, Option.some.injEq] at found
    subst found
    exact ⟨by decide, by simp [isUnsigned64_iff]⟩
  · simp [CacheEntry.Elapsed]
  · exact CacheEntry.faithful_of_signed (by simp [signedLimit]) (by decide)

/-- The longest time to live is over at once, and the entry is dropped. -/
theorem longest_life_expires :
    let e : CacheEntry := ⟨.nat 1, 0, some 18446744073709551615⟩
    e.Sized ∧ ¬e.Elapsed 0 ∧ e.isExpired 0 ∧
      ((holding 18446744073709551615).get bareTree 0 "k").1 = none := by
  have expired : (⟨.nat 1, 0, some 18446744073709551615⟩ : CacheEntry).isExpired 0 := by decide
  have copy : (holding 18446744073709551615).memory.get? "k" =
      some ⟨.nat 1, 0, some 18446744073709551615⟩ := by simp [holding]
  refine ⟨⟨by decide, by simp [isUnsigned64_iff]⟩, by simp [CacheEntry.Elapsed], expired, ?_⟩
  rw [get_of_memory_expired copy expired]

end Cache

end SourceAtlas
