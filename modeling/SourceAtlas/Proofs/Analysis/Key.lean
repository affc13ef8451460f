import SourceAtlas.Proofs.Analysis.Outcome
/-!
The keys of subjects. A key begins with sixteen digits of a hash, which the name of its file keeps:
subjects with different digits have different files.
-/

namespace SourceAtlas

namespace Blake3

theorem size_hashWords (bytes : List UInt8) : (hashWords bytes).size = 8 := by
  simp [hashWords, Block.compress]

theorem length_flatMap_hexByte (ws : List UInt32) :
    (ws.flatMap fun w => [(0 : UInt32), 8, 16, 24].flatMap fun shift =>
      hexByte ((w >>> shift).toNat % 256)).length = 8 * ws.length := by
  induction ws with
  | nil => rfl
  | cons w ws ih =>
    rw [List.flatMap_cons, List.length_append, ih, List.length_cons]
    simp [hexByte]
    omega

theorem length_hash (bytes : List UInt8) : (hash bytes).length = 64 := by
  rw [hash, length_flatMap_hexByte, Array.length_toList, size_hashWords]

theorem digitChar_isAlphanum : ∀ n < 16, (Nat.digitChar n).isAlphanum := by decide

theorem mem_hash {bytes : List UInt8} {c : Char} (h : c ∈ hash bytes) : c.isAlphanum := by
  obtain ⟨w, _, h⟩ := List.mem_flatMap.1 h
  obtain ⟨shift, _, h⟩ := List.mem_flatMap.1 h
  simp only [hexByte, List.mem_cons, List.not_mem_nil, or_false] at h
  rcases h with rfl | rfl
  · exact digitChar_isAlphanum _ (by omega)
  · exact digitChar_isAlphanum _ (by omega)

end Blake3

namespace Cache

/-- Letters and digits stay as they are. -/
theorem sanitize_append (inRun : Bool) (rest : List Char) : ∀ {front : List Char}, front ≠ [] →
    (∀ c ∈ front, c.isAlphanum) → sanitize inRun (front ++ rest) = front ++ sanitize false rest
  | [c], _, letters => by simp [sanitize, letters c List.mem_cons_self]
  | c :: d :: front, _, letters => by
    rw [List.cons_append, sanitize, if_pos (letters c List.mem_cons_self),
      sanitize_append false rest (by simp) fun e he => letters e (List.mem_cons_of_mem _ he)]
    rfl

theorem stem_of_fileName {k l : String} (h : fileName k = fileName l) : stem k = stem l := by
  have chars := congrArg String.toList h
  rw [fileName_toList, fileName_toList] at chars
  exact List.append_cancel_right chars

end Cache

namespace Subject

/-- The digits of a subject's hash that are in its key. -/
def digest (s : Subject) : List Char :=
  (Blake3.hash (analysisText s.root s.included s.excluded).toUTF8.toList).take 16

theorem length_digest (s : Subject) : s.digest.length = 16 := by
  rw [digest, List.length_take, Blake3.length_hash]
  rfl

theorem key_toList (s : Subject) :
    s.key.toList = "analysis".toList ++ '_' :: (s.digest ++ '_' :: s.root.toList) := by
  simp [key, analysisKey, digest]

/-- The name of a subject's file begins with its digest. -/
theorem take_stem_key (s : Subject) :
    (Cache.stem s.key).take 25 = "analysis_".toList ++ s.digest := by
  have letters : ∀ c ∈ s.digest, c.isAlphanum := fun c hc => Blake3.mem_hash (List.mem_of_mem_take hc)
  have filled : s.digest ≠ [] := fun empty => by
    have length := s.length_digest
    rw [empty] at length
    cases length
  have word : "analysis".toList.all Char.isAlphanum := by decide
  have clean : Cache.sanitize false s.key.toList =
      ("analysis_".toList ++ s.digest) ++ Cache.sanitize false ('_' :: s.root.toList) := by
    rw [key_toList, Cache.sanitize_append false _ (by decide) (List.all_eq_true.1 word), Cache.sanitize,
      if_neg (by decide), if_neg (by decide), Cache.sanitize_append true _ filled letters]
    simp
  have length : ("analysis_".toList ++ s.digest).length = 25 := by
    rw [List.length_append, length_digest]
    rfl
  -- the digest ends long before the stem is cut off
  rw [Cache.stem, clean, List.take_take, Cache.maxStem, ← length]
  exact List.take_left' (by rw [length]; rfl)

/-- Subjects that share a file share their digest. -/
theorem digest_of_fileName {s r : Subject} (h : Cache.fileName s.key = Cache.fileName r.key) :
    s.digest = r.digest := by
  have stems := congrArg (List.take 25) (Cache.stem_of_fileName h)
  rw [take_stem_key, take_stem_key] at stems
  exact List.append_cancel_left stems

end Subject

end SourceAtlas
