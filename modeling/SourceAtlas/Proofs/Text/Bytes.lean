/-!
The bytes of a text. They are the bytes of its characters one after the other, texts with the same
bytes are equal, and texts are ordered as their bytes are: the byte order in which maps keep their
keys is the order of the texts.
-/

namespace SourceAtlas.Text

/-! ### Bytes as a list -/

theorem toList_loop (b : ByteArray) (i : Nat) (read : List UInt8) :
    ByteArray.toList.loop b i read = read.reverse ++ b.data.toList.drop i := by
  fun_induction ByteArray.toList.loop b i read with
  | case1 i read inside ih =>
    have next : b.data.toList.drop i = b.get! i :: b.data.toList.drop (i + 1) := by
      rw [List.drop_eq_getElem_cons (by simpa using inside)]
      simp [ByteArray.get!, inside]
    rw [ih, next, List.reverse_cons, List.append_assoc]
    rfl
  | case2 i read outside =>
    have none : b.data.toList.drop i = [] := List.drop_eq_nil_of_le (by simpa using outside)
    rw [none, List.append_nil]

theorem toList_eq_data (b : ByteArray) : b.toList = b.data.toList := by
  rw [ByteArray.toList, toList_loop]
  rfl

/-- A text is known by its bytes. -/
theorem eq_of_bytes {s t : String} (h : s.toUTF8.toList = t.toUTF8.toList) : s = t := by
  rw [toList_eq_data, toList_eq_data] at h
  exact String.toByteArray_inj.1 (ByteArray.ext (Array.toList_inj.1 h))

theorem bytes_eq (s : String) : s.toUTF8.toList = s.toList.flatMap String.utf8EncodeChar := by
  have bytes (cs : List Char) :
      (String.ofList cs).toUTF8.data.toList = cs.flatMap String.utf8EncodeChar := by
    simp [List.utf8Encode]
  have here := bytes s.toList
  rw [String.ofList_toList] at here
  rw [toList_eq_data, here]

/-- Bytes are read as a text if they are the bytes of it. -/
theorem fromUTF8?_eq_some_iff {bytes : ByteArray} {text : String} :
    String.fromUTF8? bytes = some text ↔ text.toUTF8 = bytes := by
  constructor
  · intro h
    rw [String.fromUTF8?] at h
    split at h
    · obtain rfl := Option.some.inj h
      rfl
    · cases h
  · rintro rfl
    have valid : text.toUTF8.IsValidUTF8 := text.isValidUTF8
    rw [String.fromUTF8?, dif_pos valid]
    rfl

/-! ### Order -/

theorem toNat_lt (c : Char) : c.val.toNat < 0x110000 := by
  rcases c.valid with low | ⟨_, high⟩
  · exact Nat.lt_trans low (by decide)
  · exact high

theorem cons_ofNat_lt {a b : Nat} {x y : List UInt8} (byte : b < 256) (h : a < b ∨ a = b ∧ x < y) :
    UInt8.ofNat a :: x < UInt8.ofNat b :: y := by
  rw [List.cons_lt_cons_iff]
  rcases h with less | ⟨rfl, later⟩
  · refine .inl ?_
    rw [UInt8.lt_iff_toNat_lt, UInt8.toNat_ofNat', UInt8.toNat_ofNat']
    omega
  · exact .inr ⟨rfl, later⟩

/-- Of two characters the smaller one has the smaller bytes, whatever follows them. -/
theorem utf8EncodeChar_append_lt {c d : Char} (h : c < d) (x y : List UInt8) :
    String.utf8EncodeChar c ++ x < String.utf8EncodeChar d ++ y := by
  have lt : c.val.toNat < d.val.toNat := h
  have bound := toNat_lt d
  rw [String.utf8EncodeChar, String.utf8EncodeChar]
  generalize c.val.toNat = v at lt
  generalize d.val.toNat = u at lt bound
  have first : ∀ {a b : Nat} {x y : List UInt8}, b < 256 → a < b →
      UInt8.ofNat a :: x < UInt8.ofNat b :: y := fun byte less => cons_ofNat_lt byte (.inl less)
  have low : v / 64 < u / 64 ∨ v / 64 = u / 64 ∧ v % 64 < u % 64 := by omega
  have middle : v / 4096 < u / 4096 ∨ v / 4096 = u / 4096 ∧ v / 64 % 64 ≤ u / 64 % 64 := by omega
  -- the character with more bytes has the greater first byte; if both have as many, the first bytes
  -- that differ decide
  by_cases one : v ≤ 0x7f
  · simp only [if_pos one, List.cons_append]
    split
    · exact first (by omega) (by omega)
    · split
      · exact first (by omega) (by omega)
      · split <;> exact first (by omega) (by omega)
  · simp only [if_neg one, if_neg (show ¬u ≤ 0x7f by omega)]
    by_cases two : v ≤ 0x7ff
    · simp only [if_pos two, List.cons_append]
      split
      · refine cons_ofNat_lt (by omega) (low.imp (fun _ => by omega) fun ⟨_, _⟩ => ?_)
        exact ⟨by omega, first (by omega) (by omega)⟩
      · split <;> exact first (by omega) (by omega)
    · simp only [if_neg two, if_neg (show ¬u ≤ 0x7ff by omega)]
      by_cases three : v ≤ 0xffff
      · simp only [if_pos three, List.cons_append]
        split
        · refine cons_ofNat_lt (by omega) (middle.imp (fun _ => by omega) fun ⟨_, _⟩ => ?_)
          refine ⟨by omega, cons_ofNat_lt (by omega) ?_⟩
          refine low.imp (fun _ => by omega) fun ⟨_, _⟩ => ?_
          exact ⟨by omega, first (by omega) (by omega)⟩
        · exact first (by omega) (by omega)
      · simp only [if_neg three, if_neg (show ¬u ≤ 0xffff by omega), List.cons_append]
        have high : v / 262144 < u / 262144 ∨
            v / 262144 = u / 262144 ∧ v / 4096 % 64 ≤ u / 4096 % 64 := by omega
        refine cons_ofNat_lt (by omega) (high.imp (fun _ => by omega) fun ⟨_, _⟩ => ?_)
        refine ⟨by omega, cons_ofNat_lt (by omega) ?_⟩
        refine middle.imp (fun _ => by omega) fun ⟨_, _⟩ => ?_
        refine ⟨by omega, cons_ofNat_lt (by omega) ?_⟩
        refine low.imp (fun _ => by omega) fun ⟨_, _⟩ => ?_
        exact ⟨by omega, first (by omega) (by omega)⟩

theorem flatMap_utf8EncodeChar_lt {cs ds : List Char} (h : cs < ds) :
    cs.flatMap String.utf8EncodeChar < ds.flatMap String.utf8EncodeChar := by
  induction cs generalizing ds with
  | nil =>
    cases ds with
    | nil => exact absurd h (List.lt_irrefl _)
    | cons d ds =>
      cases bytes : String.utf8EncodeChar d with
      | nil => exact absurd bytes String.utf8EncodeChar_ne_nil
      | cons b bs =>
        rw [List.flatMap_cons, bytes]
        exact List.nil_lt_cons ..
  | cons c cs ih =>
    cases ds with
    | nil => exact absurd h (List.not_lt_nil _)
    | cons d ds =>
      rw [List.flatMap_cons, List.flatMap_cons]
      rcases List.cons_lt_cons_iff.1 h with less | ⟨rfl, later⟩
      · exact utf8EncodeChar_append_lt less _ _
      · exact List.append_left_lt (ih later)

/-- The smaller text has the smaller bytes. -/
theorem bytes_lt {s t : String} (h : s < t) : s.toUTF8.toList < t.toUTF8.toList := by
  rw [bytes_eq, bytes_eq]
  exact flatMap_utf8EncodeChar_lt h

end SourceAtlas.Text
