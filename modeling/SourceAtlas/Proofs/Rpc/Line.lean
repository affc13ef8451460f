import SourceAtlas.Proofs.Path.Steps
import SourceAtlas.Proofs.Text.Bytes
import SourceAtlas.Proofs.Text.Trim
import SourceAtlas.Rpc.Line
/-!
The lines of an input that is a text. Only the line feed is encoded with a byte 10, so the bytes are
cut where the text is, and each line of bytes has the text of a line.
-/

namespace SourceAtlas

namespace Text

/-! ### Ends of lines -/

theorem dropLineEnd_append (line : List Char) : dropLineEnd (line ++ ['\n']) = dropReturn line := by
  have ends : stripSuffix? ['\n'] (line ++ ['\n']) = some line := stripSuffix?_eq_some_iff.2 rfl
  rw [dropLineEnd, ends]

theorem dropLineEnd_of_not_mem {line : List Char} (h : '\n' ∉ line) : dropLineEnd line = line := by
  rw [dropLineEnd]
  cases ends : stripSuffix? ['\n'] line with
  | none => rfl
  | some front => exact absurd (by simp [stripSuffix?_eq_some_iff.1 ends]) h

/-- Only the line feed has its byte. -/
theorem lineFeed_not_mem_encode {c : Char} (h : c ≠ '\n') : (10 : UInt8) ∉ String.utf8EncodeChar c := by
  have other : c.val.toNat ≠ 10 := fun same => h (Char.ext (UInt32.toNat_inj.1 same))
  have byte (n : Nat) : (10 : UInt8) = UInt8.ofNat n ↔ n % 256 = 10 := by
    rw [← UInt8.toNat_inj, UInt8.toNat_ofNat', eq_comm]
    rfl
  rw [String.utf8EncodeChar]
  split
  · simp only [List.mem_singleton, byte]
    omega
  · split
    · simp only [List.mem_cons, List.not_mem_nil, or_false, byte]
      omega
    · split
      · simp only [List.mem_cons, List.not_mem_nil, or_false, byte]
        omega
      · simp only [List.mem_cons, List.not_mem_nil, or_false, byte]
        omega

theorem lineFeed_not_mem_flatMap {line : List Char} (h : '\n' ∉ line) :
    (10 : UInt8) ∉ line.flatMap String.utf8EncodeChar := by
  rw [List.mem_flatMap]
  rintro ⟨c, mem, byte⟩
  exact lineFeed_not_mem_encode (fun same => h (same ▸ mem)) byte

end Text

namespace Rpc

/-! ### Cutting -/

section Cut

variable [DecidableEq α] {stop : α} {piece : List α}

theorem cutBehind_append (h : stop ∉ piece) (rest : List α) :
    cutBehind stop (piece ++ stop :: rest) = (piece ++ [stop]) :: cutBehind stop rest := by
  induction piece with
  | nil => rw [List.nil_append, cutBehind, if_pos rfl, List.nil_append]
  | cons a piece ih =>
    obtain ⟨other, later⟩ := not_or.1 (mt List.mem_cons.2 h)
    rw [List.cons_append, cutBehind, if_neg (Ne.symm other), ih later]
    rfl

theorem cutBehind_of_not_mem (h : stop ∉ piece) (ne : piece ≠ []) :
    cutBehind stop piece = [piece] := by
  induction piece with
  | nil => exact absurd rfl ne
  | cons a piece ih =>
    obtain ⟨other, later⟩ := not_or.1 (mt List.mem_cons.2 h)
    rw [cutBehind, if_neg (Ne.symm other)]
    cases piece with
    | nil => rfl
    | cons b piece => rw [ih later (List.cons_ne_nil _ _)]

end Cut

/-! ### Texts -/

theorem lineText?_toUTF8 (line : String) :
    lineText? line.toUTF8 = some (Text.dropLineEnd line.toList) := by
  rw [lineText?, Text.fromUTF8?_eq_some_iff.2 rfl, Option.map_some]

theorem lineText?_encode (line : List Char) :
    lineText? (line.flatMap String.utf8EncodeChar).toByteArray = some (Text.dropLineEnd line) := by
  have bytes : (String.ofList line).toUTF8 = (line.flatMap String.utf8EncodeChar).toByteArray := by
    simp [List.utf8Encode]
  rw [← bytes, lineText?_toUTF8, String.toList_ofList]

/-- The lines of pieces between line feeds have the pieces as their texts. -/
theorem texts_join {pieces : List (List Char)} (ne : pieces ≠ [])
    (plain : ∀ piece ∈ pieces, '\n' ∉ piece) :
    ((cutBehind 10 ((Text.join '\n' pieces).flatMap String.utf8EncodeChar)).map fun line =>
        lineText? line.toByteArray) =
      (pieces.dropLast.map Text.dropReturn ++
        if (pieces.getLast?.getD []).isEmpty then [] else [pieces.getLast?.getD []]).map some := by
  induction pieces with
  | nil => exact absurd rfl ne
  | cons piece pieces ih =>
    obtain ⟨first, later⟩ := List.forall_mem_cons.1 plain
    have free := Text.lineFeed_not_mem_flatMap first
    cases pieces with
    | nil =>
      cases piece with
      | nil => rfl
      | cons c piece =>
        have filled : (c :: piece).flatMap String.utf8EncodeChar ≠ [] := by
          simp [String.utf8EncodeChar_ne_nil]
        rw [Text.join, cutBehind_of_not_mem free filled, List.map_singleton, lineText?_encode,
          Text.dropLineEnd_of_not_mem first]
        rfl
    | cons next pieces =>
      have lineFeed : String.utf8EncodeChar '\n' = [10] := by decide
      have ended := lineText?_encode (piece ++ ['\n'])
      rw [List.flatMap_append, List.flatMap_singleton, lineFeed, Text.dropLineEnd_append] at ended
      rw [Text.join_cons_cons, List.flatMap_append, List.flatMap_cons, lineFeed, List.singleton_append,
        cutBehind_append free, List.map_cons, ended, ih (List.cons_ne_nil _ _) later]
      simp

/-- An input that is a text has the lines of this text. -/
theorem texts_linesOf (text : String) :
    (linesOf text.toUTF8).map lineText? = (Text.lines text.toList).map some := by
  have plain : ∀ piece ∈ Text.split '\n' text.toList, '\n' ∉ piece := fun _ mem =>
    Text.not_mem_of_mem_split mem
  have texts := texts_join (Text.split_ne_nil '\n' text.toList) plain
  rw [Text.join_split, ← Text.bytes_eq, Text.toList_eq_data] at texts
  rw [linesOf, List.map_map]
  exact texts

end Rpc

end SourceAtlas
