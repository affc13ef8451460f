/-!
The ranges of 64-bit integers, to which numbers in documents, settings and arguments are held.
-/

namespace SourceAtlas

/-- One more than the largest unsigned integer of 64 bits. -/
def unsignedLimit : Nat := 18446744073709551616

/-- One more than the largest signed integer of 64 bits. -/
def signedLimit : Nat := 9223372036854775808

/-- The integer is an unsigned one of 64 bits. -/
def isUnsigned64 (i : Int) : Bool := 0 ≤ i && i < unsignedLimit

/-- The integer is a signed one of 64 bits. -/
def isSigned64 (i : Int) : Bool := -signedLimit ≤ i && i < signedLimit

/-- The signed integer of 64 bits that an integer wraps around to. -/
def wrap64 (i : Int) : Int := Int.bmod i unsignedLimit

theorem isUnsigned64_iff {i : Int} : isUnsigned64 i ↔ 0 ≤ i ∧ i < 18446744073709551616 := by
  rw [isUnsigned64, Bool.and_eq_true, decide_eq_true_eq, decide_eq_true_eq]
  exact Iff.rfl

theorem isSigned64_iff {i : Int} :
    isSigned64 i ↔ -9223372036854775808 ≤ i ∧ i < 9223372036854775808 := by
  rw [isSigned64, Bool.and_eq_true, decide_eq_true_eq, decide_eq_true_eq]
  exact Iff.rfl

/-- A signed integer of 64 bits is its own wrap. -/
theorem wrap64_eq {i : Int} (h : isSigned64 i) : wrap64 i = i := by
  rw [isSigned64_iff] at h
  rw [wrap64, unsignedLimit]
  exact Int.bmod_eq_of_le (by omega) (by omega)

end SourceAtlas
