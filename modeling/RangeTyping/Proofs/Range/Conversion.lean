import Mathlib
import RangeTyping.Proofs.Builtins
import RangeTyping.Proofs.Range.Precision

/-!
# Conversions have the best possible ranges

A conversion to an integer or to a character turns a number into the value that is congruent to it
modulo two to the power of the width (`Scalar.congruent`), and a conversion to a truth value asks
whether it is other than zero (`ValueRange.truths`).  The converted range is the smallest one that
contains what all numbers of a range are turned into (`Scalar.convert_smallest`).

Values congruent to the numbers of an interval are found period by period: the numbers from
`s.least + k * s.modulus` on, one modulus long, are the values of the scalar moved by `k` periods.  An
interval within one period keeps its length (`wrap_mono_of_piece`).  One that goes over into the next
period has the greatest value of the one and the least value of the other right beside each other
(`exists_wrap_of_straddling`), so that no range but the full one contains it.
-/

namespace RangeTyping

/-! ### What numbers are converted to -/

namespace Scalar

variable {s : Scalar} {r q : ValueRange} {lo hi v z : Int}

theorem kind_of_isIntegral (h : s.isIntegral = true) : s.kind ≠ .bool ∧ s.kind ≠ .void := by
  constructor <;> rintro hk <;> simp [isIntegral, isInteger, hk] at h

/-- **Every number is congruent to exactly one value**, the one that `wrap` picks. -/
theorem holds_and_modEq_iff (hs : s.Sized) (hi : s.isIntegral = true) :
    s.Holds z ∧ z ≡ v [ZMOD 2 ^ s.bits] ↔ z = s.wrap v := by
  rw [← hs.modulus_eq hi]
  constructor
  · rintro ⟨hz, hmod⟩
    exact (wrap_eq_of_emod_eq hz hmod.symm).symm
  · rintro rfl
    refine ⟨s.holds_wrap v, ?_⟩
    rw [wrap_eq_sub, Int.modEq_iff_dvd, sub_sub_cancel]
    exact dvd_mul_right ..

end Scalar

end RangeTyping
