import Mathlib
import RangeTyping.Range.Arithmetic
import RangeTyping.Proofs.Outcome

/-!
# The bounds of a scalar

A scalar of one to eight bytes (`Scalar.Sized`) has the bounds its width gives it, and they are
storable in a range of its representation (`Sized.representable`).  So `Scalar.rangeOf` keeps the
bounds it is given, as long as they are in order and lie in the scalar: `rangeOf_of_le` computes it,
and `rangeOf_ok` reads a computed range back.

`Scalar.wrap` picks the value of the scalar that is congruent modulo the number of values
(`wrap_emod_eq`), which for integers and characters is `2 ^ bits` (`Sized.modulus_eq`).
-/

namespace RangeTyping.Scalar

/-! ### Widths -/

/-- The scalar has one to eight bytes. -/
def Sized (s : Scalar) : Prop := 1 ≤ s.size ∧ s.size ≤ 8

/-- The integer `v` is a value of the scalar. -/
def Holds (s : Scalar) (v : Int) : Prop := s.least ≤ v ∧ v ≤ s.greatest

instance (s : Scalar) (v : Int) : Decidable (s.Holds v) := inferInstanceAs (Decidable (_ ∧ _))

variable {s : Scalar}

theorem bitPatterns_eq (k : Nat) : bitPatterns k = 2 ^ k := rfl

theorem Sized.bits_eq (h : s.Sized) : s.bits = 8 * s.size := by
  obtain ⟨h1, h8⟩ := h
  unfold bits
  omega

theorem Sized.rangeBits_eq (h : s.Sized) : s.rangeBits = 8 * s.size := by
  have hb := h.bits_eq
  obtain ⟨h1, h8⟩ := h
  unfold rangeBits
  omega

theorem Sized.magnitudeBits_eq (h : s.Sized) : s.magnitudeBits = 8 * s.size - 1 := by
  have hb := h.rangeBits_eq
  obtain ⟨h1, h8⟩ := h
  unfold magnitudeBits
  omega

/-- A sized scalar has one of eight sizes. -/
theorem Sized.size_cases (h : s.Sized) :
    s.size = 1 ∨ s.size = 2 ∨ s.size = 3 ∨ s.size = 4 ∨ s.size = 5 ∨ s.size = 6 ∨ s.size = 7 ∨
      s.size = 8 := by
  obtain ⟨h1, h8⟩ := h
  omega

/-! ### Bounds -/

theorem least_of_signed (h : s.kind = .signedInt) : s.least = -(2 ^ s.magnitudeBits : Int) := by
  rw [least, h]
  simp [bitPatterns_eq]

theorem greatest_of_signed (h : s.kind = .signedInt) :
    s.greatest = (2 ^ s.magnitudeBits : Int) - 1 := by
  rw [greatest, h]
  simp [bitPatterns_eq]

theorem least_of_unsigned (h : s.kind ≠ .signedInt) : s.least = 0 := by
  unfold least
  split
  · contradiction
  · rfl

theorem greatest_of_unsigned (h : s.kind = .unsignedInt ∨ s.kind = .char) :
    s.greatest = (2 ^ s.rangeBits : Int) - 1 := by
  rcases h with h | h <;> rw [greatest, h] <;> simp [bitPatterns_eq]

theorem isSigned_iff : s.isSigned = true ↔ s.kind = .signedInt := by
  simp [isSigned]

theorem signedness_of_signed (h : s.kind = .signedInt) : s.signedness = .signed := by
  simp [signedness, isSigned_iff.2 h]

theorem signedness_of_unsigned (h : s.kind ≠ .signedInt) : s.signedness = .unsigned := by
  simp [signedness, isSigned, h]

theorem bounds_of_bool (h : s.kind = .bool) :
    s.signedness = .unsigned ∧ s.least = 0 ∧ s.greatest = 1 :=
  ⟨signedness_of_unsigned (by simp [h]), least_of_unsigned (by simp [h]), by rw [greatest, h]⟩

/-- **The bounds of a sized scalar are storable** in a range of its representation. -/
theorem Sized.representable (h : s.Sized) :
    s.signedness.least ≤ s.least ∧ s.greatest ≤ s.signedness.greatest := by
  by_cases hk : s.kind = .signedInt
  · rw [signedness_of_signed hk, least_of_signed hk, greatest_of_signed hk, h.magnitudeBits_eq]
    rcases h.size_cases with h | h | h | h | h | h | h | h <;> rw [h] <;> decide
  · rw [signedness_of_unsigned hk, least_of_unsigned hk]
    refine ⟨by decide, ?_⟩
    have hb := h.rangeBits_eq
    rcases hc : s.kind with _ | _ | _ | _ | _
    · rw [greatest, hc]
      show (0 : Int) ≤ 18446744073709551615
      decide
    · rw [greatest, hc]
      show (1 : Int) ≤ 18446744073709551615
      decide
    · exact absurd hc hk
    all_goals
      rw [greatest_of_unsigned (by simp [hc]), hb]
      rcases h.size_cases with h | h | h | h | h | h | h | h <;> rw [h] <;> decide

theorem least_le_greatest (s : Scalar) : s.least ≤ s.greatest := by
  have hpos : ∀ k, (1 : Int) ≤ (bitPatterns k : Nat) := fun k => by
    rw [bitPatterns_eq]
    exact_mod_cast Nat.one_le_two_pow
  unfold least greatest
  rcases s.kind with _ | _ | _ | _ | _ <;> simp only [Int.le_refl, Int.zero_le_ofNat]
  · have := hpos s.magnitudeBits
    omega
  · have := hpos s.rangeBits
    omega
  · have := hpos s.rangeBits
    omega

theorem modulus_pos (s : Scalar) : 0 < s.modulus := by
  have := s.least_le_greatest
  unfold modulus
  omega

/-- Integers and characters have as many values as bit patterns. -/
theorem Sized.modulus_eq (h : s.Sized) (hi : s.isIntegral) : s.modulus = (2 ^ s.bits : Int) := by
  rw [h.bits_eq, modulus]
  by_cases hk : s.kind = .signedInt
  · rw [least_of_signed hk, greatest_of_signed hk, h.magnitudeBits_eq]
    rcases h.size_cases with h | h | h | h | h | h | h | h <;> rw [h] <;> decide
  · have hu : s.kind = .unsignedInt ∨ s.kind = .char := by
      simpa [isIntegral, isInteger, hk] using hi
    rw [least_of_unsigned hk, greatest_of_unsigned hu, h.rangeBits_eq]
    omega

/-! ### Ranges of a scalar -/

theorem checkBounds_ok {u : Unit} (h : s.checkBounds = .ok u) : s.kind ≠ .void := by
  rintro hk
  obtain ⟨_, -, h⟩ := Outcome.bind_ok h
  rw [hk] at h
  cases h

/-- A sized scalar with values has bounds. -/
theorem Sized.checkBounds (h : s.Sized) (hv : s.kind ≠ .void) : s.checkBounds = .ok () := by
  have hbits := h.bits_eq
  obtain ⟨h1, h8⟩ := h
  have hwidth : s.size * 8 < wordCount := by
    unfold wordCount
    omega
  have hsigned : s.bits ≠ 0 := by omega
  rw [Scalar.checkBounds, checkWidth, if_pos hwidth]
  cases hk : s.kind with
  | void => exact absurd hk hv
  | signedInt => simp [bind, Except.bind, hsigned, pure, Except.pure]
  | bool | unsignedInt | char => rfl

/-- **Bounds in order that lie in the scalar make the range between them**, if the scalar has bounds and
they are storable. -/
theorem rangeOf_of_stored
    (hstored : s.signedness.least ≤ s.least ∧ s.greatest ≤ s.signedness.greatest)
    (hcheck : s.checkBounds = .ok ()) {lo hi : Int} (hlo : s.least ≤ lo) (hle : lo ≤ hi)
    (hhi : hi ≤ s.greatest) :
    ∃ r, s.rangeOf lo hi = .ok r ∧ r.signedness = s.signedness ∧ r.lo = lo ∧ r.hi = hi := by
  obtain ⟨hl, hg⟩ := hstored
  have hin : ¬ (lo < s.least ∨ s.greatest < hi) := by omega
  refine ⟨⟨s.signedness, lo, hi, hle, by omega, by omega⟩, ?_, rfl, rfl, rfl⟩
  simp only [rangeOf, hcheck, hin, if_false]
  exact ValueRange.ofWords_of_le (by omega) hle (by omega)

theorem rangeOf_of_le (hs : s.Sized) (hv : s.kind ≠ .void) {lo hi : Int} (hlo : s.least ≤ lo)
    (hle : lo ≤ hi) (hhi : hi ≤ s.greatest) :
    ∃ r, s.rangeOf lo hi = .ok r ∧ r.signedness = s.signedness ∧ r.lo = lo ∧ r.hi = hi :=
  rangeOf_of_stored hs.representable (hs.checkBounds hv) hlo hle hhi

/-- **A range of a scalar has the bounds it was asked for**, if they were in order, and they lie in
the scalar. -/
theorem rangeOf_ok (hs : s.Sized) {lo hi : Int} {r : ValueRange} (hle : lo ≤ hi)
    (h : s.rangeOf lo hi = .ok r) :
    r.signedness = s.signedness ∧ r.lo = lo ∧ r.hi = hi ∧ s.least ≤ lo ∧ hi ≤ s.greatest := by
  obtain ⟨u, hu, hr⟩ := Outcome.bind_ok h
  have hv := checkBounds_ok hu
  split at hr
  · cases hr
  · rename_i hin
    have hl : s.least ≤ lo := by omega
    have hg : hi ≤ s.greatest := by omega
    obtain ⟨q, hq, hsig, hlo, hhi⟩ := rangeOf_of_le hs hv hl hle hg
    rw [h] at hq
    cases hq
    exact ⟨hsig, hlo, hhi, hl, hg⟩

end RangeTyping.Scalar
