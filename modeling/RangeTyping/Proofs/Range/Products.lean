import Mathlib
import RangeTyping.Proofs.Range.Precision

/-!
# The ranges of products

Products of the numbers of two ranges leave gaps between them, but the least and the greatest one are
products of bounds (`ValueRange.corners_mem`), and where these are of different signs, zero is among
the products (`ValueRange.zero_mem_products`).  So a signed product is undefined on all inputs only if
all products leave the scalar on one side, and where none of them leaves the scalar, the range is the
smallest one.

The rule keeps products of bounds in 128 bits.  What is cut off lies far outside every scalar, so the
outcome is that of exact integers (`Scalar.times_eq_timesWith_id`).
-/

namespace RangeTyping

namespace ValueRange

variable {a b : ValueRange} {v : Int}

/-- The products of a number of `a` and a number of `b`. -/
def products (a b : ValueRange) : Set Int := {v | ∃ x ∈ a, ∃ y ∈ b, x * y = v}

/-- The least and the greatest product of a bound of `a` and a bound of `b`, each bounded by
`cut`. -/
def corners (cut : Int → Int) (a b : ValueRange) : Int × Int :=
  (min (min (cut (a.lo * b.lo)) (cut (a.lo * b.hi))) (min (cut (a.hi * b.lo)) (cut (a.hi * b.hi))),
    max (max (cut (a.lo * b.lo)) (cut (a.lo * b.hi))) (max (cut (a.hi * b.lo)) (cut (a.hi * b.hi))))

/-! ### Exact corners -/

theorem mul_mem_products {x y : Int} (hx : x ∈ a) (hy : y ∈ b) : x * y ∈ products a b :=
  ⟨x, hx, y, hy, rfl⟩

theorem nonempty_products (a b : ValueRange) : (products a b).Nonempty :=
  ⟨_, mul_mem_products a.lo_mem b.lo_mem⟩

/-- Every product lies between the corners. -/
theorem mem_corners (h : v ∈ products a b) : (corners id a b).1 ≤ v ∧ v ≤ (corners id a b).2 := by
  obtain ⟨x, hx, y, hy, rfl⟩ := h
  obtain ⟨hx1, hx2⟩ := mem_iff.1 hx
  obtain ⟨hy1, hy2⟩ := mem_iff.1 hy
  exact Scalar.mul_mem_corners hx1 hx2 hy1 hy2

/-- **The corners are products.** -/
theorem corners_mem (a b : ValueRange) :
    (corners id a b).1 ∈ products a b ∧ (corners id a b).2 ∈ products a b := by
  have hll := mul_mem_products a.lo_mem b.lo_mem
  have hlh := mul_mem_products a.lo_mem b.hi_mem
  have hhl := mul_mem_products a.hi_mem b.lo_mem
  have hhh := mul_mem_products a.hi_mem b.hi_mem
  constructor
  · apply min_rec'
    · exact min_rec' (· ∈ products a b) hll hlh
    · exact min_rec' (· ∈ products a b) hhl hhh
  · apply max_rec'
    · exact max_rec' (· ∈ products a b) hll hlh
    · exact max_rec' (· ∈ products a b) hhl hhh

/-- **Products of both signs have zero between them.** -/
theorem zero_mem_products {u v : Int} (hu : u ∈ products a b) (hv : v ∈ products a b) (hneg : u ≤ 0)
    (hpos : 0 ≤ v) : 0 ∈ products a b := by
  obtain ⟨x, hx, y, hy, rfl⟩ := hu
  obtain ⟨x', hx', y', hy', rfl⟩ := hv
  by_cases ha : (0 : Int) ∈ a
  · exact ⟨0, ha, y, hy, zero_mul y⟩
  by_cases hb : (0 : Int) ∈ b
  · exact ⟨x, hx, 0, hb, mul_zero x⟩
  -- otherwise all factors of one side have one sign, and so do the products
  exfalso
  rw [mem_iff] at ha hb hx hx' hy hy'
  have hsigns : 0 < x ∧ 0 < x' ∨ x < 0 ∧ x' < 0 := by omega
  have hsigns' : 0 < y ∧ 0 < y' ∨ y < 0 ∧ y' < 0 := by omega
  rcases hsigns with ⟨h1, h2⟩ | ⟨h1, h2⟩ <;> rcases hsigns' with ⟨h3, h4⟩ | ⟨h3, h4⟩
  · exact absurd (mul_pos h1 h3) hneg.not_gt
  · exact absurd (mul_neg_of_pos_of_neg h2 h4) hpos.not_gt
  · exact absurd (mul_neg_of_neg_of_pos h2 h4) hpos.not_gt
  · exact absurd (mul_pos_of_neg_of_neg h1 h3) hneg.not_gt

end ValueRange

namespace Scalar

open ValueRange (products corners)

variable {s : Scalar} {a b r : ValueRange} {lo hi : Int}

/-! ### Products in 128 bits -/

/-- The range of `x * y`, with the products of bounds bounded by `cut`. -/
def timesWith (cut : Int → Int) (s : Scalar) (a b : ValueRange) :
    Outcome UndefinedBehavior ValueRange := do
  s.checkArithmetic
  let (lo, hi) := corners cut a b
  if s.isSigned then
    s.settleSigned lo hi
  else if hi ≤ s.greatest then
    s.rangeOf lo hi
  else
    s.rangeOf s.least s.greatest

theorem times_eq_timesWith (s : Scalar) (a b : ValueRange) :
    s.times a b = timesWith saturate s a b := rfl

/-- The corners of the saturated products are the saturated corners. -/
theorem corners_saturate (a b : ValueRange) :
    corners saturate a b = (saturate (corners id a b).1, saturate (corners id a b).2) := by
  have hmono : Monotone saturate := by
    intro x y hxy
    unfold saturate
    omega
  simp only [corners, id, hmono.map_min, hmono.map_max]

/-- Products of words are too large for 128 bits on one side only. -/
theorem neg_le_corners (a b : ValueRange) :
    -170141183460469231731687303715884105728 ≤ (corners id a b).1 := by
  have hword : ∀ {r : ValueRange} {x : Int}, x ∈ r →
      -9223372036854775808 ≤ x ∧ x ≤ 18446744073709551615 := by
    intro r x hx
    have hm := ValueRange.mem_iff.1 hx
    have hl := r.least_le_lo
    have hg := r.hi_le_greatest
    cases hsig : r.signedness <;> simp only [hsig, Signedness.least, Signedness.greatest] at hl hg <;>
      omega
  obtain ⟨x, hx, y, hy, hxy⟩ := (ValueRange.corners_mem a b).1
  have h := mul_mem_corners (hword hx).1 (hword hx).2 (hword hy).1 (hword hy).2
  omega

/-- A signed interval is settled alike if its bounds are kept in 128 bits. -/
theorem settleSigned_saturate (hs : s.Sized) (hsig : s.isSigned = true) (lo hi : Int) :
    s.settleSigned (saturate lo) (saturate hi) = s.settleSigned lo hi := by
  obtain ⟨hl, hg⟩ := hs.representable
  have hlg := s.least_le_greatest
  rw [signedness_of_signed (isSigned_iff.1 hsig)] at hl hg
  simp only [Signedness.least, Signedness.greatest] at hl hg
  -- the scalar lies within 128 bits, so that saturation does not cross its bounds
  have hlo : s.greatest < saturate lo ↔ s.greatest < lo := by
    unfold saturate
    omega
  have hhi : saturate hi < s.least ↔ hi < s.least := by
    unfold saturate
    omega
  unfold settleSigned
  simp only [hlo, hhi]
  split
  · rfl
  split
  · rfl
  · have hmax : max (saturate lo) s.least = max lo s.least := by
      unfold saturate
      omega
    have hmin : min (saturate hi) s.greatest = min hi s.greatest := by
      unfold saturate
      omega
    rw [hmax, hmin]

/-- **Keeping products in 128 bits does not show.** -/
theorem times_eq_timesWith_id (hs : s.Sized) (a b : ValueRange) :
    s.times a b = timesWith id s a b := by
  have hsat := corners_saturate a b
  have hneg := neg_le_corners a b
  have hle := ValueRange.mem_corners (ValueRange.corners_mem a b).1
  rw [times_eq_timesWith]
  unfold timesWith
  rw [hsat]
  congr 1
  funext _
  dsimp only
  split
  · rename_i hsig
    exact settleSigned_saturate hs hsig _ _
  · rename_i hsig
    have hne : s.kind ≠ .signedInt := fun hk => hsig (isSigned_iff.2 hk)
    have hg := hs.representable.2
    rw [signedness_of_unsigned hne] at hg
    simp only [Signedness.greatest] at hg
    have hhi : saturate (corners id a b).2 ≤ s.greatest ↔ (corners id a b).2 ≤ s.greatest := by
      unfold saturate
      omega
    simp only [hhi]
    split
    · -- nothing was cut off
      have h1 : saturate (corners id a b).1 = (corners id a b).1 := by
        unfold saturate
        omega
      have h2 : saturate (corners id a b).2 = (corners id a b).2 := by
        unfold saturate
        omega
      rw [h1, h2]
    · rfl

/-! ### Signed products -/

theorem holds_zero_of_signed (hsig : s.isSigned = true) : s.Holds 0 := by
  have hpos : (0 : Int) < 2 ^ s.magnitudeBits := by positivity
  rw [Holds, least_of_signed (isSigned_iff.1 hsig), greatest_of_signed (isSigned_iff.1 hsig)]
  omega

/-- **Products that do not all leave a signed scalar on one side do not all leave it**: if neither
corner is in the scalar, they are on its two sides, and zero is a product. -/
theorem exists_products_holds (hsig : s.isSigned = true) (hlo : (corners id a b).1 ≤ s.greatest)
    (hhi : s.least ≤ (corners id a b).2) : ∃ v ∈ products a b, s.Holds v := by
  obtain ⟨hmin, hmax⟩ := ValueRange.corners_mem a b
  have hzero : s.Holds 0 := holds_zero_of_signed hsig
  by_cases h1 : s.least ≤ (corners id a b).1
  · exact ⟨_, hmin, h1, hlo⟩
  by_cases h2 : (corners id a b).2 ≤ s.greatest
  · exact ⟨_, hmax, hhi, h2⟩
  refine ⟨0, ValueRange.zero_mem_products hmin hmax ?_ ?_, hzero⟩
  · exact (lt_of_not_ge h1).le.trans hzero.1
  · exact hzero.2.trans (lt_of_not_ge h2).le

/-- **The outcome of a product**: it is undefined where it has to be and never an internal error, a
range contains every defined product, and it is the smallest one if no product leaves the scalar. -/
structure Multiplies (s : Scalar) (a b : ValueRange) (o : Outcome UndefinedBehavior ValueRange) :
    Prop extends s.Faults (products a b) o where
  not_internal : ∀ e, o ≠ .error (.internal e)
  mem : ∀ r, o = .ok r → r.Of s ∧ ∀ z ∈ s.reduced (products a b), z ∈ r
  smallest : (∀ v ∈ products a b, s.Holds v) → ∃ r, o = .ok r ∧ r.Smallest (products a b)

/-- An undefined outcome is right where no product is in a signed scalar. -/
theorem Faults.multiplies {u : UndefinedBehavior}
    (h : s.Faults (products a b) (Outcome.fail u)) (hout : ∀ v ∈ products a b, ¬ s.Holds v) :
    s.Multiplies a b (Outcome.fail u) := by
  obtain ⟨v, hv⟩ := ValueRange.nonempty_products a b
  refine ⟨h, ?_, ?_, fun hall => absurd (hall v hv) (hout v hv)⟩
  · intro e he
    cases he
  · intro r hr
    cases hr

/-- A range of the scalar is right if it contains every defined product, and has the corners as its
bounds if they are in the scalar. -/
theorem multiplies_rangeOf (hs : s.Sized) (hv : s.kind ≠ .void) (hle : lo ≤ hi) (hl : s.least ≤ lo)
    (hg : hi ≤ s.greatest) (hsome : (s.reduced (products a b)).Nonempty)
    (hmem : ∀ z ∈ s.reduced (products a b), lo ≤ z ∧ z ≤ hi)
    (htight : s.Holds (corners id a b).1 → s.Holds (corners id a b).2 →
      lo = (corners id a b).1 ∧ hi = (corners id a b).2) :
    s.Multiplies a b (Outcome.ofInternal (s.rangeOf lo hi)) := by
  obtain ⟨r, hr, -⟩ := rangeOf_of_le hs hv hl hle hg
  obtain ⟨hof, rfl, rfl⟩ := of_rangeOf hs hle hr
  obtain ⟨hmin, hmax⟩ := ValueRange.corners_mem a b
  rw [hr]
  refine ⟨faults_ok hsome, ?_, ?_, fun hall => ⟨r, rfl, ?_⟩⟩
  · intro e he
    cases he
  · intro r' hr'
    cases hr'
    exact ⟨hof, hmem⟩
  · obtain ⟨hlo, hhi⟩ := htight (hall _ hmin) (hall _ hmax)
    apply ValueRange.smallest_of_bounds
    · intro v hv
      rw [ValueRange.mem_iff, hlo, hhi]
      exact ValueRange.mem_corners hv
    · rwa [hlo]
    · rwa [hhi]

theorem multiplies_settleSigned (hs : s.Sized) (hsig : s.isSigned = true) :
    s.Multiplies a b (s.settleSigned (corners id a b).1 (corners id a b).2) := by
  have hv : s.kind ≠ .void := by simp [isSigned_iff.1 hsig]
  have hlg := s.least_le_greatest
  have hsome := ValueRange.nonempty_products a b
  have hle := ValueRange.mem_corners (ValueRange.corners_mem a b).1
  unfold settleSigned
  split
  · rename_i habove
    have hall : ∀ v ∈ products a b, s.greatest < v := fun v hv =>
      habove.trans_le (ValueRange.mem_corners hv).1
    have hfaults := faults_overflow hs hsig hsome hall
    obtain ⟨p, -, ho⟩ := undefinedAt_eq hs hv .overflow ⟨hlg, le_rfl⟩
    rw [ho] at hfaults ⊢
    exact hfaults.multiplies fun v hv hin => absurd (hall v hv) hin.2.not_gt
  split
  · rename_i hbelow
    have hall : ∀ v ∈ products a b, v < s.least := fun v hv =>
      (ValueRange.mem_corners hv).2.trans_lt hbelow
    have hfaults := faults_underflow hs hsig hsome hall
    obtain ⟨p, -, ho⟩ := undefinedAt_eq hs hv .underflow ⟨le_rfl, hlg⟩
    rw [ho] at hfaults ⊢
    exact hfaults.multiplies fun v hv hin => absurd (hall v hv) hin.1.not_gt
  · rename_i hlo hhi
    apply multiplies_rangeOf hs hv (by omega) (by omega) (by omega)
    · -- as products lie neither all above nor all below, one of them is held
      obtain ⟨v, hv, hin⟩ := exists_products_holds hsig (not_lt.1 hlo) (not_lt.1 hhi)
      exact ⟨v, (mem_reduced_of_signed hsig).2 ⟨hv, hin⟩⟩
    · intro z hz
      obtain ⟨hz, hin⟩ := (mem_reduced_of_signed hsig).1 hz
      have hcorner := ValueRange.mem_corners hz
      have hholds : s.least ≤ z ∧ z ≤ s.greatest := hin
      omega
    · intro hmin hmax
      exact ⟨max_eq_left hmin.1, min_eq_left hmax.2⟩

/-! ### Unsigned products -/

theorem multiplies_unsigned (hs : s.Sized) (hint : s.isInteger = true) (hsig : ¬ s.isSigned = true)
    (ha : 0 ≤ a.lo) (hb : 0 ≤ b.lo) :
    s.Multiplies a b (Outcome.ofInternal (if (corners id a b).2 ≤ s.greatest then
      s.rangeOf (corners id a b).1 (corners id a b).2 else s.rangeOf s.least s.greatest)) := by
  have hv := ne_void_of_isInteger hint
  obtain ⟨h0, hmod⟩ := bounds_of_not_signed hsig
  obtain ⟨hmin, hmax⟩ := ValueRange.corners_mem a b
  have hnonneg : ∀ v ∈ products a b, 0 ≤ v := by
    rintro v ⟨x, hx, y, hy, rfl⟩
    exact mul_nonneg (ha.trans (ValueRange.mem_iff.1 hx).1) (hb.trans (ValueRange.mem_iff.1 hy).1)
  have hsome : (s.reduced (products a b)).Nonempty :=
    ⟨_, (mem_reduced_of_unsigned hs hint hsig).2 ⟨_, hmin, rfl⟩⟩
  split
  · -- no product wraps
    rename_i hle
    have hzero := hnonneg _ hmin
    apply multiplies_rangeOf hs hv (ValueRange.mem_corners hmin).2 (by omega) hle hsome
    · intro z hz
      obtain ⟨w, hw, rfl⟩ := (mem_reduced_of_unsigned hs hint hsig).1 hz
      have hcorner := ValueRange.mem_corners hw
      rw [Int.emod_eq_of_lt (hnonneg w hw) (by omega)]
      exact hcorner
    · exact fun _ _ => ⟨rfl, rfl⟩
  · -- some product wraps, and the scalar is filled
    rename_i hgt
    apply multiplies_rangeOf hs hv s.least_le_greatest le_rfl le_rfl hsome
    · intro z hz
      obtain ⟨w, -, rfl⟩ := (mem_reduced_of_unsigned hs hint hsig).1 hz
      have h1 := Int.emod_nonneg w s.modulus_pos.ne'
      have h2 := Int.emod_lt_of_pos w s.modulus_pos
      omega
    · exact fun _ hin => absurd hin.2 hgt

/-- **The range of a product.**  On ranges that fit an integer scalar of one to eight bytes, the rule
for `x * y` is undefined exactly where no product is defined, all of them being on one side of the
scalar, and otherwise gives a range of the scalar that contains every defined product.  The range is
the smallest one if no product leaves the scalar, and it is the one that exact integers give. -/
theorem multiplies_times (hs : s.Sized) (hint : s.isInteger = true) (ha : s.fits a = .ok true)
    (hb : s.fits b = .ok true) :
    s.Multiplies a b (s.times a b) ∧ s.times a b = timesWith id s a b := by
  have heq := times_eq_timesWith_id hs a b
  refine ⟨?_, heq⟩
  rw [heq, timesWith, bind_checkArithmetic hint]
  show s.Multiplies a b (if s.isSigned = true then _ else _)
  by_cases hsig : s.isSigned = true
  · rw [if_pos hsig]
    exact multiplies_settleSigned hs hsig
  · obtain ⟨h0, -⟩ := bounds_of_not_signed hsig
    have ha0 := (bounds_of_fits hs hint ha).1
    have hb0 := (bounds_of_fits hs hint hb).1
    have h := multiplies_unsigned hs hint hsig (h0 ▸ ha0) (h0 ▸ hb0)
    rw [apply_ite Outcome.ofInternal] at h
    rw [if_neg hsig]
    exact h

/-- The greatest unsigned word times itself does not fit in 128 bits and fills the scalar.  Signed
bytes from -100 to 100 and from 50 to 60 have products on both sides; signed bytes from -100 to -90 and
from 50 to 60 have products below the scalar only. -/
theorem multiplies_times_extremes :
    let u64 : Scalar := ⟨"U64", 8, 8, .unsignedInt, 0, 1⟩
    let w : ValueRange := ⟨.unsigned, 18446744073709551615, 18446744073709551615, by decide,
      by decide, by decide⟩
    let s8 : Scalar := ⟨"S8", 1, 1, .signedInt, 0, 1⟩
    let a : ValueRange := ⟨.signed, -100, 100, by decide, by decide, by decide⟩
    let b : ValueRange := ⟨.signed, 50, 60, by decide, by decide, by decide⟩
    let c : ValueRange := ⟨.signed, -100, -90, by decide, by decide, by decide⟩
    ((u64.Multiplies w w (u64.times w w) ∧ u64.times w w = timesWith id u64 w w) ∧
      corners saturate w w ≠ corners id w w ∧
      (u64.times w w).toOption.map (·.text) = some "[0, 18446744073709551615]") ∧
    ((s8.Multiplies a b (s8.times a b) ∧ s8.times a b = timesWith id s8 a b) ∧
      (s8.times a b).toOption.map (·.text) = some "[-128, 127]") ∧
    (s8.Multiplies c b (s8.times c b) ∧ s8.times c b = timesWith id s8 c b) ∧
      (s8.times c b).toOption = none := by
  intro u64 w s8 a b c
  have hword := multiplies_times (s := u64) (a := w) (b := w) ⟨by decide, by decide⟩ rfl
    (by decide +kernel) (by decide +kernel)
  have hboth := multiplies_times (s := s8) (a := a) (b := b) ⟨by decide, by decide⟩ rfl
    (by decide +kernel) (by decide +kernel)
  have hbelow := multiplies_times (s := s8) (a := c) (b := b) ⟨by decide, by decide⟩ rfl
    (by decide +kernel) (by decide +kernel)
  exact ⟨⟨hword, by decide +kernel, by decide +kernel⟩, ⟨hboth, by decide +kernel⟩, hbelow,
    by decide +kernel⟩

end Scalar

end RangeTyping
