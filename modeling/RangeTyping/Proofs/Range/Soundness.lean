import Mathlib
import RangeTyping.Proofs.Evaluation.Number

/-!
# The range rules are sound

Every rule that computes a range from ranges contains what the operation computes from numbers:

* `Scalar.settle_ok`, and on top of it `plus_ok`, `minus_ok`, `times_ok` and `dividedBy_ok`;
* `Comparison.holds_mem_range` and `ValueRange.logicalNot_ok`;
* `Scalar.convert_ok` for conversions, `ValueRange.hull_ok` for conditionals.

Each also says that the computed range belongs to its scalar (`ValueRange.Of`): it lies within the
scalar's bounds and is kept in the scalar's representation.
-/

namespace RangeTyping

/-- The range belongs to the scalar: it has its representation and lies within its bounds. -/
structure ValueRange.Of (r : ValueRange) (s : Scalar) : Prop where
  signedness : r.signedness = s.signedness
  least_le : s.least ≤ r.lo
  le_greatest : r.hi ≤ s.greatest

theorem ValueRange.Of.holds {r : ValueRange} {s : Scalar} (h : r.Of s) {v : Int} (hv : v ∈ r) :
    s.Holds v := by
  have hm := ValueRange.mem_iff.1 hv
  exact ⟨by have := h.least_le; omega, by have := h.le_greatest; omega⟩

theorem ValueRange.of_bool {r : ValueRange} {s : Scalar} (hk : s.kind = .bool)
    (hr : r.signedness = .unsigned) (hl : 0 ≤ r.lo) (hh : r.hi ≤ 1) : r.Of s := by
  obtain ⟨hu, h0, h1⟩ := Scalar.bounds_of_bool hk
  exact ⟨hr.trans hu.symm, by omega, by omega⟩

namespace Scalar

variable {s : Scalar} {r a b : ValueRange}

theorem of_rangeOf (hs : s.Sized) {lo hi : Int} (hle : lo ≤ hi) (h : s.rangeOf lo hi = .ok r) :
    r.Of s ∧ r.lo = lo ∧ r.hi = hi := by
  obtain ⟨hsig, hlo, hhi, hl, hg⟩ := rangeOf_ok hs hle h
  exact ⟨⟨hsig, by omega, by omega⟩, hlo, hhi⟩

theorem fullRange_ok (hs : s.Sized) {o : Option ValueRange} (h : s.fullRange = .ok o) :
    (s.kind = .void ∧ o = none) ∨
      (s.kind ≠ .void ∧ ∃ r, o = some r ∧ r.Of s ∧ r.lo = s.least ∧ r.hi = s.greatest) := by
  unfold fullRange at h
  split at h
  · rename_i hk
    cases h
    exact .inl ⟨hk, rfl⟩
  · rename_i hk
    cases h
    refine .inr ⟨by simp [hk], _, rfl, ⟨?_, ?_, ?_⟩, ?_, ?_⟩ <;>
      simp [ValueRange.anyBool, signedness, isSigned, least, greatest, hk]
  all_goals
    rename_i hk
    obtain ⟨r, hr, rfl⟩ := Outcome.map_ok h
    exact .inr ⟨by simp [hk], r, rfl, of_rangeOf hs s.least_le_greatest hr⟩

/-! ### Settling -/

theorem settleSigned_ok (hs : s.Sized) {lo hi : Int} (hle : lo ≤ hi)
    (h : s.settleSigned lo hi = .ok r) :
    r.Of s ∧ r.lo = max lo s.least ∧ r.hi = min hi s.greatest := by
  have hlg := s.least_le_greatest
  unfold settleSigned at h
  split at h
  · obtain ⟨_, -, h⟩ := Outcome.bind_ok h
    cases h
  split at h
  · obtain ⟨_, -, h⟩ := Outcome.bind_ok h
    cases h
  · exact of_rangeOf hs (by omega) (Outcome.ofInternal_ok h)

theorem settleUnsigned_ok (hs : s.Sized) (hk : s.kind = .unsignedInt) {lo hi : Int} (hle : lo ≤ hi)
    (h : s.settleUnsigned lo hi = .ok r) :
    r.Of s ∧ ∀ v, lo ≤ v → v ≤ hi → v % 2 ^ s.bits ∈ r := by
  have hmod : s.modulus = 2 ^ s.bits := hs.modulus_eq (by simp [isIntegral, isInteger, hk])
  have hleast : s.least = 0 := least_of_unsigned (by simp [hk])
  have hgreat : s.greatest = s.modulus - 1 := by
    unfold modulus
    omega
  rw [← hmod]
  have hpos := s.modulus_pos
  unfold settleUnsigned at h
  split at h
  · -- the interval lies in the scalar
    obtain ⟨hof, hl, hh⟩ := of_rangeOf hs hle h
    refine ⟨hof, fun v h1 h2 => ValueRange.mem_iff.2 ?_⟩
    rw [Int.emod_eq_of_lt (by omega) (by omega)]
    omega
  split at h
  · -- it lies above, and all numbers are one modulus too large
    obtain ⟨hof, hl, hh⟩ := of_rangeOf hs (by omega) h
    refine ⟨hof, fun v h1 h2 => ValueRange.mem_iff.2 ?_⟩
    rw [← Int.sub_emod_right, Int.emod_eq_of_lt (by omega) (by omega)]
    omega
  split at h
  · -- it lies below, and all numbers are one modulus too small
    obtain ⟨hof, hl, hh⟩ := of_rangeOf hs (by omega) h
    refine ⟨hof, fun v h1 h2 => ValueRange.mem_iff.2 ?_⟩
    rw [← Int.add_emod_right, Int.emod_eq_of_lt (by omega) (by omega)]
    omega
  · -- anything else fills the scalar
    obtain ⟨hof, hl, hh⟩ := of_rangeOf hs s.least_le_greatest h
    refine ⟨hof, fun v _ _ => ValueRange.mem_iff.2 ?_⟩
    have h1 := Int.emod_nonneg v (by omega : s.modulus ≠ 0)
    have h2 := Int.emod_lt_of_pos v hpos
    omega

/-- **Settling is sound**: what an exact result between `lo` and `hi` becomes in the scalar lies in
the settled range. -/
theorem settle_ok (hs : s.Sized) (hint : s.isInteger) {lo hi : Int} (hle : lo ≤ hi)
    (h : s.settle lo hi = .ok r) :
    r.Of s ∧ ∀ v, lo ≤ v → v ≤ hi → ∀ z, s.signedness.reduce s v = some z → z ∈ r := by
  unfold settle at h
  split at h
  · rename_i hsig
    obtain ⟨hof, hl, hh⟩ := settleSigned_ok hs hle h
    refine ⟨hof, fun v h1 h2 z hz => ValueRange.mem_iff.2 ?_⟩
    rw [signedness_of_signed (isSigned_iff.1 hsig), Signedness.reduce] at hz
    split at hz
    · rename_i hin
      obtain ⟨hin1, hin2⟩ := hin
      cases hz
      omega
    · cases hz
  · rename_i hsig
    have hk : s.kind ≠ .signedInt := fun hk => hsig (isSigned_iff.2 hk)
    have hu : s.kind = .unsignedInt := by simpa [isInteger, hk] using hint
    obtain ⟨hof, hmem⟩ := settleUnsigned_ok hs hu hle (Outcome.ofInternal_ok h)
    refine ⟨hof, fun v h1 h2 z hz => ?_⟩
    rw [signedness_of_unsigned hk, Signedness.reduce] at hz
    cases hz
    exact hmem v h1 h2

/-! ### The four operations -/

theorem checkArithmetic_ok {u : Unit} (h : s.checkArithmetic = .ok u) : s.isInteger := by
  unfold checkArithmetic at h
  split at h
  · assumption
  · cases h

/-- What a rule that starts with the check for arithmetic does after it. -/
theorem arithmetic_ok {f : Unit → Outcome UndefinedBehavior ValueRange}
    (h : (liftM s.checkArithmetic >>= f) = .ok r) : s.isInteger ∧ f () = .ok r := by
  obtain ⟨u, hu, h⟩ := Outcome.bind_ok h
  exact ⟨checkArithmetic_ok (Outcome.ofInternal_ok hu), h⟩

theorem plus_ok (hs : s.Sized) (h : s.plus a b = .ok r) :
    r.Of s ∧ ∀ x ∈ a, ∀ y ∈ b, ∀ z, s.signedness.reduce s (x + y) = some z → z ∈ r := by
  obtain ⟨hint, h⟩ := arithmetic_ok h
  have hla := a.lo_le_hi
  have hlb := b.lo_le_hi
  obtain ⟨hof, hmem⟩ := settle_ok hs hint (by omega) h
  refine ⟨hof, fun x hx y hy => ?_⟩
  have h1 := ValueRange.mem_iff.1 hx
  have h2 := ValueRange.mem_iff.1 hy
  exact hmem (x + y) (by omega) (by omega)

theorem minus_ok (hs : s.Sized) (h : s.minus a b = .ok r) :
    r.Of s ∧ ∀ x ∈ a, ∀ y ∈ b, ∀ z, s.signedness.reduce s (x - y) = some z → z ∈ r := by
  obtain ⟨hint, h⟩ := arithmetic_ok h
  have hla := a.lo_le_hi
  have hlb := b.lo_le_hi
  obtain ⟨hof, hmem⟩ := settle_ok hs hint (by omega) h
  refine ⟨hof, fun x hx y hy => ?_⟩
  have h1 := ValueRange.mem_iff.1 hx
  have h2 := ValueRange.mem_iff.1 hy
  exact hmem (x - y) (by omega) (by omega)

/-- A product lies between the least and the greatest product of bounds. -/
theorem mul_mem_corners {x y l h m k : Int} (hl : l ≤ x) (hh : x ≤ h) (hm : m ≤ y) (hk : y ≤ k) :
    min (min (l * m) (l * k)) (min (h * m) (h * k)) ≤ x * y ∧
      x * y ≤ max (max (l * m) (l * k)) (max (h * m) (h * k)) := by
  -- for a fixed left factor, the product with `y` lies between those with the bounds of `y`
  have side : ∀ c, min (c * m) (c * k) ≤ c * y ∧ c * y ≤ max (c * m) (c * k) := by
    intro c
    rcases le_total 0 c with hc | hc
    · have h1 := mul_le_mul_of_nonneg_left hm hc
      have h2 := mul_le_mul_of_nonneg_left hk hc
      omega
    · have h1 := mul_le_mul_of_nonpos_left hm hc
      have h2 := mul_le_mul_of_nonpos_left hk hc
      omega
  have hl' := side l
  have hh' := side h
  rcases le_total 0 y with hy | hy
  · have h1 := mul_le_mul_of_nonneg_right hl hy
    have h2 := mul_le_mul_of_nonneg_right hh hy
    omega
  · have h1 := mul_le_mul_of_nonpos_right hl hy
    have h2 := mul_le_mul_of_nonpos_right hh hy
    omega

theorem Sized.word_bounds (hs : s.Sized) (hr : r.Of s) {v : Int} (hv : v ∈ r) :
    s.signedness.least ≤ v ∧ v ≤ s.signedness.greatest := by
  obtain ⟨h1, h2⟩ := hs.representable
  obtain ⟨h3, h4⟩ := hr.holds hv
  omega

/-- Products of signed words fit in 128 bits. -/
theorem saturate_mul_of_signed {x y : Int} (hx : Signedness.signed.least ≤ x)
    (hx' : x ≤ Signedness.signed.greatest) (hy : Signedness.signed.least ≤ y)
    (hy' : y ≤ Signedness.signed.greatest) : saturate (x * y) = x * y := by
  simp only [Signedness.least, Signedness.greatest] at hx hx' hy hy'
  have h := mul_mem_corners hx hx' hy hy'
  unfold saturate
  omega

theorem times_signed_ok (hs : s.Sized) (hk : s.kind = .signedInt) (ha : a.Of s) (hb : b.Of s)
    (h : s.settleSigned (productBounds a b).1 (productBounds a b).2 = .ok r) :
    r.Of s ∧ ∀ x ∈ a, ∀ y ∈ b, s.Holds (x * y) → x * y ∈ r := by
  -- no corner is saturated
  have hsat : ∀ x ∈ a, ∀ y ∈ b, saturate (x * y) = x * y := by
    intro x hx y hy
    have h1 := hs.word_bounds ha hx
    have h2 := hs.word_bounds hb hy
    rw [signedness_of_signed hk] at h1 h2
    exact saturate_mul_of_signed h1.1 h1.2 h2.1 h2.2
  have hll := hsat _ a.lo_mem _ b.lo_mem
  have hlh := hsat _ a.lo_mem _ b.hi_mem
  have hhl := hsat _ a.hi_mem _ b.lo_mem
  have hhh := hsat _ a.hi_mem _ b.hi_mem
  simp only [productBounds, hll, hlh, hhl, hhh] at h
  obtain ⟨hof, hl, hh⟩ := settleSigned_ok hs (by omega) h
  refine ⟨hof, fun x hx y hy hin => ValueRange.mem_iff.2 ?_⟩
  obtain ⟨hx1, hx2⟩ := ValueRange.mem_iff.1 hx
  obtain ⟨hy1, hy2⟩ := ValueRange.mem_iff.1 hy
  have hc := mul_mem_corners hx1 hx2 hy1 hy2
  obtain ⟨hin1, hin2⟩ := hin
  omega

theorem saturate_of_le {v : Int} (h0 : 0 ≤ v) (h : saturate v ≤ 18446744073709551615) :
    saturate v = v := by
  unfold saturate at h ⊢
  omega

theorem times_unsigned_ok (hs : s.Sized) (hk : s.kind = .unsignedInt) (ha : a.Of s) (hb : b.Of s)
    (hle : (productBounds a b).2 ≤ s.greatest)
    (h : s.rangeOf (productBounds a b).1 (productBounds a b).2 = .ok r) :
    r.Of s ∧ ∀ x ∈ a, ∀ y ∈ b, r.lo ≤ x * y ∧ x * y ≤ r.hi := by
  have hg : s.greatest ≤ 18446744073709551615 := by
    have h2 := hs.representable.2
    rwa [signedness_of_unsigned (by simp [hk])] at h2
  have hzero : s.least = 0 := least_of_unsigned (by simp [hk])
  have hnn : ∀ x ∈ a, ∀ y ∈ b, 0 ≤ x * y := by
    intro x hx y hy
    have h1 := (ha.holds hx).1
    have h2 := (hb.holds hy).1
    exact mul_nonneg (by omega) (by omega)
  have hll := hnn _ a.lo_mem _ b.lo_mem
  have hlh := hnn _ a.lo_mem _ b.hi_mem
  have hhl := hnn _ a.hi_mem _ b.lo_mem
  have hhh := hnn _ a.hi_mem _ b.hi_mem
  -- a corner that was saturated would exceed the scalar
  simp only [productBounds] at h hle
  simp only [saturate_of_le hll (by omega), saturate_of_le hlh (by omega),
    saturate_of_le hhl (by omega), saturate_of_le hhh (by omega)] at h hle
  obtain ⟨hof, hl, hh⟩ := of_rangeOf hs (by omega) h
  refine ⟨hof, fun x hx y hy => ?_⟩
  obtain ⟨hx1, hx2⟩ := ValueRange.mem_iff.1 hx
  obtain ⟨hy1, hy2⟩ := ValueRange.mem_iff.1 hy
  have hc := mul_mem_corners hx1 hx2 hy1 hy2
  omega

theorem times_ok (hs : s.Sized) (ha : a.Of s) (hb : b.Of s) (h : s.times a b = .ok r) :
    r.Of s ∧ ∀ x ∈ a, ∀ y ∈ b, ∀ z, s.signedness.reduce s (x * y) = some z → z ∈ r := by
  obtain ⟨hint, h⟩ := arithmetic_ok h
  change (if s.isSigned = true then _ else _) = _ at h
  split at h
  · rename_i hsig
    have hk := isSigned_iff.1 hsig
    obtain ⟨hof, hmem⟩ := times_signed_ok hs hk ha hb h
    refine ⟨hof, fun x hx y hy z hz => ?_⟩
    rw [signedness_of_signed hk, Signedness.reduce] at hz
    split at hz
    · rename_i hin
      cases hz
      exact hmem x hx y hy hin
    · cases hz
  · rename_i hsig
    have hne : s.kind ≠ .signedInt := fun hk => hsig (isSigned_iff.2 hk)
    have hk : s.kind = .unsignedInt := by simpa [isInteger, hne] using hint
    have hmod : s.modulus = 2 ^ s.bits := hs.modulus_eq (by simp [isIntegral, isInteger, hk])
    have hleast : s.least = 0 := least_of_unsigned hne
    have hgreat : s.greatest = s.modulus - 1 := by
      unfold modulus
      omega
    rw [signedness_of_unsigned hne]
    simp only [Signedness.reduce, Option.some.injEq, ← hmod]
    split at h
    · -- no product exceeds the scalar
      rename_i hle
      obtain ⟨hof, hmem⟩ := times_unsigned_ok hs hk ha hb hle (Outcome.ofInternal_ok h)
      refine ⟨hof, ?_⟩
      rintro x hx y hy z rfl
      obtain ⟨h1, h2⟩ := hmem x hx y hy
      have h3 := hof.least_le
      have h4 := hof.le_greatest
      rw [Int.emod_eq_of_lt (by omega) (by omega)]
      exact ⟨h1, h2⟩
    · -- some do, and the scalar is filled
      obtain ⟨hof, hl, hh⟩ := of_rangeOf hs s.least_le_greatest (Outcome.ofInternal_ok h)
      refine ⟨hof, ?_⟩
      rintro x hx y hy z rfl
      have h1 := Int.emod_nonneg (x * y) (ne_of_gt s.modulus_pos)
      have h2 := Int.emod_lt_of_pos (x * y) s.modulus_pos
      exact ValueRange.mem_iff.2 (by omega)

theorem ediv_antitone {x y z : Int} (hx : 0 ≤ x) (hy : 0 < y) (hyz : y ≤ z) : x / z ≤ x / y := by
  rw [Int.le_ediv_iff_mul_le hy]
  calc x / z * y ≤ x / z * z := mul_le_mul_of_nonneg_left hyz (Int.ediv_nonneg hx (by omega))
    _ ≤ x := Int.ediv_mul_le x (by omega)

/-- A quotient lies between that of the least dividend by the greatest divisor and that of the
greatest dividend by the least divisor. -/
theorem ediv_mem_corners {x y l h m k : Int} (hl0 : 0 ≤ l) (hl : l ≤ x) (hh : x ≤ h) (hm0 : 0 < m)
    (hm : m ≤ y) (hk : y ≤ k) : l / k ≤ x / y ∧ x / y ≤ h / m := by
  constructor
  · calc l / k ≤ l / y := ediv_antitone hl0 (by omega) hk
      _ ≤ x / y := Int.ediv_le_ediv (by omega) hl
  · calc x / y ≤ h / y := Int.ediv_le_ediv (by omega) hh
      _ ≤ h / m := ediv_antitone (by omega) hm0 hm

theorem dividedBy_ok (hs : s.Sized) (ha : a.Of s) (hb : b.Of s) (h : s.dividedBy a b = .ok r) :
    r.Of s ∧ ∀ x ∈ a, ∀ y ∈ b, y ≠ 0 → x / y ∈ r := by
  obtain ⟨-, h⟩ := arithmetic_ok h
  change (if s.isSigned = true then _ else _) = _ at h
  split at h
  · cases h
  rename_i hsig
  have hne : s.kind ≠ .signedInt := fun hk => hsig (isSigned_iff.2 hk)
  have hleast : s.least = 0 := least_of_unsigned hne
  change (if b.hi = 0 then _ else _) = _ at h
  split at h
  · obtain ⟨_, -, h⟩ := Outcome.bind_ok h
    cases h
  rename_i hzero
  have ha0 := ha.least_le
  have hb0 := hb.least_le
  have hla := a.lo_le_hi
  have hlb := b.lo_le_hi
  -- the quotients are monotone in the dividend and antitone in the divisor
  have hquot : ∀ x ∈ a, ∀ y ∈ b, y ≠ 0 →
      a.lo.tdiv b.hi ≤ x / y ∧ x / y ≤ a.hi.tdiv (max b.lo 1) := by
    intro x hx y hy hy0
    obtain ⟨hx1, hx2⟩ := ValueRange.mem_iff.1 hx
    obtain ⟨hy1, hy2⟩ := ValueRange.mem_iff.1 hy
    rw [Int.tdiv_eq_ediv_of_nonneg (by omega), Int.tdiv_eq_ediv_of_nonneg (by omega)]
    exact ediv_mem_corners (by omega) hx1 hx2 (by omega) (by omega) hy2
  have hle := hquot a.lo a.lo_mem b.hi b.hi_mem hzero
  obtain ⟨hof, hl, hh⟩ := of_rangeOf hs (by omega) (Outcome.ofInternal_ok h)
  refine ⟨hof, fun x hx y hy hy0 => ValueRange.mem_iff.2 ?_⟩
  have := hquot x hx y hy hy0
  omega

/-! ### Conversion -/

theorem fits_ok (hs : s.Sized) {f : Bool} (h : s.fits r = .ok f) (hk : s.kind ≠ .void) :
    f = true ↔ s.least ≤ r.lo ∧ r.hi ≤ s.greatest := by
  obtain ⟨o, ho, h⟩ := Outcome.bind_ok h
  rcases fullRange_ok hs ho with ⟨hv, -⟩ | ⟨-, q, rfl, -, hl, hg⟩
  · exact absurd hv hk
  · cases h
    simp only [ValueRange.contains, Bool.and_eq_true, decide_eq_true_eq, hl, hg]

/-- The value that `wrap` picks, as an exact difference. -/
theorem wrap_eq_sub (s : Scalar) (v : Int) :
    s.wrap v = v - s.modulus * ((v - s.least) / s.modulus) := by
  have := Int.emod_add_mul_ediv (v - s.least) s.modulus
  unfold wrap
  omega

theorem holds_wrap (s : Scalar) (v : Int) : s.Holds (s.wrap v) := by
  have h0 := Int.emod_nonneg (v - s.least) (ne_of_gt s.modulus_pos)
  have h1 := Int.emod_lt_of_pos (v - s.least) s.modulus_pos
  unfold Holds wrap modulus at *
  omega

theorem wrap_of_holds {v : Int} (h : s.Holds v) : s.wrap v = v := by
  obtain ⟨h1, h2⟩ := h
  unfold wrap
  rw [Int.emod_eq_of_lt (by omega) (by unfold modulus; omega)]
  omega

/-- **Wrapping is monotone on an interval that wraps as one piece**: less than one modulus long,
with its ends still in order afterwards. -/
theorem wrap_mono_of_piece {l h v : Int} (hspan : h - l < s.modulus) (hord : s.wrap l ≤ s.wrap h)
    (hl : l ≤ v) (hh : v ≤ h) : s.wrap l ≤ s.wrap v ∧ s.wrap v ≤ s.wrap h := by
  have hpos := s.modulus_pos
  have h1 : (l - s.least) / s.modulus ≤ (v - s.least) / s.modulus :=
    Int.ediv_le_ediv hpos (by omega)
  have h2 : (v - s.least) / s.modulus ≤ (h - s.least) / s.modulus :=
    Int.ediv_le_ediv hpos (by omega)
  simp only [wrap_eq_sub] at hord ⊢
  -- the two ends lie in the same period, hence so does everything between them
  have hsame : (h - s.least) / s.modulus = (l - s.least) / s.modulus := by
    by_contra hne
    have hlt : (l - s.least) / s.modulus + 1 ≤ (h - s.least) / s.modulus := by omega
    have hmul := mul_le_mul_of_nonneg_left hlt (le_of_lt hpos)
    rw [mul_add, mul_one] at hmul
    omega
  have hv : (v - s.least) / s.modulus = (l - s.least) / s.modulus := by omega
  rw [hsame, hv]
  omega

/-- **Conversion of ranges is sound** for integers and characters. -/
theorem convert_ok (hs : s.Sized) (hi : s.isIntegral) {q : ValueRange} (h : s.convert r = .ok q) :
    q.Of s ∧ ∀ v ∈ r, s.wrap v ∈ q := by
  have hb : s.kind ≠ .bool := by
    intro hk
    simp [isIntegral, isInteger, hk] at hi
  have hv : s.kind ≠ .void := by
    intro hk
    simp [isIntegral, isInteger, hk] at hi
  unfold convert at h
  rw [if_neg hb] at h
  obtain ⟨f, hf, h⟩ := Outcome.bind_ok h
  split at h
  · rename_i hfit
    have hin := (fits_ok hs hf hv).1 hfit
    obtain ⟨hof, hl, hh⟩ := of_rangeOf hs r.lo_le_hi h
    refine ⟨hof, fun v hvr => ?_⟩
    have hm := ValueRange.mem_iff.1 hvr
    rw [wrap_of_holds ⟨by omega, by omega⟩]
    exact ValueRange.mem_iff.2 (by omega)
  · obtain ⟨_, -, h⟩ := Outcome.bind_ok h
    change (if r.hi - r.lo < s.modulus ∧ s.wrap r.lo ≤ s.wrap r.hi then _ else _) = _ at h
    split at h
    · -- within one period wrapping keeps the order
      rename_i hpiece
      obtain ⟨hof, hl, hh⟩ := of_rangeOf hs hpiece.2 h
      refine ⟨hof, fun v hvr => ValueRange.mem_iff.2 ?_⟩
      have hm := ValueRange.mem_iff.1 hvr
      have := wrap_mono_of_piece hpiece.1 hpiece.2 hm.1 hm.2
      omega
    · obtain ⟨hof, hl, hh⟩ := of_rangeOf hs s.least_le_greatest h
      refine ⟨hof, fun v _ => ValueRange.mem_iff.2 ?_⟩
      have := s.holds_wrap v
      unfold Holds at this
      omega

end Scalar

/-! ### Truth values -/

namespace Comparison

/-- The comparison that holds exactly when `c` does not. -/
def opposite : Comparison → Comparison
  | equal => notEqual
  | notEqual => equal
  | less => greaterOrEqual
  | lessOrEqual => greater
  | greater => lessOrEqual
  | greaterOrEqual => less

theorem holds_opposite (c : Comparison) (x y : Int) : c.opposite.holds x y = !c.holds x y := by
  cases c <;> simp [opposite, holds] <;> grind

/-- **A comparison never holds where its opposite always does**: the two conditions of a comparison
are those of its opposite, exchanged. -/
theorem never_eq (c : Comparison) (a b : ValueRange) : c.never a b = c.opposite.always a b := by
  cases c <;> rfl

/-- What the bounds prove holds of every pair of values. -/
theorem holds_of_always {c : Comparison} {a b : ValueRange} (h : c.always a b) {x y : Int}
    (hx : x ∈ a) (hy : y ∈ b) : c.holds x y = true := by
  have h1 := ValueRange.mem_iff.1 hx
  have h2 := ValueRange.mem_iff.1 hy
  cases c <;>
    simp only [always, verdicts, holds, ValueRange.isSingle, Bool.and_eq_true, Bool.or_eq_true,
      decide_eq_true_eq, beq_iff_eq, bne_iff_ne, ne_eq] at h ⊢ <;> omega

/-- **Comparison of ranges is sound.** -/
theorem holds_mem_range (c : Comparison) {a b : ValueRange} {x y : Int} (hx : x ∈ a) (hy : y ∈ b) :
    truthNumber (c.holds x y) ∈ c.range a b := by
  unfold range
  split
  · rename_i h
    rw [holds_of_always h hx hy]
    decide
  split
  · rename_i h
    rw [never_eq] at h
    have ho := holds_of_always h hx hy
    rw [holds_opposite, Bool.not_eq_true'] at ho
    rw [ho]
    decide
  · cases c.holds x y <;> decide

theorem of_range (c : Comparison) (a b : ValueRange) {s : Scalar} (hk : s.kind = .bool) :
    (c.range a b).Of s := by
  unfold range
  split
  · exact ValueRange.of_bool hk rfl (by decide) (by decide)
  split
  · exact ValueRange.of_bool hk rfl (by decide) (by decide)
  · exact ValueRange.of_bool hk rfl (by decide) (by decide)

end Comparison

namespace ValueRange

variable {a b r : ValueRange} {s : Scalar}

theorem of_ofBool (v : Bool) (hk : s.kind = .bool) : (ofBool v).Of s := by
  cases v <;> exact of_bool hk rfl (by decide) (by decide)

/-- **Negation of ranges is sound.** -/
theorem logicalNot_ok (hk : s.kind = .bool) (ha : a.Of s) (h : a.logicalNot = .ok r) :
    r.Of s ∧ ∀ x ∈ a, 1 - x ∈ r := by
  obtain ⟨-, h0, h1⟩ := Scalar.bounds_of_bool hk
  have hl := ha.least_le
  have hg := ha.le_greatest
  unfold logicalNot at h
  split at h
  · cases h
    refine ⟨of_bool hk rfl ?_ ?_, fun x hx => ?_⟩
    · show 0 ≤ 1 - a.hi
      omega
    · show 1 - a.lo ≤ 1
      omega
    · have hm := mem_iff.1 hx
      exact mem_iff.2 ⟨show 1 - a.hi ≤ 1 - x by omega, show 1 - x ≤ 1 - a.lo by omega⟩
  · cases h

/-- **The hull contains both ranges.** -/
theorem hull_ok (h : a.hull b = .ok r) :
    (∀ v ∈ a, v ∈ r) ∧ (∀ v ∈ b, v ∈ r) ∧ ∀ s, a.Of s → b.Of s → r.Of s := by
  unfold hull at h
  split at h
  · cases h
    refine ⟨fun v hv => ?_, fun v hv => ?_, fun s ha hb => ⟨ha.signedness, ?_, ?_⟩⟩
    · have hm := mem_iff.1 hv
      exact mem_iff.2 ⟨show min a.lo b.lo ≤ v by omega, show v ≤ max a.hi b.hi by omega⟩
    · have hm := mem_iff.1 hv
      exact mem_iff.2 ⟨show min a.lo b.lo ≤ v by omega, show v ≤ max a.hi b.hi by omega⟩
    · have h1 := ha.least_le
      have h2 := hb.least_le
      show s.least ≤ min a.lo b.lo
      omega
    · have h1 := ha.le_greatest
      have h2 := hb.le_greatest
      show max a.hi b.hi ≤ s.greatest
      omega
  · cases h

end ValueRange

/-! ### Operations -/

/-- The operation is one of the scalar `t`: a comparison if `t` is the scalar of truth values, and
arithmetic of the signedness of `t` on ranges of `t` otherwise. -/
def BinaryOperation.FitsResult (op : BinaryOperation) (t : Scalar) (a b : ValueRange) : Prop :=
  (op.comparison?.isSome ∧ t.kind = .bool) ∨
    (op.comparison? = none ∧ op.signedness? = some t.signedness ∧ a.Of t ∧ b.Of t)

/-- **The range rules of all operations are sound.** -/
theorem BinaryOperation.range_ok {op : BinaryOperation} {t : Scalar} {a b r : ValueRange}
    (hs : t.Sized) (hop : op.FitsResult t a b) (h : op.range t a b = .ok r) :
    r.Of t ∧ ∀ x ∈ a, ∀ y ∈ b, ∀ z, op.apply t x y = some z → z ∈ r := by
  rcases hop with ⟨hc, hk⟩ | ⟨hc, hg, ha, hb⟩
  · -- all comparisons give truth values in the same way
    have key : ∀ c : Comparison, .ok (c.range a b) = op.range t a b →
        (∀ x y, op.apply t x y = some (truthNumber (c.holds x y))) →
        r.Of t ∧ ∀ x ∈ a, ∀ y ∈ b, ∀ z, op.apply t x y = some z → z ∈ r := by
      intro c hr happ
      rw [h] at hr
      cases hr
      refine ⟨c.of_range a b hk, fun x hx y hy z hz => ?_⟩
      rw [happ] at hz
      cases hz
      exact c.holds_mem_range hx hy
    cases op with
    | plus g | minus g | multiply g | divideUnsigned => simp [comparison?] at hc
    | equals => exact key .equal rfl fun _ _ => rfl
    | notEquals => exact key .notEqual rfl fun _ _ => rfl
    | lessThan g => exact key .less rfl fun _ _ => rfl
    | lessThanOrEqual g => exact key .lessOrEqual rfl fun _ _ => rfl
    | greaterThan g => exact key .greater rfl fun _ _ => rfl
    | greaterThanOrEqual g => exact key .greaterOrEqual rfl fun _ _ => rfl
  · cases op with
    | plus g =>
      cases hg
      exact Scalar.plus_ok hs h
    | minus g =>
      cases hg
      exact Scalar.minus_ok hs h
    | multiply g =>
      cases hg
      exact Scalar.times_ok hs ha hb h
    | divideUnsigned =>
      obtain ⟨hof, hmem⟩ := Scalar.dividedBy_ok hs ha hb h
      refine ⟨hof, fun x hx y hy z hz => ?_⟩
      rw [apply] at hz
      split at hz
      · cases hz
      · cases hz
        exact hmem x hx y hy (by assumption)
    | equals | notEquals | lessThan g | lessThanOrEqual g | greaterThan g | greaterThanOrEqual g =>
      simp [comparison?] at hc

end RangeTyping
