import Mathlib
import RangeTyping.Proofs.Intact.Basic
import RangeTyping.Proofs.Range.Soundness

/-!
# The range rules break no invariant

On ranges that belong to their scalars every range rule has a result: a range of its scalar, or
undefined behaviour whose range collapses to a point of that scalar (`Scalar.Yields`).  Conversions,
hulls and negations have no undefined behaviour and always give a range.
-/

namespace RangeTyping

namespace Scalar

variable {s : Scalar} {a b r : ValueRange} {lo hi : Int}

/-! ### Full ranges and conversions -/

/-- Every scalar has a full range, or no values. -/
theorem fullRange_total (hs : s.kind ≠ .void → s.Sized) : ∃ o, s.fullRange = .ok o := by
  have hrange : s.kind ≠ .void → ∃ o, some <$> s.rangeOf s.least s.greatest = .ok o := by
    intro hv
    obtain ⟨r, hr, -⟩ := rangeOf_of_le (hs hv) hv le_rfl s.least_le_greatest le_rfl
    rw [hr]
    exact ⟨some r, rfl⟩
  unfold fullRange
  split
  · exact ⟨_, rfl⟩
  · exact ⟨_, rfl⟩
  all_goals
    rename_i hk
    exact hrange (by simp [hk])

theorem hasValue_total (hs : s.kind ≠ .void → s.Sized) (v : Int) : ∃ f, s.hasValue v = .ok f := by
  obtain ⟨o, ho⟩ := fullRange_total hs
  rw [hasValue, ho]
  cases o <;> exact ⟨_, rfl⟩

theorem fits_total (hs : s.kind ≠ .void → s.Sized) (r : ValueRange) : ∃ f, s.fits r = .ok f := by
  obtain ⟨o, ho⟩ := fullRange_total hs
  rw [fits, ho]
  cases o <;> exact ⟨_, rfl⟩

/-- **Every range can be converted** to a scalar with values. -/
theorem convert_total (hs : s.Sized) (hv : s.kind ≠ .void) (r : ValueRange) :
    ∃ q, s.convert r = .ok q := by
  have hrange : ∀ {lo hi : Int}, s.least ≤ lo → lo ≤ hi → hi ≤ s.greatest →
      ∃ q, s.rangeOf lo hi = .ok q := by
    intro lo hi hlo hle hhi
    obtain ⟨q, hq, -⟩ := rangeOf_of_le hs hv hlo hle hhi
    exact ⟨q, hq⟩
  have hle := r.lo_le_hi
  unfold convert
  split
  · rename_i hk
    obtain ⟨-, h0, h1⟩ := bounds_of_bool hk
    by_cases hzero : (0 : Int) ∈ r
    · rw [if_pos hzero]
      exact hrange (by omega) (by split_ifs <;> omega) (by split_ifs <;> omega)
    · -- where zero is no value, it is not the only one
      have hother : ¬ (r.lo = 0 ∧ r.hi = 0) := fun h => hzero (ValueRange.mem_iff.2 (by omega))
      rw [if_neg hzero, if_neg hother]
      exact hrange (by omega) le_rfl (by omega)
  · obtain ⟨f, hf⟩ := fits_total (fun _ => hs) r
    rw [hf]
    cases f with
    | true =>
      obtain ⟨h1, h2⟩ := (fits_ok hs hf hv).1 rfl
      exact hrange h1 hle h2
    | false =>
      rw [hs.checkBounds hv]
      show ∃ q, (if r.hi - r.lo < s.modulus ∧ s.wrap r.lo ≤ s.wrap r.hi then
        s.rangeOf (s.wrap r.lo) (s.wrap r.hi) else s.rangeOf s.least s.greatest) = Except.ok q
      split
      · rename_i hpiece
        exact hrange (s.holds_wrap r.lo).1 hpiece.2 (s.holds_wrap r.hi).2
      · exact hrange le_rfl s.least_le_greatest le_rfl

/-! ### Settling -/

/-- The outcome is a range of the scalar, or undefined behaviour that collapses to one. -/
def Yields (s : Scalar) : Outcome UndefinedBehavior ValueRange → Prop
  | .ok r => r.Of s
  | .error (.error u) => u.collapsed.Of s
  | .error (.internal _) => False

theorem yields_rangeOf (hs : s.Sized) (hv : s.kind ≠ .void) (hlo : s.least ≤ lo) (hle : lo ≤ hi)
    (hhi : hi ≤ s.greatest) : s.Yields (Outcome.ofInternal (s.rangeOf lo hi)) := by
  obtain ⟨r, hr, -⟩ := rangeOf_of_le hs hv hlo hle hhi
  rw [hr]
  exact (of_rangeOf hs hle hr).1

theorem yields_undefinedAt (hs : s.Sized) (hv : s.kind ≠ .void) (kind : UndefinedKind)
    (hlo : s.least ≤ lo) (hhi : lo ≤ s.greatest) : s.Yields (s.undefinedAt kind lo) := by
  obtain ⟨r, hr, -⟩ := rangeOf_of_le hs hv hlo le_rfl hhi
  rw [undefinedAt, hr]
  exact (of_rangeOf hs le_rfl hr).1

theorem ne_void_of_isInteger (h : s.isInteger = true) : s.kind ≠ .void := by
  intro hk
  simp [isInteger, hk] at h

/-- What is not signed counts from zero. -/
theorem bounds_of_not_signed (hsig : ¬ s.isSigned = true) :
    s.least = 0 ∧ s.modulus = s.greatest + 1 := by
  have hne : s.kind ≠ .signedInt := fun hk => hsig (isSigned_iff.2 hk)
  have hleast := least_of_unsigned hne
  refine ⟨hleast, ?_⟩
  unfold modulus
  omega

theorem yields_settleSigned (hs : s.Sized) (hv : s.kind ≠ .void) (hle : lo ≤ hi) :
    s.Yields (s.settleSigned lo hi) := by
  have hlg := s.least_le_greatest
  unfold settleSigned
  split
  · exact yields_undefinedAt hs hv _ hlg le_rfl
  split
  · exact yields_undefinedAt hs hv _ le_rfl hlg
  · exact yields_rangeOf hs hv (by omega) (by omega) (by omega)

theorem yields_settle (hs : s.Sized) (hint : s.isInteger = true) (hle : lo ≤ hi) :
    s.Yields (s.settle lo hi) := by
  have hv := ne_void_of_isInteger hint
  unfold settle
  split
  · exact yields_settleSigned hs hv hle
  · rename_i hsig
    obtain ⟨h0, hmod⟩ := bounds_of_not_signed hsig
    show s.Yields (Outcome.ofInternal (s.settleUnsigned lo hi))
    unfold settleUnsigned
    split
    · exact yields_rangeOf hs hv (by omega) hle (by omega)
    split
    · exact yields_rangeOf hs hv (by omega) (by omega) (by omega)
    split
    · exact yields_rangeOf hs hv (by omega) (by omega) (by omega)
    · exact yields_rangeOf hs hv le_rfl s.least_le_greatest le_rfl

/-! ### The four operations -/

/-- Integers pass the check for arithmetic. -/
theorem bind_checkArithmetic (hint : s.isInteger = true)
    (f : Unit → Outcome UndefinedBehavior ValueRange) :
    (liftM s.checkArithmetic >>= f) = f () := by
  have hcheck : s.checkArithmetic = .ok () := by simp [checkArithmetic, hint]
  rw [hcheck]
  rfl

theorem yields_plus (hs : s.Sized) (hint : s.isInteger = true) (a b : ValueRange) :
    s.Yields (s.plus a b) := by
  rw [plus, bind_checkArithmetic hint]
  have hla := a.lo_le_hi
  have hlb := b.lo_le_hi
  exact yields_settle hs hint (by omega)

theorem yields_minus (hs : s.Sized) (hint : s.isInteger = true) (a b : ValueRange) :
    s.Yields (s.minus a b) := by
  rw [minus, bind_checkArithmetic hint]
  have hla := a.lo_le_hi
  have hlb := b.lo_le_hi
  exact yields_settle hs hint (by omega)

theorem productBounds_le (a b : ValueRange) : (productBounds a b).1 ≤ (productBounds a b).2 := by
  unfold productBounds
  dsimp only
  omega

/-- Products of ranges without negative values have no negative values. -/
theorem productBounds_nonneg (ha : 0 ≤ a.lo) (hb : 0 ≤ b.lo) : 0 ≤ (productBounds a b).1 := by
  have hla := a.lo_le_hi
  have hlb := b.lo_le_hi
  have hnn : ∀ x y : Int, 0 ≤ x → 0 ≤ y → 0 ≤ saturate (x * y) := by
    intro x y hx hy
    have := mul_nonneg hx hy
    unfold saturate
    omega
  have hll := hnn a.lo b.lo ha hb
  have hlh := hnn a.lo b.hi ha (by omega)
  have hhl := hnn a.hi b.lo (by omega) hb
  have hhh := hnn a.hi b.hi (by omega) (by omega)
  unfold productBounds
  dsimp only
  omega

theorem yields_times (hs : s.Sized) (hint : s.isInteger = true) (ha : a.Of s) (hb : b.Of s) :
    s.Yields (s.times a b) := by
  have hv := ne_void_of_isInteger hint
  have hle := productBounds_le a b
  rw [times, bind_checkArithmetic hint]
  show s.Yields (if s.isSigned = true then s.settleSigned (productBounds a b).1 (productBounds a b).2
    else if (productBounds a b).2 ≤ s.greatest then
      Outcome.ofInternal (s.rangeOf (productBounds a b).1 (productBounds a b).2)
    else Outcome.ofInternal (s.rangeOf s.least s.greatest))
  split
  · exact yields_settleSigned hs hv hle
  · rename_i hsig
    obtain ⟨h0, -⟩ := bounds_of_not_signed hsig
    have ha0 := ha.least_le
    have hb0 := hb.least_le
    have hnn := @productBounds_nonneg a b (by omega) (by omega)
    split
    · rename_i hg
      exact yields_rangeOf hs hv (by omega) hle hg
    · exact yields_rangeOf hs hv le_rfl s.least_le_greatest le_rfl

theorem yields_dividedBy (hs : s.Sized) (hint : s.isInteger = true) (hsig : ¬ s.isSigned = true)
    (ha : a.Of s) (hb : b.Of s) : s.Yields (s.dividedBy a b) := by
  have hv := ne_void_of_isInteger hint
  obtain ⟨h0, -⟩ := bounds_of_not_signed hsig
  rw [dividedBy, bind_checkArithmetic hint, if_neg hsig]
  show s.Yields (if b.hi = 0 then _ else _)
  split
  · exact yields_undefinedAt hs hv _ s.least_le_greatest le_rfl
  · rename_i hzero
    have ha0 := ha.least_le
    have hb0 := hb.least_le
    have hag := ha.le_greatest
    have hla := a.lo_le_hi
    have hlb := b.lo_le_hi
    -- the least divisor that counts is one, so that no quotient exceeds its dividend
    have hquot : a.hi / max b.lo 1 ≤ a.hi := Int.ediv_le_self _ (by omega)
    refine yields_rangeOf hs hv ?_ ?_ ?_
    · rw [h0, Int.tdiv_eq_ediv_of_nonneg (by omega)]
      exact Int.ediv_nonneg (by omega) (by omega)
    · rw [Int.tdiv_eq_ediv_of_nonneg (by omega), Int.tdiv_eq_ediv_of_nonneg (by omega)]
      calc a.lo / b.hi ≤ a.lo / max b.lo 1 := ediv_antitone (by omega) (by omega) (by omega)
        _ ≤ a.hi / max b.lo 1 := Int.ediv_le_ediv (by omega) hla
    · rw [Int.tdiv_eq_ediv_of_nonneg (by omega)]
      omega

end Scalar

/-! ### Operations, negation and hulls -/

/-- **The range rule of an operation has a result** on ranges that it applies to. -/
theorem BinaryOperation.yields_range {op : BinaryOperation} {t : Scalar} {a b : ValueRange}
    (hs : t.Sized) (hint : op.comparison? = none → t.isInteger = true)
    (hop : op.FitsResult t a b) : t.Yields (op.range t a b) := by
  rcases hop with ⟨hc, hk⟩ | ⟨hc, hg, ha, hb⟩
  · cases op with
    | plus g | minus g | multiply g | divideUnsigned => simp [comparison?] at hc
    | equals | notEquals | lessThan g | lessThanOrEqual g | greaterThan g
    | greaterThanOrEqual g => exact Comparison.of_range _ a b hk
  · cases op with
    | plus g => exact Scalar.yields_plus hs (hint hc) a b
    | minus g => exact Scalar.yields_minus hs (hint hc) a b
    | multiply g => exact Scalar.yields_times hs (hint hc) ha hb
    | divideUnsigned =>
      refine Scalar.yields_dividedBy hs (hint hc) (fun hsig => ?_) ha hb
      rw [Scalar.signedness_of_signed (Scalar.isSigned_iff.1 hsig)] at hg
      cases hg
    | equals | notEquals | lessThan g | lessThanOrEqual g | greaterThan g | greaterThanOrEqual g =>
      simp [comparison?] at hc

namespace ValueRange

variable {a b : ValueRange} {s : Scalar}

/-- A range of truth values can be negated. -/
theorem logicalNot_total (hk : s.kind = .bool) (ha : a.Of s) : ∃ r, a.logicalNot = .ok r := by
  obtain ⟨hu, -, h1⟩ := Scalar.bounds_of_bool hk
  have hg := ha.le_greatest
  have hbool : a.signedness = .unsigned ∧ a.hi ≤ 1 := ⟨ha.signedness.trans hu, by omega⟩
  rw [logicalNot, dif_pos hbool]
  exact ⟨_, rfl⟩

/-- Ranges of one scalar have a hull. -/
theorem hull_total (ha : a.Of s) (hb : b.Of s) : ∃ r, a.hull b = .ok r := by
  rw [hull, dif_pos (ha.signedness.trans hb.signedness.symm)]
  exact ⟨_, rfl⟩

end ValueRange

end RangeTyping
