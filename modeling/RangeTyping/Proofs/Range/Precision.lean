import Mathlib
import RangeTyping.Proofs.Intact.Range

/-!
# Sums, differences and quotients have the best possible ranges

The range of a sum or of a difference is not only sound, it is the smallest one that contains every
defined result (`ValueRange.Smallest`), and it is refused exactly where no result is defined
(`Scalar.Faults`).  The same holds of quotients, so the three rules are the best possible ones
(`Scalar.settles_arithmetic`).

Sums and differences of the numbers of two ranges are all the numbers between two bounds, and
`Scalar.settle` brings such an interval into a scalar without loss (`settles_settle`).  A signed
interval is cut to the scalar and is still an interval.  An unsigned one lies in the scalar or right
beside it and keeps its length, unless it straddles a bound; in this case both the least and the
greatest value are among the results.

A quotient is least for the least dividend and the greatest divisor, and greatest for the greatest
dividend and the least divisor that is not zero.
-/

namespace RangeTyping

/-! ### Smallest ranges -/

/-- **The range is the smallest one that contains the numbers**, whatever representation the others
have. -/
structure ValueRange.Smallest (r : ValueRange) (numbers : Set Int) : Prop where
  mem : ∀ v ∈ numbers, v ∈ r
  contains : ∀ q : ValueRange, (∀ v ∈ numbers, v ∈ q) → q.contains r = true

/-- A range is the smallest one if its bounds are among the numbers. -/
theorem ValueRange.smallest_of_bounds {r : ValueRange} {numbers : Set Int}
    (hmem : ∀ v ∈ numbers, v ∈ r) (hlo : r.lo ∈ numbers) (hhi : r.hi ∈ numbers) :
    r.Smallest numbers := by
  refine ⟨hmem, fun q hq => ?_⟩
  have hl := mem_iff.1 (hq _ hlo)
  have hh := mem_iff.1 (hq _ hhi)
  simp only [contains, Bool.and_eq_true, decide_eq_true_eq]
  omega

/-- The range is the point `v` of the scalar. -/
structure ValueRange.IsPoint (r : ValueRange) (s : Scalar) (v : Int) : Prop where
  signedness : r.signedness = s.signedness
  lo : r.lo = v
  hi : r.hi = v

namespace Scalar

variable {s : Scalar} {a b r : ValueRange} {lo hi v : Int} {results : Set Int}
  {o : Outcome UndefinedBehavior ValueRange}

/-! ### Defined results -/

theorem reduce_of_signed (hsig : s.isSigned = true) :
    s.signedness.reduce s v = if s.Holds v then some v else none := by
  rw [signedness_of_signed (isSigned_iff.1 hsig), Signedness.reduce]

theorem reduce_of_unsigned (hs : s.Sized) (hint : s.isInteger = true)
    (hsig : ¬ s.isSigned = true) : s.signedness.reduce s v = some (v % s.modulus) := by
  have hne : s.kind ≠ .signedInt := fun hk => hsig (isSigned_iff.2 hk)
  rw [signedness_of_unsigned hne, Signedness.reduce, hs.modulus_eq (by simp [isIntegral, hint])]

/-- What the exact results become in the scalar, as far as they are defined there. -/
def reduced (s : Scalar) (results : Set Int) : Set Int :=
  {z | ∃ v ∈ results, s.signedness.reduce s v = some z}

theorem mem_reduced_of_signed (hsig : s.isSigned = true) :
    v ∈ s.reduced results ↔ v ∈ results ∧ s.Holds v := by
  constructor
  · rintro ⟨w, hw, hz⟩
    rw [reduce_of_signed hsig] at hz
    split at hz
    · rename_i hin
      cases hz
      exact ⟨hw, hin⟩
    · cases hz
  · rintro ⟨hv, hin⟩
    exact ⟨v, hv, by rw [reduce_of_signed hsig, if_pos hin]⟩

/-- **The outcome is undefined exactly where no result is defined**, and then it names the side on
which all of them leave the scalar; its range collapses to the bound on that side. -/
structure Faults (s : Scalar) (results : Set Int) (o : Outcome UndefinedBehavior ValueRange) :
    Prop where
  undefined_iff : (∃ u, o = Outcome.fail u) ↔ ∀ v ∈ results, s.signedness.reduce s v = none
  sides : (∃ u, o = Outcome.fail u) →
    (∀ v ∈ results, s.greatest < v) ∨ ∀ v ∈ results, v < s.least
  overflow : s.isSigned = true → (∀ v ∈ results, s.greatest < v) →
    ∃ p : ValueRange, p.IsPoint s s.greatest ∧ o = Outcome.fail ⟨.overflow, p⟩
  underflow : s.isSigned = true → (∀ v ∈ results, v < s.least) →
    ∃ p : ValueRange, p.IsPoint s s.least ∧ o = Outcome.fail ⟨.underflow, p⟩

/-- **The outcome is the best possible one**: undefined where it has to be, and otherwise the smallest
range of the scalar that contains every defined result. -/
structure Settles (s : Scalar) (results : Set Int) (o : Outcome UndefinedBehavior ValueRange) :
    Prop extends s.Faults results o where
  smallest : (s.reduced results).Nonempty →
    ∃ r, o = .ok r ∧ r.Of s ∧ r.Smallest (s.reduced results)

/-- A range is right where some result is defined. -/
theorem faults_ok (h : (s.reduced results).Nonempty) : s.Faults results (.ok r) := by
  obtain ⟨z, hz⟩ := h
  have hmem : s.isSigned = true → z ∈ results ∧ s.Holds z := fun hsig =>
    (mem_reduced_of_signed hsig).1 hz
  have hok : ¬ ∃ u, (.ok r : Outcome UndefinedBehavior ValueRange) = Outcome.fail u := by
    rintro ⟨u, hu⟩
    cases hu
  refine ⟨⟨fun h => absurd h hok, fun hnone => ?_⟩, fun h => absurd h hok, fun hsig habove => ?_,
    fun hsig hbelow => ?_⟩
  · obtain ⟨v, hv, hz⟩ := hz
    rw [hnone v hv] at hz
    cases hz
  · exact absurd (habove z (hmem hsig).1) (hmem hsig).2.2.not_gt
  · exact absurd (hbelow z (hmem hsig).1) (hmem hsig).2.1.not_gt

/-- Undefined behaviour collapses to the point it is given. -/
theorem undefinedAt_eq (hs : s.Sized) (hv : s.kind ≠ .void) (kind : UndefinedKind)
    (h : s.Holds v) :
    ∃ p : ValueRange, p.IsPoint s v ∧ s.undefinedAt kind v = Outcome.fail ⟨kind, p⟩ := by
  obtain ⟨p, hp, hsig, hlo, hhi⟩ := rangeOf_of_le hs hv h.1 le_rfl h.2
  refine ⟨p, ⟨hsig, hlo, hhi⟩, ?_⟩
  rw [undefinedAt, hp]
  rfl

/-- Overflow is right where all results are too large. -/
theorem faults_overflow (hs : s.Sized) (hsig : s.isSigned = true) (hsome : results.Nonempty)
    (h : ∀ v ∈ results, s.greatest < v) : s.Faults results (s.undefinedAt .overflow s.greatest) := by
  have hlg := s.least_le_greatest
  have hv : s.kind ≠ .void := by simp [isSigned_iff.1 hsig]
  obtain ⟨p, hp, ho⟩ := undefinedAt_eq hs hv .overflow ⟨hlg, le_rfl⟩
  obtain ⟨v, hexact⟩ := hsome
  rw [ho]
  refine ⟨⟨fun _ w hw => ?_, fun _ => ⟨_, rfl⟩⟩, fun _ => .inl h, fun _ _ => ⟨p, hp, rfl⟩,
    fun _ hbelow => ?_⟩
  · rw [reduce_of_signed hsig, if_neg fun hin => absurd (h w hw) hin.2.not_gt]
  · have h1 := h v hexact
    have h2 := hbelow v hexact
    omega

/-- Underflow is right where all results are too small. -/
theorem faults_underflow (hs : s.Sized) (hsig : s.isSigned = true) (hsome : results.Nonempty)
    (h : ∀ v ∈ results, v < s.least) : s.Faults results (s.undefinedAt .underflow s.least) := by
  have hlg := s.least_le_greatest
  have hv : s.kind ≠ .void := by simp [isSigned_iff.1 hsig]
  obtain ⟨p, hp, ho⟩ := undefinedAt_eq hs hv .underflow ⟨le_rfl, hlg⟩
  obtain ⟨v, hexact⟩ := hsome
  rw [ho]
  refine ⟨⟨fun _ w hw => ?_, fun _ => ⟨_, rfl⟩⟩, fun _ => .inr h, fun _ habove => ?_,
    fun _ _ => ⟨p, hp, rfl⟩⟩
  · rw [reduce_of_signed hsig, if_neg fun hin => absurd (h w hw) hin.1.not_gt]
  · have h1 := h v hexact
    have h2 := habove v hexact
    omega

/-- Where all results leave the scalar on one side, no range is looked for. -/
theorem Faults.settles (h : s.Faults results o) (hsig : s.isSigned = true)
    (hout : ∀ v ∈ results, ¬ s.Holds v) : s.Settles results o := by
  refine ⟨h, ?_⟩
  rintro ⟨z, hz⟩
  obtain ⟨hmem, hin⟩ := (mem_reduced_of_signed hsig).1 hz
  exact absurd hin (hout z hmem)

/-- A range of the scalar settles the results if its bounds are among them. -/
theorem settles_ok (hof : r.Of s) (hmem : ∀ z ∈ s.reduced results, z ∈ r)
    (hlo : r.lo ∈ s.reduced results) (hhi : r.hi ∈ s.reduced results) : s.Settles results (.ok r) :=
  ⟨faults_ok ⟨r.lo, hlo⟩, fun _ => ⟨r, rfl, hof, ValueRange.smallest_of_bounds hmem hlo hhi⟩⟩

/-- The range between two bounds of the scalar settles the results if they are among these. -/
theorem settles_rangeOf (hs : s.Sized) (hv : s.kind ≠ .void) (hle : lo ≤ hi) (hl : s.least ≤ lo)
    (hg : hi ≤ s.greatest) (hmem : ∀ z ∈ s.reduced results, lo ≤ z ∧ z ≤ hi)
    (hlo : lo ∈ s.reduced results) (hhi : hi ∈ s.reduced results) :
    s.Settles results (Outcome.ofInternal (s.rangeOf lo hi)) := by
  obtain ⟨r, hr, -⟩ := rangeOf_of_le hs hv hl hle hg
  obtain ⟨hof, rfl, rfl⟩ := of_rangeOf hs hle hr
  rw [hr]
  exact settles_ok hof hmem hlo hhi

/-! ### Settling an interval -/

theorem settles_settleSigned (hs : s.Sized) (hsig : s.isSigned = true) (hle : lo ≤ hi) :
    s.Settles (Set.Icc lo hi) (s.settleSigned lo hi) := by
  have hlg := s.least_le_greatest
  have hv : s.kind ≠ .void := by simp [isSigned_iff.1 hsig]
  have hsome : (Set.Icc lo hi).Nonempty := Set.nonempty_Icc.2 hle
  unfold settleSigned
  split
  · rename_i habove
    have hall : ∀ v ∈ Set.Icc lo hi, s.greatest < v := fun v hv => habove.trans_le hv.1
    exact (faults_overflow hs hsig hsome hall).settles hsig fun v hv hin =>
      absurd (hall v hv) hin.2.not_gt
  split
  · rename_i hbelow
    have hall : ∀ v ∈ Set.Icc lo hi, v < s.least := fun v hv => hv.2.trans_lt hbelow
    exact (faults_underflow hs hsig hsome hall).settles hsig fun v hv hin =>
      absurd (hall v hv) hin.1.not_gt
  · -- some of it is held, and the scalar cuts off the rest
    have hmem : ∀ z, z ∈ s.reduced (Set.Icc lo hi) ↔ max lo s.least ≤ z ∧ z ≤ min hi s.greatest := by
      intro z
      rw [mem_reduced_of_signed hsig, Set.mem_Icc, Holds]
      omega
    apply settles_rangeOf hs hv (by omega) (by omega) (by omega) fun z hz => (hmem z).1 hz
    · exact (hmem _).2 (by omega)
    · exact (hmem _).2 (by omega)

theorem mem_reduced_of_unsigned (hs : s.Sized) (hint : s.isInteger = true)
    (hsig : ¬ s.isSigned = true) : v ∈ s.reduced results ↔ ∃ w ∈ results, w % s.modulus = v := by
  simp only [reduced, Set.mem_ofPred_eq, reduce_of_unsigned hs hint hsig, Option.some.injEq]

/-- An interval that lies in the scalar after a shift by some moduli is settled by the shifted
one. -/
theorem settles_shifted (hs : s.Sized) (hint : s.isInteger = true) (hsig : ¬ s.isSigned = true)
    (k : Int) (hle : lo ≤ hi) (hlo : 0 ≤ lo + s.modulus * k) (hhi : hi + s.modulus * k < s.modulus) :
    s.Settles (Set.Icc lo hi)
      (Outcome.ofInternal (s.rangeOf (lo + s.modulus * k) (hi + s.modulus * k))) := by
  obtain ⟨h0, hmod⟩ := bounds_of_not_signed hsig
  have hshift : ∀ v, lo ≤ v → v ≤ hi → v % s.modulus = v + s.modulus * k := by
    intro v h1 h2
    rw [← Int.add_mul_emod_self_left v s.modulus k]
    exact Int.emod_eq_of_lt (by omega) (by omega)
  apply settles_rangeOf hs (ne_void_of_isInteger hint) (by omega) (by omega) (by omega)
  · intro z hz
    obtain ⟨v, ⟨h1, h2⟩, rfl⟩ := (mem_reduced_of_unsigned hs hint hsig).1 hz
    rw [hshift v h1 h2]
    omega
  · exact (mem_reduced_of_unsigned hs hint hsig).2 ⟨lo, ⟨le_rfl, hle⟩, hshift lo le_rfl hle⟩
  · exact (mem_reduced_of_unsigned hs hint hsig).2 ⟨hi, ⟨hle, le_rfl⟩, hshift hi hle le_rfl⟩

/-- An interval that goes over a multiple of the modulus leaves no value out between the least and
the greatest one, both of which it has. -/
theorem settles_straddling (hs : s.Sized) (hint : s.isInteger = true) (hsig : ¬ s.isSigned = true)
    (k : Int) (hlo : lo < s.modulus * k) (hhi : s.modulus * k ≤ hi) :
    s.Settles (Set.Icc lo hi) (Outcome.ofInternal (s.rangeOf s.least s.greatest)) := by
  obtain ⟨h0, hmod⟩ := bounds_of_not_signed hsig
  have hpos := s.modulus_pos
  apply settles_rangeOf hs (ne_void_of_isInteger hint) s.least_le_greatest le_rfl le_rfl
  · intro z hz
    obtain ⟨v, -, rfl⟩ := (mem_reduced_of_unsigned hs hint hsig).1 hz
    have h1 := Int.emod_nonneg v hpos.ne'
    have h2 := Int.emod_lt_of_pos v hpos
    omega
  · refine (mem_reduced_of_unsigned hs hint hsig).2 ⟨s.modulus * k, ⟨hlo.le, hhi⟩, ?_⟩
    rw [Int.mul_emod_right, h0]
  · refine (mem_reduced_of_unsigned hs hint hsig).2 ⟨s.modulus * k - 1, ⟨by omega, by omega⟩, ?_⟩
    rw [show s.modulus * k - 1 = s.greatest + s.modulus * (k - 1) by rw [mul_sub]; omega,
      Int.add_mul_emod_self_left]
    exact Int.emod_eq_of_lt (by omega) (by omega)

/-- **Settling loses nothing**: an interval becomes the smallest range that contains what its numbers
become, if it is not farther from an unsigned scalar than one modulus. -/
theorem settles_settle (hs : s.Sized) (hint : s.isInteger = true) (hle : lo ≤ hi)
    (hnear : ¬ s.isSigned = true → -s.modulus ≤ lo ∧ hi < 2 * s.modulus) :
    s.Settles (Set.Icc lo hi) (s.settle lo hi) := by
  unfold settle
  split
  · rename_i hsig
    exact settles_settleSigned hs hsig hle
  · rename_i hsig
    obtain ⟨h0, hmod⟩ := bounds_of_not_signed hsig
    obtain ⟨hlo, hhi⟩ := hnear hsig
    show s.Settles _ (Outcome.ofInternal (s.settleUnsigned lo hi))
    unfold settleUnsigned
    split
    · -- within the scalar
      have h := settles_shifted hs hint hsig 0 hle (by omega) (by omega)
      simpa using h
    split
    · -- above it, by at most one modulus
      have h := settles_shifted hs hint hsig (-1) hle (by omega) (by omega)
      simpa [sub_eq_add_neg] using h
    split
    · -- below it, by at most one modulus
      have h := settles_shifted hs hint hsig 1 hle (by omega) (by omega)
      simpa using h
    · -- the interval has both -1 and 0, or both the greatest value and the next number
      by_cases hneg : lo < 0
      · exact settles_straddling hs hint hsig 0 (by omega) (by omega)
      · exact settles_straddling hs hint hsig 1 (by omega) (by omega)

/-! ### The three operations -/

/-- The range lies in the scalar. -/
theorem bounds_of_fits (hs : s.Sized) (hint : s.isInteger = true) (h : s.fits a = .ok true) :
    s.least ≤ a.lo ∧ a.hi ≤ s.greatest :=
  (fits_ok hs h (ne_void_of_isInteger hint)).1 rfl

theorem sums_eq (a b : ValueRange) :
    {v | ∃ x ∈ a, ∃ y ∈ b, x + y = v} = Set.Icc (a.lo + b.lo) (a.hi + b.hi) := by
  have hla := a.lo_le_hi
  have hlb := b.lo_le_hi
  ext v
  constructor
  · rintro ⟨x, hx, y, hy, rfl⟩
    have h1 := ValueRange.mem_iff.1 hx
    have h2 := ValueRange.mem_iff.1 hy
    exact ⟨by omega, by omega⟩
  · rintro ⟨h1, h2⟩
    -- the second summand is as small as the first one allows
    refine ⟨min a.hi (v - b.lo), ValueRange.mem_iff.2 (by omega), v - min a.hi (v - b.lo),
      ValueRange.mem_iff.2 (by omega), by omega⟩

theorem differences_eq (a b : ValueRange) :
    {v | ∃ x ∈ a, ∃ y ∈ b, x - y = v} = Set.Icc (a.lo - b.hi) (a.hi - b.lo) := by
  have hla := a.lo_le_hi
  have hlb := b.lo_le_hi
  ext v
  constructor
  · rintro ⟨x, hx, y, hy, rfl⟩
    have h1 := ValueRange.mem_iff.1 hx
    have h2 := ValueRange.mem_iff.1 hy
    exact ⟨by omega, by omega⟩
  · rintro ⟨h1, h2⟩
    refine ⟨min a.hi (v + b.hi), ValueRange.mem_iff.2 (by omega), min a.hi (v + b.hi) - v,
      ValueRange.mem_iff.2 (by omega), by omega⟩

theorem settles_plus (hs : s.Sized) (hint : s.isInteger = true) (ha : s.fits a = .ok true)
    (hb : s.fits b = .ok true) : s.Settles {v | ∃ x ∈ a, ∃ y ∈ b, x + y = v} (s.plus a b) := by
  have h1 := bounds_of_fits hs hint ha
  have h2 := bounds_of_fits hs hint hb
  have hla := a.lo_le_hi
  have hlb := b.lo_le_hi
  rw [sums_eq, plus, bind_checkArithmetic hint]
  apply settles_settle hs hint (by omega)
  intro hsig
  obtain ⟨h0, hmod⟩ := bounds_of_not_signed hsig
  omega

theorem settles_minus (hs : s.Sized) (hint : s.isInteger = true) (ha : s.fits a = .ok true)
    (hb : s.fits b = .ok true) : s.Settles {v | ∃ x ∈ a, ∃ y ∈ b, x - y = v} (s.minus a b) := by
  have h1 := bounds_of_fits hs hint ha
  have h2 := bounds_of_fits hs hint hb
  have hla := a.lo_le_hi
  have hlb := b.lo_le_hi
  rw [differences_eq, minus, bind_checkArithmetic hint]
  apply settles_settle hs hint (by omega)
  intro hsig
  obtain ⟨h0, hmod⟩ := bounds_of_not_signed hsig
  omega

/-- **The outcome of a division is the best possible one**: undefined exactly where the divisor can
only be zero, with the range collapsed to the greatest value, and otherwise the smallest range of the
scalar that contains every quotient. -/
structure Divides (s : Scalar) (a b : ValueRange) (o : Outcome UndefinedBehavior ValueRange) :
    Prop where
  undefined_iff : (∃ u, o = Outcome.fail u) ↔ ∀ y ∈ b, y = 0
  divisionByZero : b.lo = 0 → b.hi = 0 →
    ∃ p : ValueRange, p.IsPoint s s.greatest ∧ o = Outcome.fail ⟨.divisionByZero, p⟩
  smallest : (∃ y ∈ b, y ≠ 0) →
    ∃ r, o = .ok r ∧ r.Of s ∧ r.Smallest {z | ∃ x ∈ a, ∃ y ∈ b, y ≠ 0 ∧ x / y = z}

/-- A division is undefined where the divisor can only be zero. -/
theorem divides_undefinedAt (hs : s.Sized) (hv : s.kind ≠ .void) (hzero : ∀ y ∈ b, y = 0) :
    s.Divides a b (s.undefinedAt .divisionByZero s.greatest) := by
  obtain ⟨p, hp, ho⟩ := undefinedAt_eq hs hv .divisionByZero ⟨s.least_le_greatest, le_rfl⟩
  rw [ho]
  refine ⟨⟨fun _ => hzero, fun _ => ⟨_, rfl⟩⟩, fun _ _ => ⟨p, hp, rfl⟩, ?_⟩
  rintro ⟨y, hy, hne⟩
  exact absurd (hzero y hy) hne

/-- A range of the scalar is right where the divisor can be something else, if its bounds are
quotients. -/
theorem divides_rangeOf (hs : s.Sized) (hv : s.kind ≠ .void) (hle : lo ≤ hi) (hl : s.least ≤ lo)
    (hg : hi ≤ s.greatest) (hzero : b.hi ≠ 0)
    (hmem : ∀ x ∈ a, ∀ y ∈ b, y ≠ 0 → lo ≤ x / y ∧ x / y ≤ hi)
    (hlo : ∃ x ∈ a, ∃ y ∈ b, y ≠ 0 ∧ x / y = lo) (hhi : ∃ x ∈ a, ∃ y ∈ b, y ≠ 0 ∧ x / y = hi) :
    s.Divides a b (Outcome.ofInternal (s.rangeOf lo hi)) := by
  obtain ⟨r, hr, -⟩ := rangeOf_of_le hs hv hl hle hg
  obtain ⟨hof, rfl, rfl⟩ := of_rangeOf hs hle hr
  rw [hr]
  refine ⟨⟨?_, fun hall => absurd (hall b.hi b.hi_mem) hzero⟩, fun _ h => absurd h hzero,
    fun _ => ⟨r, rfl, hof, ValueRange.smallest_of_bounds ?_ hlo hhi⟩⟩
  · rintro ⟨u, hu⟩
    cases hu
  · rintro z ⟨x, hx, y, hy, hne, rfl⟩
    exact ValueRange.mem_iff.2 (hmem x hx y hy hne)

theorem divides_dividedBy (hs : s.Sized) (hint : s.isInteger = true) (hsig : ¬ s.isSigned = true)
    (ha : s.fits a = .ok true) (hb : s.fits b = .ok true) : s.Divides a b (s.dividedBy a b) := by
  have hv := ne_void_of_isInteger hint
  obtain ⟨h0, hmod⟩ := bounds_of_not_signed hsig
  obtain ⟨ha0, hag⟩ := bounds_of_fits hs hint ha
  obtain ⟨hb0, hbg⟩ := bounds_of_fits hs hint hb
  have hla := a.lo_le_hi
  have hlb := b.lo_le_hi
  rw [dividedBy, bind_checkArithmetic hint, if_neg hsig]
  show s.Divides a b (if b.hi = 0 then _ else _)
  split
  · rename_i hzero
    apply divides_undefinedAt hs hv
    intro y hy
    have hbounds := ValueRange.mem_iff.1 hy
    omega
  · rename_i hzero
    -- the least divisor that is not zero
    have hdivisor : max b.lo 1 ∈ b := ValueRange.mem_iff.2 (by omega)
    have hquot : ∀ x ∈ a, ∀ y ∈ b, y ≠ 0 → a.lo / b.hi ≤ x / y ∧ x / y ≤ a.hi / max b.lo 1 := by
      intro x hx y hy hne
      obtain ⟨hx1, hx2⟩ := ValueRange.mem_iff.1 hx
      obtain ⟨hy1, hy2⟩ := ValueRange.mem_iff.1 hy
      exact ediv_mem_corners (by omega) hx1 hx2 (by omega) (by omega) hy2
    have hle := hquot a.lo a.lo_mem b.hi b.hi_mem hzero
    have hnonneg : 0 ≤ a.lo / b.hi := Int.ediv_nonneg (by omega) (by omega)
    have hself : a.hi / max b.lo 1 ≤ a.hi := Int.ediv_le_self _ (by omega)
    rw [Int.tdiv_eq_ediv_of_nonneg (by omega), Int.tdiv_eq_ediv_of_nonneg (by omega)]
    apply divides_rangeOf hs hv (hle.1.trans hle.2) (by omega) (hself.trans hag) hzero hquot
    · exact ⟨a.lo, a.lo_mem, b.hi, b.hi_mem, hzero, rfl⟩
    · exact ⟨a.hi, a.hi_mem, max b.lo 1, hdivisor, by omega, rfl⟩

/-- **Sums, differences and quotients have the best possible ranges.**  On ranges that fit an integer
scalar of one to eight bytes, the rules for `x + y`, for `x - y` and, if the scalar is unsigned, for
`x / y` are undefined exactly where no result is defined, and otherwise give the smallest range of the
scalar that contains every defined result. -/
theorem settles_arithmetic (hs : s.Sized) (hint : s.isInteger = true) (ha : s.fits a = .ok true)
    (hb : s.fits b = .ok true) :
    s.Settles {v | ∃ x ∈ a, ∃ y ∈ b, x + y = v} (s.plus a b) ∧
      s.Settles {v | ∃ x ∈ a, ∃ y ∈ b, x - y = v} (s.minus a b) ∧
      (s.isSigned = false → s.Divides a b (s.dividedBy a b)) := by
  refine ⟨settles_plus hs hint ha hb, settles_minus hs hint ha hb, fun hsig => ?_⟩
  exact divides_dividedBy hs hint (by simp [hsig]) ha hb

/-- Sums of unsigned bytes from 200 to 250 and from 100 to 250 wrap as one piece, their differences
straddle zero, and their quotients are at most two.  Sums of signed bytes from 100 to 120 and from 10 to
20 are cut at 127. -/
theorem settles_arithmetic_bytes :
    let u8 : Scalar := ⟨"U8", 1, 1, .unsignedInt, 0, 1⟩
    let a : ValueRange := ⟨.unsigned, 200, 250, by decide, by decide, by decide⟩
    let b : ValueRange := ⟨.unsigned, 100, 250, by decide, by decide, by decide⟩
    let s8 : Scalar := ⟨"S8", 1, 1, .signedInt, 0, 1⟩
    let c : ValueRange := ⟨.signed, 100, 120, by decide, by decide, by decide⟩
    let d : ValueRange := ⟨.signed, 10, 20, by decide, by decide, by decide⟩
    (u8.Settles {v | ∃ x ∈ a, ∃ y ∈ b, x + y = v} (u8.plus a b) ∧
      u8.Settles {v | ∃ x ∈ a, ∃ y ∈ b, x - y = v} (u8.minus a b) ∧
      u8.Divides a b (u8.dividedBy a b) ∧ (u8.plus a b).toOption.map (·.text) = some "[44, 244]" ∧
      (u8.minus a b).toOption.map (·.text) = some "[0, 255]" ∧
      (u8.dividedBy a b).toOption.map (·.text) = some "[0, 2]") ∧
    s8.Settles {v | ∃ x ∈ c, ∃ y ∈ d, x + y = v} (s8.plus c d) ∧
      (s8.plus c d).toOption.map (·.text) = some "[110, 127]" := by
  intro u8 a b s8 c d
  obtain ⟨hplus, hminus, hdivides⟩ := settles_arithmetic (s := u8) (a := a) (b := b)
    ⟨by decide, by decide⟩ rfl (by decide +kernel) (by decide +kernel)
  obtain ⟨hsigned, -⟩ := settles_arithmetic (s := s8) (a := c) (b := d)
    ⟨by decide, by decide⟩ rfl (by decide +kernel) (by decide +kernel)
  exact ⟨⟨hplus, hminus, hdivides rfl, by decide +kernel, by decide +kernel, by decide +kernel⟩,
    hsigned, by decide +kernel⟩

end Scalar

end RangeTyping
