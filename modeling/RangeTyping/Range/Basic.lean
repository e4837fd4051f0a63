/-!
# Value ranges

A value range is the inclusive interval in which the value of an expression provably lies.  It is
kept in the representation of the type it belongs to: the bounds of a `signed` range are 64-bit
two's-complement integers, those of an `unsigned` range are 64-bit naturals.  Both facts, and that
the lower bound does not exceed the upper one, are fields of the type, so every range that exists
is a valid one.

The view of a range is the set of integers between its bounds, `v ∈ r`.  Containment
(`ValueRange.contains`) compares these sets and ignores the representation; equality does not.
-/

namespace RangeTyping

/-! ### Representations -/

/-- How the 64 bits of a bound are read. -/
inductive Signedness where
  | unsigned
  | signed
deriving DecidableEq, Repr

namespace Signedness

/-- The least bound a range of this representation can store. -/
def least : Signedness → Int
  | unsigned => 0
  | signed => -9223372036854775808

/-- The greatest bound a range of this representation can store. -/
def greatest : Signedness → Int
  | unsigned => 18446744073709551615
  | signed => 9223372036854775807

/-- The word of this representation that is congruent to `v` modulo `2 ^ 64`. -/
def wrap : Signedness → Int → Int
  | unsigned, v => v % 18446744073709551616
  | signed, v => v.bmod 18446744073709551616

/-- The representation's name in messages. -/
def text : Signedness → String
  | unsigned => "unsigned"
  | signed => "signed"

theorem least_le_wrap (s : Signedness) (v : Int) : s.least ≤ s.wrap v := by
  cases s with
  | unsigned => exact Int.emod_nonneg v (by decide)
  | signed => exact Int.le_bmod (by decide)

theorem wrap_le_greatest (s : Signedness) (v : Int) : s.wrap v ≤ s.greatest := by
  cases s with
  | unsigned =>
    have h := Int.emod_lt_of_pos v (show (0 : Int) < 18446744073709551616 by decide)
    simp only [wrap, greatest]
    omega
  | signed =>
    have h := Int.bmod_lt (x := v) (m := 18446744073709551616) (by decide)
    simp only [wrap, greatest]
    omega

/-- **Wrapping keeps what fits.** -/
theorem wrap_of_bounds {s : Signedness} {v : Int} (hl : s.least ≤ v) (hg : v ≤ s.greatest) :
    s.wrap v = v := by
  cases s with
  | unsigned =>
    simp only [least, greatest] at hl hg
    exact Int.emod_eq_of_lt hl (by omega)
  | signed =>
    simp only [least, greatest] at hl hg
    exact Int.bmod_eq_of_le (by omega) (by omega)

end Signedness

/-! ### Ranges -/

/-- The values from `lo` to `hi`, both included, in one representation. -/
structure ValueRange where
  signedness : Signedness
  lo : Int
  hi : Int
  lo_le_hi : lo ≤ hi
  least_le_lo : signedness.least ≤ lo
  hi_le_greatest : hi ≤ signedness.greatest
deriving DecidableEq

namespace ValueRange

instance : Membership Int ValueRange where
  mem r v := r.lo ≤ v ∧ v ≤ r.hi

theorem mem_iff {r : ValueRange} {v : Int} : v ∈ r ↔ r.lo ≤ v ∧ v ≤ r.hi := Iff.rfl

instance (r : ValueRange) (v : Int) : Decidable (v ∈ r) :=
  inferInstanceAs (Decidable (_ ∧ _))

theorem lo_mem (r : ValueRange) : r.lo ∈ r := ⟨Int.le_refl _, r.lo_le_hi⟩

theorem hi_mem (r : ValueRange) : r.hi ∈ r := ⟨r.lo_le_hi, Int.le_refl _⟩

/-- A range is determined by its representation and its two bounds. -/
theorem ext_bounds {a b : ValueRange} (hs : a.signedness = b.signedness) (hl : a.lo = b.lo)
    (hh : a.hi = b.hi) : a = b := by
  cases a
  cases b
  simp_all

/-- Whether the range holds exactly one value. -/
def isSingle (r : ValueRange) : Bool := r.lo == r.hi

/-- Whether `v` is one of the range's values. -/
def containsValue (r : ValueRange) (v : Int) : Bool := decide (v ∈ r)

/-- Whether every value of `other` is a value of `r`, whatever the two representations are. -/
def contains (r other : ValueRange) : Bool :=
  decide (r.lo ≤ other.lo) && decide (other.hi ≤ r.hi)

theorem contains_iff {r other : ValueRange} :
    r.contains other = true ↔ ∀ v, v ∈ other → v ∈ r := by
  simp only [contains, Bool.and_eq_true, decide_eq_true_eq]
  constructor
  · intro h v hv
    have := mem_iff.1 hv
    exact mem_iff.2 (by omega)
  · intro h
    have hl := mem_iff.1 (h _ other.lo_mem)
    have hh := mem_iff.1 (h _ other.hi_mem)
    omega

/-- The range written as `[lo, hi]`. -/
def text (r : ValueRange) : String := s!"[{r.lo}, {r.hi}]"

/-! ### Ranges of truth values

A truth value is the unsigned 0 or 1. -/

/-- The range of the one truth value `b`. -/
def ofBool : Bool → ValueRange
  | true => ⟨.unsigned, 1, 1, by decide, by decide, by decide⟩
  | false => ⟨.unsigned, 0, 0, by decide, by decide, by decide⟩

/-- The range of both truth values. -/
def anyBool : ValueRange := ⟨.unsigned, 0, 1, by decide, by decide, by decide⟩

end ValueRange

end RangeTyping
