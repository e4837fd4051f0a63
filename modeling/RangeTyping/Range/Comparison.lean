import RangeTyping.Failure

/-!
# Comparisons on ranges

The range of a comparison is the truth value it always has, or both.  Each comparison has its own
two conditions on the bounds, one for "always" and one for "never".
-/

namespace RangeTyping

/-- The six comparisons of two numbers. -/
inductive Comparison where
  | equal
  | notEqual
  | less
  | lessOrEqual
  | greater
  | greaterOrEqual
deriving DecidableEq, Repr

namespace Comparison

/-- What the bounds say of the comparison: whether it holds for every value of `a` and every value
of `b`, and whether it holds for none. -/
def verdicts : Comparison → ValueRange → ValueRange → Bool × Bool
  | equal, a, b =>
    (a.isSingle && b.isSingle && a.lo == b.lo, decide (a.hi < b.lo) || decide (b.hi < a.lo))
  | notEqual, a, b =>
    (decide (a.hi < b.lo) || decide (b.hi < a.lo), a.isSingle && b.isSingle && a.lo == b.lo)
  | less, a, b => (decide (a.hi < b.lo), decide (b.hi ≤ a.lo))
  | lessOrEqual, a, b => (decide (a.hi ≤ b.lo), decide (b.hi < a.lo))
  | greater, a, b => (decide (b.hi < a.lo), decide (a.hi ≤ b.lo))
  | greaterOrEqual, a, b => (decide (b.hi ≤ a.lo), decide (a.hi < b.lo))

/-- Whether the bounds prove the comparison for every pair of values. -/
def always (c : Comparison) (a b : ValueRange) : Bool := (c.verdicts a b).1

/-- Whether the bounds refute the comparison for every pair of values. -/
def never (c : Comparison) (a b : ValueRange) : Bool := (c.verdicts a b).2

/-- The range of the comparison's truth value. -/
def range (c : Comparison) (a b : ValueRange) : ValueRange :=
  if c.always a b then ValueRange.ofBool true
  else if c.never a b then ValueRange.ofBool false
  else ValueRange.anyBool

end Comparison

/-- One less the least value of an unsigned range is storable again. -/
theorem ValueRange.one_sub_lo_le {r : ValueRange} (h : r.signedness = .unsigned) :
    1 - r.lo ≤ Signedness.unsigned.greatest := by
  have hl := r.least_le_lo
  rw [h] at hl
  simp only [Signedness.least, Signedness.greatest] at hl ⊢
  omega

/-- The range of a negated truth value. -/
def ValueRange.logicalNot (r : ValueRange) : Except InternalError ValueRange :=
  if h : r.signedness = .unsigned ∧ r.hi ≤ 1 then
    .ok
      { signedness := .unsigned
        lo := 1 - r.hi
        hi := 1 - r.lo
        lo_le_hi := Int.sub_le_sub_left r.lo_le_hi 1
        least_le_lo := Int.sub_nonneg_of_le h.2
        hi_le_greatest := one_sub_lo_le h.1 }
  else
    .error (.notBoolean r)

end RangeTyping
