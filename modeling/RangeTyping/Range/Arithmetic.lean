import RangeTyping.Range.Conversion

/-!
# Arithmetic on ranges

The range of a sum, difference, product or quotient is computed with exact integers and then
settled in the scalar of the result.

* **Unsigned** arithmetic wraps.  An interval that lies in the scalar is kept, one that lies wholly
  above or below it wraps as one piece, and one that straddles a bound says nothing.
* **Signed** overflow is undefined.  A bound that leaves the scalar on one side is clamped, since
  the values beyond it belong to no defined run; if *all* results leave on the same side, the
  operation has no defined result, which is `UndefinedBehavior`.
* Division exists for unsigned scalars only.  A divisor that can only be zero is undefined; one
  that may be zero counts from one.
-/

namespace RangeTyping

/-! ### Undefined behaviour -/

/-- Why an operation has no defined result. -/
inductive UndefinedKind where
  | overflow
  | underflow
  | divisionByZero
deriving DecidableEq, Repr

/-- What an undefined operation does. -/
def UndefinedKind.text : UndefinedKind → String
  | overflow => "overflows"
  | underflow => "underflows"
  | divisionByZero => "divides by zero"

/-- The name of the kind of undefined behaviour. -/
def UndefinedKind.name : UndefinedKind → String
  | overflow => "UndefinedBehavior.Overflow"
  | underflow => "UndefinedBehavior.Underflow"
  | divisionByZero => "UndefinedBehavior.DivisionByZero"

/-- An operation without a defined result on any input, and the one-point range that stands for
its result. -/
structure UndefinedBehavior where
  kind : UndefinedKind
  collapsed : ValueRange
deriving DecidableEq

/-- The wording of undefined behaviour. -/
def UndefinedBehavior.message (u : UndefinedBehavior) : String :=
  s!"operation always {u.kind.text} (range collapses to {u.collapsed.text})"

namespace Scalar

/-- Refuses scalars without arithmetic. -/
def checkArithmetic (s : Scalar) : Except InternalError Unit :=
  if s.isInteger then .ok () else .error (.arithmeticOn s.name)

/-- The operation is undefined on all inputs; its range collapses to the point `v`. -/
def undefinedAt (s : Scalar) (kind : UndefinedKind) (v : Int) :
    Outcome UndefinedBehavior ValueRange := do
  let collapsed ← s.rangeOf v v
  Outcome.fail ⟨kind, collapsed⟩

/-! ### Settling an interval in a scalar -/

/-- Settles the results from `lo` to `hi` in a signed scalar. -/
def settleSigned (s : Scalar) (lo hi : Int) : Outcome UndefinedBehavior ValueRange :=
  if s.greatest < lo then
    s.undefinedAt .overflow s.greatest
  else if hi < s.least then
    s.undefinedAt .underflow s.least
  else
    s.rangeOf (max lo s.least) (min hi s.greatest)

/-- Settles the results from `lo` to `hi` in an unsigned scalar. -/
def settleUnsigned (s : Scalar) (lo hi : Int) : Except InternalError ValueRange :=
  if 0 ≤ lo ∧ hi ≤ s.greatest then
    s.rangeOf lo hi
  else if s.greatest < lo ∧ hi - s.modulus ≤ s.greatest then
    -- every result is one modulus too large
    s.rangeOf (lo - s.modulus) (hi - s.modulus)
  else if hi < 0 ∧ 0 ≤ lo + s.modulus then
    -- every result is one modulus too small
    s.rangeOf (lo + s.modulus) (hi + s.modulus)
  else
    s.rangeOf s.least s.greatest

/-- Settles the results from `lo` to `hi` in an integer scalar. -/
def settle (s : Scalar) (lo hi : Int) : Outcome UndefinedBehavior ValueRange :=
  if s.isSigned then s.settleSigned lo hi else s.settleUnsigned lo hi

/-! ### The four operations -/

/-- The range of `x + y`. -/
def plus (s : Scalar) (a b : ValueRange) : Outcome UndefinedBehavior ValueRange := do
  s.checkArithmetic
  s.settle (a.lo + b.lo) (a.hi + b.hi)

/-- The range of `x - y`. -/
def minus (s : Scalar) (a b : ValueRange) : Outcome UndefinedBehavior ValueRange := do
  s.checkArithmetic
  s.settle (a.lo - b.hi) (a.hi - b.lo)

/-- Products are kept in 128 bits and stop at their ends. -/
def saturate (v : Int) : Int :=
  max (-170141183460469231731687303715884105728) (min v 170141183460469231731687303715884105727)

/-- The least and the greatest product of a bound of `a` and a bound of `b`. -/
def productBounds (a b : ValueRange) : Int × Int :=
  let ll := saturate (a.lo * b.lo)
  let lh := saturate (a.lo * b.hi)
  let hl := saturate (a.hi * b.lo)
  let hh := saturate (a.hi * b.hi)
  (min (min ll lh) (min hl hh), max (max ll lh) (max hl hh))

/-- The range of `x * y`.  Unsigned products do not wrap as one piece, so one that may leave the
scalar says nothing. -/
def times (s : Scalar) (a b : ValueRange) : Outcome UndefinedBehavior ValueRange := do
  s.checkArithmetic
  let (lo, hi) := productBounds a b
  if s.isSigned then
    s.settleSigned lo hi
  else if hi ≤ s.greatest then
    s.rangeOf lo hi
  else
    s.rangeOf s.least s.greatest

/-- The range of `x / y`, rounded towards zero. -/
def dividedBy (s : Scalar) (a b : ValueRange) : Outcome UndefinedBehavior ValueRange := do
  s.checkArithmetic
  if s.isSigned then
    throw (.internal .signedDivision)
  if b.hi = 0 then
    s.undefinedAt .divisionByZero s.greatest
  else
    s.rangeOf (a.lo.tdiv b.hi) (a.hi.tdiv (max b.lo 1))

end Scalar

end RangeTyping
