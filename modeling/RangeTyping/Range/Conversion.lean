import RangeTyping.Range.Checked
import RangeTyping.Scalar

/-!
# Ranges of a scalar

Every scalar but the empty one has a least and a greatest value, unless its width cannot be computed
with words (`Scalar.checkBounds`).  `Scalar.rangeOf` is the only way to a range *of* a scalar: it
refuses bounds that leave it.  On top of it stand the full range, the
range of a literal, the test whether a range fits, and `Scalar.convert`, which carries a range over
to another scalar the way the conversion carries the values: modulo the scalar's width.

At most 64 bits of a scalar count, since ranges have 64-bit bounds.
-/

namespace RangeTyping.Scalar

/-! ### Bounds -/

/-- The number of bits that count towards the bounds. -/
def rangeBits (s : Scalar) : Nat := min s.bits 64

/-- The number of value bits below the sign bit, for a signed scalar that has bits. -/
def magnitudeBits (s : Scalar) : Nat := s.rangeBits - 1

/-- The number of patterns of `k` bits, two to the power `k`. -/
def bitPatterns (k : Nat) : Nat := Nat.pow 2 k

/-- The least value. -/
def least (s : Scalar) : Int :=
  match s.kind with
  | .signedInt => -(bitPatterns s.magnitudeBits)
  | _ => 0

/-- The greatest value. -/
def greatest (s : Scalar) : Int :=
  match s.kind with
  | .signedInt => bitPatterns s.magnitudeBits - 1
  | .unsignedInt | .char => bitPatterns s.rangeBits - 1
  | .bool => 1
  | .void => 0

/-- The number of values, which is the modulus of unsigned arithmetic. -/
def modulus (s : Scalar) : Int := s.greatest - s.least + 1

/-- Refuses scalars that have no width: eight times the size is no word. -/
def checkWidth (s : Scalar) : Except InternalError Unit :=
  if s.size * 8 < wordCount then .ok () else .error (.overflow .multiply)

/-- Refuses scalars that have no bounds: those without a width, the signed one without a sign bit,
and the one that has no values. -/
def checkBounds (s : Scalar) : Except InternalError Unit := do
  s.checkWidth
  match s.kind with
  | .signedInt => if s.bits = 0 then throw (.overflow .subtract)
  | .void => throw .voidRange
  | .bool | .unsignedInt | .char => return

/-- The range from `min` to `max` in the representation of `s`, which must not leave `s`. -/
def rangeOf (s : Scalar) (min max : Int) : Except InternalError ValueRange := do
  s.checkBounds
  if min < s.least ∨ s.greatest < max then
    throw (.rangeEscapes min max s.name)
  ValueRange.ofWords s.signedness min max

/-! ### Full ranges and literals -/

/-- The range of all values, if there are any. -/
def fullRange (s : Scalar) : Except InternalError (Option ValueRange) :=
  match s.kind with
  | .void => .ok none
  | .bool => .ok (some ValueRange.anyBool)
  | .signedInt | .unsignedInt | .char => some <$> s.rangeOf s.least s.greatest

/-- The range of the literal `v`. -/
def literalRange (s : Scalar) (v : Int) : Except InternalError ValueRange := s.rangeOf v v

/-- Whether `v` is a value of the scalar. -/
def hasValue (s : Scalar) (v : Int) : Except InternalError Bool := do
  match ← s.fullRange with
  | some full => return full.containsValue v
  | none => return false

/-- Whether every value of the range `r` is a value of the scalar. -/
def fits (s : Scalar) (r : ValueRange) : Except InternalError Bool := do
  match ← s.fullRange with
  | some full => return full.contains r
  | none => return false

/-! ### Conversion -/

/-- The value of the scalar that is congruent to `v` modulo its number of values. -/
def wrap (s : Scalar) (v : Int) : Int := (v - s.least) % s.modulus + s.least

/-- **The range of the converted values.**  A truth value is the answer to "is it other than zero".
Otherwise a range that fits is kept, one whose values wrap around as one piece is wrapped, and any
other becomes the full range of the destination. -/
def convert (dest : Scalar) (r : ValueRange) : Except InternalError ValueRange := do
  if dest.kind = .bool then
    let min : Int := if (0 : Int) ∈ r then 0 else 1
    let max : Int := if r.lo = 0 ∧ r.hi = 0 then 0 else 1
    dest.rangeOf min max
  else if ← dest.fits r then
    dest.rangeOf r.lo r.hi
  else
    dest.checkBounds
    let lo := dest.wrap r.lo
    let hi := dest.wrap r.hi
    if r.hi - r.lo < dest.modulus ∧ lo ≤ hi then
      dest.rangeOf lo hi
    else
      dest.rangeOf dest.least dest.greatest

end RangeTyping.Scalar
