import Mathlib
import RangeTyping.Operator
import RangeTyping.Cast.Basic
import RangeTyping.Proofs.Range.Bounds

/-!
# What operations do to numbers

Integers, characters and truth values are numbers.  This file says what the operations of a backend
make of them, without any mention of ranges:

* `CastOp.act`: an integer conversion acts on the two's-complement bits of its operand.  Truncation
  keeps the low bits, a change of sign keeps all of them, the two expansions fill up with the sign
  bit or with zeros; the result is read in the destination.
* `BinaryOperation.apply`: unsigned results are taken modulo two to the power of the width.  A
  signed result outside the scalar is undefined, and so is division by zero; undefined is `none`.
* `Comparison.holds`: a comparison is decided on the numbers themselves.
-/

namespace RangeTyping

/-! ### Conversions -/

/-- The bits of a number in a scalar. -/
def Scalar.encode (s : Scalar) (v : Int) : BitVec s.bits := BitVec.ofInt s.bits v

/-- The number that bits stand for in a scalar. -/
def Scalar.decode (s : Scalar) (b : BitVec s.bits) : Int :=
  if s.isSigned then b.toInt else b.toNat

/-- What a conversion does to bits, where the result has the width `n`. -/
def CastOp.onBits (op : CastOp) {m : Nat} (n : Nat) (b : BitVec m) : BitVec n :=
  match op with
  | .expandSigned => b.signExtend n
  | .truncate | .changeSign | .expandUnsigned | .noOp | .dereference => b.setWidth n

/-- **What an integer conversion does to a number.** -/
def CastOp.act (op : CastOp) (source destination : Scalar) (v : Int) : Int :=
  destination.decode (op.onBits destination.bits (source.encode v))

/-! ### Comparisons -/

/-- Whether a comparison holds between two numbers. -/
def Comparison.holds : Comparison → Int → Int → Bool
  | equal, x, y => x == y
  | notEqual, x, y => x != y
  | less, x, y => decide (x < y)
  | lessOrEqual, x, y => decide (x ≤ y)
  | greater, x, y => decide (y < x)
  | greaterOrEqual, x, y => decide (y ≤ x)

/-- A truth value as a number. -/
def truthNumber (b : Bool) : Int := if b then 1 else 0

/-! ### Arithmetic -/

/-- The exact result `v` as a value of `t`: modulo the width for unsigned operations, itself or
nothing for signed ones. -/
def Signedness.reduce (g : Signedness) (t : Scalar) (v : Int) : Option Int :=
  match g with
  | unsigned => some (v % 2 ^ t.bits)
  | signed => if t.Holds v then some v else none

namespace BinaryOperation

/-- The signedness an operation is made for; equality tests fit both. -/
def signedness? : BinaryOperation → Option Signedness
  | plus g | minus g | multiply g | lessThan g | lessThanOrEqual g | greaterThan g
  | greaterThanOrEqual g => some g
  | divideUnsigned => some .unsigned
  | equals | notEquals => none

/-- The comparison that an operation decides, unless it is arithmetic. -/
def comparison? : BinaryOperation → Option Comparison
  | plus _ | minus _ | multiply _ | divideUnsigned => none
  | equals => some .equal
  | notEquals => some .notEqual
  | lessThan _ => some .less
  | lessThanOrEqual _ => some .lessOrEqual
  | greaterThan _ => some .greater
  | greaterThanOrEqual _ => some .greaterOrEqual

/-- **The result of an operation on two numbers**, where the result is of the scalar `t`; `none` if
it is undefined. -/
def apply (op : BinaryOperation) (t : Scalar) (x y : Int) : Option Int :=
  match op with
  | plus g => g.reduce t (x + y)
  | minus g => g.reduce t (x - y)
  | multiply g => g.reduce t (x * y)
  | divideUnsigned => if y = 0 then none else some (x / y)
  | equals => some (truthNumber (Comparison.equal.holds x y))
  | notEquals => some (truthNumber (Comparison.notEqual.holds x y))
  | lessThan _ => some (truthNumber (Comparison.less.holds x y))
  | lessThanOrEqual _ => some (truthNumber (Comparison.lessOrEqual.holds x y))
  | greaterThan _ => some (truthNumber (Comparison.greater.holds x y))
  | greaterThanOrEqual _ => some (truthNumber (Comparison.greaterOrEqual.holds x y))

end BinaryOperation

end RangeTyping
