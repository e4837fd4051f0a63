import RangeTyping.Range.Arithmetic
import RangeTyping.Range.Comparison

/-!
# Builtin operators

The operations that a backend offers, and the rule by which each computes the range of its result
from the ranges of its operands.  Where signed and unsigned instructions differ, so do the
operations; division exists for unsigned operands only.
-/

namespace RangeTyping

/-- An operation on two values. -/
inductive BinaryOperation where
  | plus (s : Signedness)
  | minus (s : Signedness)
  | multiply (s : Signedness)
  | divideUnsigned
  | equals
  | notEquals
  | lessThan (s : Signedness)
  | lessThanOrEqual (s : Signedness)
  | greaterThan (s : Signedness)
  | greaterThanOrEqual (s : Signedness)
deriving DecidableEq, Repr

namespace BinaryOperation

/-- The suffix by which signed and unsigned operations differ. -/
def signText : Signedness → String
  | .signed => "Signed"
  | .unsigned => "Unsigned"

/-- The operation's name. -/
def name : BinaryOperation → String
  | plus s => "Plus" ++ signText s
  | minus s => "Minus" ++ signText s
  | multiply s => "Multiply" ++ signText s
  | divideUnsigned => "DivideUnsigned"
  | equals => "Equals"
  | notEquals => "NotEquals"
  | lessThan s => "LessThan" ++ signText s
  | lessThanOrEqual s => "LessThanOrEqual" ++ signText s
  | greaterThan s => "GreaterThan" ++ signText s
  | greaterThanOrEqual s => "GreaterThanOrEqual" ++ signText s

/-- The range of the result, which is of type `t`. -/
def range (op : BinaryOperation) (t : Scalar) (a b : ValueRange) :
    Outcome UndefinedBehavior ValueRange :=
  match op with
  | plus _ => t.plus a b
  | minus _ => t.minus a b
  | multiply _ => t.times a b
  | divideUnsigned => t.dividedBy a b
  | equals => .ok (Comparison.equal.range a b)
  | notEquals => .ok (Comparison.notEqual.range a b)
  | lessThan _ => .ok (Comparison.less.range a b)
  | lessThanOrEqual _ => .ok (Comparison.lessOrEqual.range a b)
  | greaterThan _ => .ok (Comparison.greater.range a b)
  | greaterThanOrEqual _ => .ok (Comparison.greaterOrEqual.range a b)

end BinaryOperation

/-- A builtin operator. -/
inductive BuiltinOperator where
  | binary (operation : BinaryOperation)
  | logicalNot
deriving DecidableEq, Repr

namespace BuiltinOperator

/-- The operator's name. -/
def name : BuiltinOperator → String
  | binary op => s!"Binary({op.name})"
  | logicalNot => "LogicalNot"

/-- The operator as it is written for inspection. -/
def inspect (op : BuiltinOperator) : String := "BuiltinOperator \x7b op: " ++ op.name ++ " \x7d"

/-- The range of the result, which is of type `t`. -/
def range (op : BuiltinOperator) (t : Scalar) (operands : List ValueRange) :
    Outcome UndefinedBehavior ValueRange :=
  match op, operands with
  | binary op, [a, b] => op.range t a b
  | binary _, _ => .error (.internal (.binaryArity operands.length))
  | logicalNot, [a] => a.logicalNot
  | logicalNot, _ => .error (.internal (.notArity operands.length))

end BuiltinOperator

end RangeTyping
