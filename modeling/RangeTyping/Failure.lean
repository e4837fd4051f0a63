import RangeTyping.Range.Basic

/-!
# Failures

Two things can stop a computation of this library.  A recoverable error is part of the answer: the
program under analysis is wrong, or a registration is refused.  Each capability has its own type of
these.  An internal error is never turned into a diagnostic and stops everything: a caller broke an
invariant of the library itself, or an operation on machine words left them.

`Failure ε` keeps the two apart, and `Outcome ε α` is a computation that ends in a value, in an
error of type `ε` or in an internal error.
-/

namespace RangeTyping

/-- The operations on 64-bit words that can leave them. -/
inductive WordOperation where
  | add
  | subtract
  | multiply
deriving DecidableEq, Repr

/-- The name of an operation on words. -/
def WordOperation.text : WordOperation → String
  | add => "add"
  | subtract => "subtract"
  | multiply => "multiply"

/-- What stops a computation for good: a broken invariant, or a number that is no word. -/
inductive InternalError where
  /-- The result of an operation on words is no word. -/
  | overflow (operation : WordOperation)
  /-- A range was built with its bounds in the wrong order. -/
  | rangeOrder (signedness : Signedness) (min max : Int)
  /-- The bounds of the type without values were asked for. -/
  | voidRange
  /-- A range was built that does not fit the scalar named `scalar`. -/
  | rangeEscapes (min max : Int) (scalar : String)
  /-- Two ranges of different representations were joined. -/
  | hullMismatch (a b : ValueRange)
  /-- Arithmetic was asked for in a scalar that is not an integer. -/
  | arithmeticOn (scalar : String)
  /-- Division was asked for in a signed integer. -/
  | signedDivision
  /-- A range that is no truth value was negated. -/
  | notBoolean (range : ValueRange)
  /-- The range rule of a binary operator was given `count` ranges. -/
  | binaryArity (count : Nat)
  /-- The range rule of logical negation was given `count` ranges. -/
  | notArity (count : Nat)
  /-- A cheapest conversion was found that cannot be followed to its end. -/
  | castPathStops (source destination : String)
  /-- The outermost scope was closed. -/
  | rootScopePopped
  /-- A scalar was registered after the table of type ids was sealed. -/
  | typeIdsSealed (name : String)
  /-- An overload was attached to a name that was not reserved. -/
  | overloadNotReserved (name : String)
  /-- An overload was given a type that is no function type. -/
  | overloadNotFunction (name type : String)
  /-- An expression was given a second range. -/
  | rangeSetTwice (expression : String) (existing range : ValueRange)
  /-- A builtin operator returns something that is no scalar. -/
  | operatorResult (operator type : String)
  /-- A builtin operator was applied to a type without ranges. -/
  | operatorOperand (operator type : String)
  /-- A binary operator was applied to another number of operands. -/
  | operatorNotBinary (operator : String)
  /-- A unary operator was applied to another number of operands. -/
  | operatorNotUnary (operator : String)
  /-- The cheapest overload was lost after it was found. -/
  | cheapestOverloadLost (name : String)
deriving DecidableEq

/-- The text of an internal error. -/
def InternalError.message : InternalError → String
  | overflow operation => s!"attempt to {operation.text} with overflow"
  | rangeOrder s min max => s!"ICE: {s.text} range [{min}, {max}] has min above max"
  | voidRange => "ICE: `Void` has no value range"
  | rangeEscapes min max scalar => s!"ICE: range [{min}, {max}] escapes the bounds of `{scalar}`"
  | hullMismatch a b =>
    s!"ICE: hull of ranges with different representations: {a.text} and {b.text}"
  | arithmeticOn scalar => s!"ICE: arithmetic range transform on `{scalar}`"
  | signedDivision => "ICE: signed division has no range transform"
  | notBoolean range => s!"ICE: logical not of non-boolean range {range.text}"
  | binaryArity count => s!"ICE: binary operator range applied to {count} arguments"
  | notArity count => s!"ICE: logical not range applied to {count} arguments"
  | castPathStops source destination =>
    s!"ICE: cast path from `{source}` stops short of `{destination}`"
  | rootScopePopped => "ICE: pop_scope called on the root scope"
  | typeIdsSealed name => s!"ICE: type `{name}` registered after the type-id table was sealed"
  | overloadNotReserved name => s!"ICE: function `{name}` reached pass 2 without pass 1"
  | overloadNotFunction name type => s!"ICE: overload `{name}` has non-function type `{type}`"
  | rangeSetTwice expression existing range =>
    s!"ICE: range of expression {expression} set twice ({existing.text}, then {range.text})"
  | operatorResult operator type => s!"ICE: builtin operator `{operator}` returns `{type}`"
  | operatorOperand operator type => s!"ICE: builtin operator `{operator}` applied to `{type}`"
  | operatorNotBinary operator => s!"ICE: binary operator `{operator}` without two operands"
  | operatorNotUnary operator => s!"ICE: unary operator `{operator}` without one operand"
  | cheapestOverloadLost name =>
    s!"ICE: overload set `{name}` lost its minimum-weight candidate"

/-- The name of the kind of internal error. -/
def InternalError.name : InternalError → String
  | overflow _ => "panic"
  | _ => "ICE"

/-- The number of 64-bit words. -/
def wordCount : Nat := 18446744073709551616

/-- The result `n` of an operation on words, which has to be a word itself. -/
def WordOperation.check (operation : WordOperation) (n : Nat) : Except InternalError Nat :=
  if n < wordCount then .ok n else .error (.overflow operation)

/-- Why a computation stopped: an internal error, or an error of type `ε`. -/
inductive Failure (ε : Type) where
  | internal (error : InternalError)
  | error (error : ε)

/-- A computation that yields a value, an error of type `ε` or an internal error. -/
abbrev Outcome (ε α : Type) : Type := Except (Failure ε) α

namespace Outcome

/-- A computation that can only break an invariant, seen as one that may also fail. -/
def ofInternal {ε α : Type} : Except InternalError α → Outcome ε α
  | .ok a => .ok a
  | .error e => .error (.internal e)

instance {ε : Type} : MonadLift (Except InternalError) (Except (Failure ε)) where
  monadLift := ofInternal

/-- The outcome that is the error `e`. -/
def fail {ε α : Type} (e : ε) : Outcome ε α := .error (.error e)

/-- Renames the errors of an outcome; an internal error stays what it is. -/
def mapError {ε δ α : Type} (f : ε → δ) : Outcome ε α → Outcome δ α
  | .ok a => .ok a
  | .error (.internal e) => .error (.internal e)
  | .error (.error e) => .error (.error (f e))

end Outcome

end RangeTyping
