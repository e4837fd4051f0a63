import RangeTyping.Range.Basic

/-!
# Scalar types

A scalar is a builtin type without parts: nothing, a truth value, an integer or a character.  Its
name, the cookie its backend gave it and its literal weight describe it; only size, alignment and
kind decide whether two scalars are the same type (`Scalar.same`).

`Scalar.bits` counts eight bits a byte and clips the count to 32 bits.  It is computed with words;
a scalar whose size is too large for that has no width (`Scalar.checkWidth`).
-/

namespace RangeTyping

/-- The cost of a conversion or of typing a literal; lower is better. -/
abbrev Weight : Type := Nat

/-- The greatest weight.  Sums stop there, and a limit of this weight is no limit. -/
def maxWeight : Weight := 4294967295

/-- The sum of two weights. -/
def addWeight (a b : Weight) : Weight := min (a + b) maxWeight

/-- What a scalar's bits stand for. -/
inductive ScalarKind where
  | void
  | bool
  | signedInt
  | unsignedInt
  /-- Characters have an unsigned range and take no part in arithmetic. -/
  | char
deriving DecidableEq, Repr

namespace ScalarKind

/-- All kinds. -/
def all : List ScalarKind := [void, bool, signedInt, unsignedInt, char]

/-- The name of a kind. -/
def name : ScalarKind → String
  | void => "Void"
  | bool => "Bool"
  | signedInt => "SignedInt"
  | unsignedInt => "UnsignedInt"
  | char => "Char"

end ScalarKind

/-- A type without parts. -/
structure Scalar where
  name : String
  size : Nat
  alignment : Nat
  kind : ScalarKind
  /-- The backend's own name for the type. -/
  cookie : Nat
  /-- The cost of giving this type to an integer literal. -/
  literalWeight : Weight
deriving DecidableEq, Repr

namespace Scalar

/-- The width in bits, for a scalar that has one. -/
def bits (s : Scalar) : Nat := min (s.size * 8) 4294967295

/-- Whether the scalar is a signed integer. -/
def isSigned (s : Scalar) : Bool := s.kind == .signedInt

/-- Whether the scalar is an integer: it has arithmetic and literals. -/
def isInteger (s : Scalar) : Bool := s.kind == .signedInt || s.kind == .unsignedInt

/-- Whether the scalar is an integer or a character. -/
def isIntegral (s : Scalar) : Bool := s.isInteger || s.kind == .char

/-- The representation of the scalar's ranges. -/
def signedness (s : Scalar) : Signedness := if s.isSigned then .signed else .unsigned

/-- Whether two scalars are the same type, whatever their names are. -/
def same (a b : Scalar) : Bool :=
  a.size == b.size && a.alignment == b.alignment && a.kind == b.kind

end Scalar

end RangeTyping
