import RangeTyping.Ty.Store

/-!
# Conversions

A conversion (`Cast`) leads from one type to another at a weight.  It names the operation a backend
performs for it, says whether it may be used without being asked for, and carries a rule that maps
the range of a value to the range of the converted value or refuses it.

Two range rules are given here: `RangeTransform.keep`, and `RangeTransform.integer` for conversions
between integers.
-/

namespace RangeTyping

/-- Whether a conversion may be used without being written. -/
inductive ImplicitRule where
  | always
  /-- Only where the range of the value fits the destination. -/
  | whenRangeFits
  | never
deriving DecidableEq, Repr

namespace ImplicitRule

/-- All rules. -/
def all : List ImplicitRule := [always, whenRangeFits, never]

/-- The name of a rule. -/
def name : ImplicitRule → String
  | always => "Always"
  | whenRangeFits => "WhenRangeFits"
  | never => "Never"

end ImplicitRule

/-- What a backend does for a conversion. -/
inductive CastOp where
  | noOp
  | dereference
  | truncate
  | changeSign
  | expandSigned
  | expandUnsigned
deriving DecidableEq, Repr

namespace CastOp

/-- All operations. -/
def all : List CastOp := [noOp, dereference, truncate, changeSign, expandSigned, expandUnsigned]

/-- The name of an operation. -/
def name : CastOp → String
  | noOp => "NoOp"
  | dereference => "Dereference"
  | truncate => "Truncate"
  | changeSign => "ChangeSign"
  | expandSigned => "ExpandSigned"
  | expandUnsigned => "ExpandUnsigned"

end CastOp

/-- The range after a conversion, from the source type, the destination type, the range before and
whether the conversion is implicit; `none` refuses it. -/
abbrev RangeTransform : Type :=
  Ty → Ty → ValueRange → Bool → Except InternalError (Option ValueRange)

namespace RangeTransform

/-- The range stays what it is. -/
def keep : RangeTransform := fun _ _ range _ => .ok (some range)

/-- The range is converted to the destination, which must be a scalar. -/
def integer : RangeTransform := fun _ destination range _ =>
  match destination.asScalar? with
  | some s => some <$> s.convert range
  | none => .ok none

end RangeTransform

/-- A conversion from one type to another. -/
structure Cast where
  source : Ty
  destination : Ty
  weight : Weight
  rule : ImplicitRule
  op : CastOp
  transform : RangeTransform

namespace Cast

/-- Whether the conversion may be used. -/
def usable (c : Cast) (implicit : Bool) : Bool := !implicit || c.rule != .never

/-- The conversion written as `source -> destination (weight)`. -/
def text (S : StructStore) (c : Cast) : String :=
  s!"{c.source.text S} -> {c.destination.text S} ({c.weight})"

/-- **Decay**: the conversions by which a qualified value becomes a plain one. -/
def decays (t : Ty) : List Cast :=
  [ ⟨t.addFlags .ref, t, 0, .always, .dereference, .keep⟩,
    ⟨t.addFlags .refMut, t, 0, .always, .dereference, .keep⟩,
    ⟨t.addFlags .mutOnly, t, 0, .always, .noOp, .keep⟩ ]

end Cast

end RangeTyping
