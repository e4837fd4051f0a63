import Mathlib
import RangeTyping.Proofs.Cast.Routes

/-!
# Trials are never ambiguous

Converting operands to parameters, and a result to the type that is hinted at, asks for builtin
conversions.  Of these there is never more than one cheapest chain, so no trial of an overload ends in
an ambiguous conversion (`Env.unambiguous_candidate`).
-/

namespace RangeTyping

/-- The computation does not fail because of an ambiguous conversion. -/
def Outcome.Unambiguous {α : Type} : Outcome Diagnostic α → Prop
  | .error (.error d) => d.cause.isAmbiguousCast = false
  | _ => True

namespace Analysis

variable {α β : Type} {s : Fresh}

/-- **A sequence of steps** is unambiguous if its steps are. -/
theorem unambiguous_bind {x : Analysis α} {f : α → Analysis β} (hx : Outcome.Unambiguous (x s))
    (hf : ∀ a t, x s = .ok (a, t) → Outcome.Unambiguous (f a t)) :
    Outcome.Unambiguous ((x >>= f) s) := by
  cases hxs : x s with
  | ok p =>
    rw [bind_of_ok hxs]
    exact hf p.1 p.2 hxs
  | error failure =>
    rw [hxs] at hx
    rw [bind_of_error hxs]
    cases failure with
    | internal e => trivial
    | error d => exact hx

theorem unambiguous_liftInternal (x : Except InternalError α) :
    Outcome.Unambiguous ((liftM x : Analysis α) s) := by
  cases x <;> trivial

/-- An identity that is drawn unless it is known already. -/
theorem unambiguous_drawUnless {c : Prop} [Decidable c] {i : ValueId} {f : ValueId → Analysis β}
    (hf : ∀ id t, Outcome.Unambiguous (f id t)) :
    Outcome.Unambiguous ((if c then (pure i >>= f) else (freshValue >>= f)) s) := by
  split
  · exact hf i s
  · exact hf _ _

end Analysis

namespace Env

variable {cookie : Registration → Nat} {s : Fresh} {env : Env} {budget : Budget}
  {location : Location} {e : TypedExpr} {o : Overload} {parameters : List Ty} {result : Ty}
  {arguments : List TypedExpr} {operands : List Operand} {hint : Option Ty} {destination : Ty}

theorem unambiguous_charge (b : Budget) (w : Weight) (l : Location) :
    Outcome.Unambiguous (b.charge w l s) := by
  unfold Budget.charge
  split
  · exact rfl
  · trivial

theorem unambiguous_intLiteral (value : Nat) (type : Ty) (a : Scalar) :
    Outcome.Unambiguous (intLiteral value type a s) :=
  Analysis.unambiguous_bind trivial fun _ _ _ =>
    Analysis.unambiguous_bind (Analysis.unambiguous_liftInternal _) fun _ _ _ => trivial

theorem unambiguous_naturalNumber (value : Nat) :
    Outcome.Unambiguous (env.naturalNumber budget value location s) := by
  refine Analysis.unambiguous_bind (Analysis.unambiguous_liftInternal _) fun fitting t _ => ?_
  cases fitting with
  | none => exact rfl
  | some a =>
    refine Analysis.unambiguous_bind (unambiguous_charge ..) fun b t _ => ?_
    exact Analysis.unambiguous_bind (unambiguous_intLiteral ..) fun _ _ _ => trivial

theorem unambiguous_castNodes (steps : List ChainStep) (e : TypedExpr) (s : Fresh) :
    Outcome.Unambiguous (steps.foldlM castNode e s) := by
  induction steps generalizing e s with
  | nil => trivial
  | cons step rest ih =>
    rw [List.foldlM_cons]
    refine Analysis.unambiguous_bind (Analysis.unambiguous_drawUnless fun _ _ => trivial) ?_
    exact fun e' t _ => ih e' t

theorem unambiguous_apply : Outcome.Unambiguous (env.apply o parameters result arguments s) := by
  unfold Env.apply
  cases o.kind with
  | user symbol =>
    refine Analysis.unambiguous_bind (Analysis.unambiguous_liftInternal _) fun range t _ => ?_
    exact Analysis.unambiguous_drawUnless fun _ _ => trivial
  | builtin op =>
    refine Analysis.unambiguous_bind (Analysis.unambiguous_liftInternal _) fun x t _ => ?_
    refine Analysis.unambiguous_bind (Analysis.unambiguous_liftInternal _) fun node t _ => ?_
    exact Analysis.unambiguous_drawUnless fun _ _ => trivial

section Conversions

variable (hG : (BuiltinTypes.ofBackend cookie).Sole env.context.castGraph)
include hG

/-- **A conversion** is unambiguous. -/
theorem unambiguous_convert (implicit : Bool) :
    Outcome.Unambiguous (env.convert budget destination implicit location e s) := by
  refine Analysis.unambiguous_bind ?_ fun chain t _ => ?_
  · cases hresolve : CastQuery.resolve env.structs env.context.castGraph
        ⟨e.type, e.range, destination, implicit, budget.remaining⟩ with
    | ok chain => trivial
    | error failure =>
      cases failure with
      | internal e => trivial
      | error error => exact CastQuery.isAmbiguous_of_resolve hG hresolve
  · refine Analysis.unambiguous_bind (unambiguous_charge ..) fun b t _ => ?_
    exact Analysis.unambiguous_bind (unambiguous_castNodes ..) fun _ _ _ => trivial

theorem unambiguous_coerce (o : Operand) (implicit : Bool) :
    Outcome.Unambiguous (env.coerce budget destination implicit location o s) := by
  cases o with
  | typed e => exact unambiguous_convert hG implicit
  | number value =>
    refine Analysis.unambiguous_bind (Analysis.unambiguous_liftInternal _) fun literal t _ => ?_
    cases literal with
    | some a =>
      refine Analysis.unambiguous_bind (unambiguous_charge ..) fun b t _ => ?_
      exact Analysis.unambiguous_bind (unambiguous_intLiteral ..) fun _ _ _ => trivial
    | none =>
      refine Analysis.unambiguous_bind (unambiguous_naturalNumber value) fun p t _ => ?_
      exact unambiguous_convert hG implicit
  | null =>
    rw [Env.coerce]
    split
    · trivial
    · exact rfl

theorem unambiguous_coerceAll (operands : List Operand) :
    Outcome.Unambiguous (env.coerceAll location budget operands parameters s) := by
  induction operands generalizing parameters budget s with
  | nil => trivial
  | cons o os ih =>
    cases parameters with
    | nil => trivial
    | cons t ts =>
      refine Analysis.unambiguous_bind (unambiguous_coerce hG o true) fun p s₁ _ => ?_
      exact Analysis.unambiguous_bind ih fun _ _ _ => trivial

/-- **The trial of an overload** is unambiguous. -/
theorem unambiguous_candidate :
    Outcome.Unambiguous (env.candidate budget o parameters result operands hint location s) := by
  refine Analysis.unambiguous_bind (unambiguous_coerceAll hG operands) fun p s₁ _ => ?_
  refine Analysis.unambiguous_bind unambiguous_apply fun q s₂ _ => ?_
  cases hint with
  | none => trivial
  | some t =>
    exact Analysis.unambiguous_bind (unambiguous_convert hG true) fun _ _ _ => trivial

end Conversions

end Env

end RangeTyping
