import Mathlib
import RangeTyping.Proofs.Analysis.Module

/-!
# Analysed modules are well typed

Every node of an analysed module satisfies its typing rule (`TypedExpr.WellTyped` for expressions,
`TypedStmt.WellTyped` for statements), where calls go to functions of the same module.
`Session.obeys_typing` states it for all the functions of a module, together with the rule for the
body as a whole: a function with a result returns one of its result type on every way to its end.
-/

namespace RangeTyping

/-- The typing rules in a function of the module that returns `returnType`. -/
def TypedModule.typing (m : TypedModule) (types : BuiltinTypes) (returnType : Ty) : Rule where
  expr _ e := e.WellTyped types m.Offers
  stmt _ s := s.WellTyped returnType

/-- A node stays well typed where more functions can be called. -/
theorem TypedExpr.WellTyped.mono {types : BuiltinTypes}
    {callable callable' : String → List Ty → Ty → Prop}
    (h : ∀ symbol parameters result, callable symbol parameters result →
      callable' symbol parameters result) {e : TypedExpr} (he : e.WellTyped types callable) :
    e.WellTyped types callable' := by
  cases e with
  | call i f as => exact h f _ _ he
  | int | bool | null | «variable» | cast | binary | logicalNot | block | valueBlock | ifThen
  | ifElse | dereference => exact he

namespace Session

variable {cookie : Registration → Nat} {s s' : Session} {options : Options} {m : Source.Module}
  {typed : TypedModule}

/-- **Every node of an analysed module satisfies its typing rule**, and the body of a function with
a result ends in a return statement or has the type of the result. -/
theorem obeys_typing (hs : Reached cookie s) (h : s.analyze options m = .ok (.ok typed, s')) :
    ∀ f ∈ typed.functions, f.body.Obeys (typed.typing (.ofBackend cookie) f.returnType) [] ∧
      (f.returnType.isVoid = false →
        f.body.endsWithReturn = true ∨ f.body.type = f.returnType) := by
  obtain ⟨X, hX⟩ := hs.analysed h
  intro f hf
  obtain ⟨hr, vs, hdefines⟩ := hX.defines f hf
  constructor
  · refine TypedExpr.Obeys.mono ?_ ?_ f.body hdefines.obeys
    · intro _ _ e he
      have htypes : (X.returning f.returnType hr).types = .ofBackend cookie := by
        rw [← hX.cookie]
        rfl
      show e.WellTyped (.ofBackend cookie) typed.Offers
      rw [← htypes]
      exact he.2.2.1.mono hX.offers
    · intro _ _ st hst
      exact hst.1
  · intro hvoid
    exact (hdefines.result hvoid).imp_right And.left

/-- The rules hold of a module with a conditional, an assignment and a call. -/
theorem obeys_typing_climb : ∃ typed s', (start fun _ => 0).analyze .default climb =
    .ok (.ok typed, s') ∧ typed.functions ≠ [] ∧
    ∀ f ∈ typed.functions, f.body.Obeys (typed.typing (.ofBackend fun _ => 0) f.returnType) [] ∧
      (f.returnType.isVoid = false →
        f.body.endsWithReturn = true ∨ f.body.type = f.returnType) := by
  obtain ⟨typed, s', h, hne⟩ := climb_analysed
  exact ⟨typed, s', h, hne, obeys_typing .start h⟩

end Session

end RangeTyping
