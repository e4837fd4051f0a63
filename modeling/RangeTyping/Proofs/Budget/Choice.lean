import Mathlib
import RangeTyping.Proofs.Budget.Cost
import RangeTyping.Proofs.Renaming.Overload

/-!
# The chosen overload is the cheapest

Of all overloads of a name that can type the operands and reach the type that is expected, the one
that is chosen makes the expression of least cost, and every other one makes a dearer one
(`Env.Chooses`).  This compares costs of typed trees and not the weights of trials, and it takes
every overload into account that could be used on the largest budget there is, whether or not the
budget at hand would have paid for it.

Two facts lead there.  A trial comes to the same weight whichever identities it draws
(`Env.alike_candidate`), so the trials of a choice can be compared although they draw one after the
other.  And on a larger budget the choice is the same, since what the smaller one cannot pay for is
dearer than what it can (`Env.least_verdict_raise`).  The main statement is `Env.Proper.chooses`.
-/

namespace RangeTyping

/-! ### Steps that do not depend on the supply -/

/-- **Whatever supplies they draw from, both steps end alike**: in results related by `R`, in
diagnostics, or in internal errors. -/
def Analysis.Alike {α β : Type} (R : α → β → Prop) (x : Analysis α) (y : Analysis β) : Prop :=
  ∀ s t, Outcome.Agrees (fun _ _ => True) (fun a b => R a.1 b.1) (x s) (y t)

namespace Analysis.Alike

variable {α β γ ζ : Type} {R : α → β → Prop} {Q : γ → ζ → Prop}

theorem bind {x : Analysis α} {y : Analysis β} {f : α → Analysis γ} {g : β → Analysis ζ}
    (h : Alike R x y) (hf : ∀ a b, R a b → Alike Q (f a) (g b)) :
    Alike Q (x >>= f) (y >>= g) :=
  fun s t => Outcome.Agrees.bind (h s t) fun a b _ _ hR => hf a.1 b.1 hR a.2 b.2

theorem pure {a : α} {b : β} (h : R a b) : Alike R (Pure.pure a) (Pure.pure b) :=
  fun _ _ => .ok h

theorem fail (c c' : Cause) (l l' : Location) :
    Alike R (.fail c l : Analysis α) (.fail c' l' : Analysis β) :=
  fun _ _ => .fail trivial

theorem lift (x : Outcome Diagnostic α) :
    Alike (· = ·) (liftM x : Analysis α) (liftM x : Analysis α) := by
  intro s t
  cases x with
  | ok a => exact .ok rfl
  | error e =>
    cases e with
    | error d => exact .fail trivial
    | internal e => exact .internal e e

theorem liftInternal (x : Except InternalError α) :
    Alike (· = ·) (liftM x : Analysis α) (liftM x : Analysis α) := by
  intro s t
  cases x with
  | ok a => exact .ok rfl
  | error e => exact .internal e e

/-- A new identity, or one that is known already. -/
theorem drawUnless {c : Prop} [Decidable c] {i j : ValueId} {f : ValueId → Analysis γ}
    {g : ValueId → Analysis ζ} (h : ∀ v w, Alike Q (f v) (g w)) :
    Alike Q (if c then (Pure.pure i >>= f) else (freshValue >>= f))
      (if c then (Pure.pure j >>= g) else (freshValue >>= g)) := by
  by_cases hc : c
  · rw [if_pos hc, if_pos hc]
    exact h i j
  · rw [if_neg hc, if_neg hc]
    exact fun s t => h _ _ _ _

theorem charge (b : Budget) (w : Weight) (l : Location) :
    Alike (· = ·) (b.charge w l) (b.charge w l) := by
  unfold Budget.charge
  dsimp only
  split
  · exact .fail _ _ _ _
  · exact .pure rfl

end Analysis.Alike

/-- The expressions have the same type and the same range. -/
def TypedExpr.Akin (e e' : TypedExpr) : Prop := e'.type = e.type ∧ e'.range = e.range

/-- The results are related, and as much is spent. -/
def SpendsAlike {α β : Type} (R : α → β → Prop) (p : α × Budget) (q : β × Budget) : Prop :=
  R p.1 q.1 ∧ q.2 = p.2

/-- Steps that spend something go on with the same budget. -/
theorem Analysis.Alike.spend {α β γ ζ : Type} {R : α → β → Prop} {Q : γ → ζ → Prop}
    {x : Analysis (α × Budget)} {y : Analysis (β × Budget)} {f : α × Budget → Analysis γ}
    {g : β × Budget → Analysis ζ} (h : Alike (SpendsAlike R) x y)
    (hf : ∀ a b budget, R a b → Alike Q (f (a, budget)) (g (b, budget))) :
    Alike Q (x >>= f) (y >>= g) := by
  refine h.bind ?_
  rintro ⟨a, _⟩ ⟨b, budget⟩ ⟨hR, rfl⟩
  exact hf a b budget hR

namespace Env

open Analysis (Alike)

variable {env : Env} {budget : Budget} {location : Location} {e e' : TypedExpr}

/-! ### Literals and conversions -/

theorem alike_intLiteral (value : Nat) (type : Ty) (a : Scalar) :
    Alike TypedExpr.Akin (intLiteral value type a) (intLiteral value type a) := by
  refine Alike.bind (R := fun _ _ => True) (fun _ _ => .ok trivial) fun id id' _ => ?_
  refine (Alike.liftInternal _).bind ?_
  rintro range _ rfl
  exact .pure ⟨rfl, rfl⟩

theorem alike_naturalNumber (value : Nat) :
    Alike (SpendsAlike TypedExpr.Akin) (env.naturalNumber budget value location)
      (env.naturalNumber budget value location) := by
  refine (Alike.liftInternal _).bind ?_
  rintro fitting _ rfl
  cases fitting with
  | none => exact .fail _ _ _ _
  | some a =>
    refine (Alike.charge _ _ _).bind ?_
    rintro b _ rfl
    exact (alike_intLiteral _ _ _).bind fun e e' he => .pure ⟨he, rfl⟩

theorem alike_castNodes (steps : List ChainStep) (h : e.Akin e') :
    Alike TypedExpr.Akin (steps.foldlM castNode e) (steps.foldlM castNode e') := by
  induction steps generalizing e e' with
  | nil => exact .pure h
  | cons step rest ih =>
    rw [List.foldlM_cons, List.foldlM_cons]
    refine Alike.bind (R := TypedExpr.Akin) ?_ fun a b hab => ih hab
    exact Alike.drawUnless fun v w => .pure ⟨rfl, rfl⟩

/-- **A conversion** depends on the type and the range of what is converted. -/
theorem alike_convert (destination : Ty) (implicit : Bool) (h : e.Akin e') :
    Alike (SpendsAlike TypedExpr.Akin) (env.convert budget destination implicit location e)
      (env.convert budget destination implicit location e') := by
  unfold convert
  rw [h.1, h.2]
  refine (Alike.lift _).bind ?_
  rintro chain _ rfl
  refine (Alike.charge _ _ _).bind ?_
  rintro b _ rfl
  exact (alike_castNodes _ h).bind fun a a' ha => .pure ⟨ha, rfl⟩

theorem alike_coerce (destination : Ty) (implicit : Bool) (o : Operand) :
    Alike (SpendsAlike TypedExpr.Akin) (env.coerce budget destination implicit location o)
      (env.coerce budget destination implicit location o) := by
  cases o with
  | typed e => exact alike_convert destination implicit ⟨rfl, rfl⟩
  | number value =>
    refine (Alike.liftInternal _).bind ?_
    rintro literal _ rfl
    cases literal with
    | some a =>
      refine (Alike.charge _ _ _).bind ?_
      rintro b _ rfl
      exact (alike_intLiteral _ _ _).bind fun e e' he => .pure ⟨he, rfl⟩
    | none =>
      exact (alike_naturalNumber value).spend fun e e' b he => alike_convert destination implicit he
  | null =>
    simp only [coerce]
    split
    · exact Alike.bind (R := fun _ _ => True) (fun _ _ => .ok trivial)
        fun id id' _ => .pure ⟨⟨rfl, rfl⟩, rfl⟩
    · exact .fail _ _ _ _

/-! ### Overloads -/

variable {o : Overload} {parameters : List Ty} {result : Ty} {operands : List Operand}
  {arguments arguments' : List TypedExpr} {hint : Option Ty}

theorem alike_coerceAll (operands : List Operand) (parameters : List Ty) :
    Alike (SpendsAlike (List.Forall₂ TypedExpr.Akin))
      (env.coerceAll location budget operands parameters)
      (env.coerceAll location budget operands parameters) := by
  induction operands generalizing parameters budget with
  | nil => exact .pure ⟨.nil, rfl⟩
  | cons o os ih =>
    cases parameters with
    | nil => exact .pure ⟨.nil, rfl⟩
    | cons u us =>
      refine (alike_coerce u true o).spend fun e e' b he => ?_
      exact (ih us).spend fun es es' b' hes => .pure ⟨.cons he hes, rfl⟩

/-- The ranges of akin arguments are the same. -/
theorem operandRanges_akin (operator : String) (h : List.Forall₂ TypedExpr.Akin arguments arguments') :
    env.operandRanges operator arguments' parameters =
      env.operandRanges operator arguments parameters := by
  induction h generalizing parameters with
  | nil => rfl
  | @cons e e' es es' he hes ih =>
    cases parameters with
    | nil => rfl
    | cons u us => rw [operandRanges, operandRanges, he.2, ih]

theorem operatorRange_akin (operator : String) (op : BuiltinOperator)
    (h : List.Forall₂ TypedExpr.Akin arguments arguments') :
    env.operatorRange operator op result arguments' parameters =
      env.operatorRange operator op result arguments parameters := by
  unfold operatorRange
  rw [operandRanges_akin operator h]

/-- Operators make akin nodes of as many arguments. -/
theorem alike_operatorNode (operator : String) (op : BuiltinOperator)
    (h : List.Forall₂ TypedExpr.Akin arguments arguments') :
    Alike (fun f g => ∀ type range id id', (f ⟨id, type, range⟩).Akin (g ⟨id', type, range⟩))
      (liftM (operatorNode operator op arguments) : Analysis (ValueInfo → TypedExpr))
      (liftM (operatorNode operator op arguments') : Analysis (ValueInfo → TypedExpr)) := by
  intro s t
  cases op with
  | binary operation =>
    cases h with
    | nil => exact .internal _ _
    | cons _ h =>
      cases h with
      | nil => exact .internal _ _
      | cons _ h =>
        cases h with
        | nil => exact .ok fun type range id id' => ⟨rfl, rfl⟩
        | cons _ _ => exact .internal _ _
  | logicalNot =>
    cases h with
    | nil => exact .internal _ _
    | cons _ h =>
      cases h with
      | nil => exact .ok fun type range id id' => ⟨rfl, rfl⟩
      | cons _ _ => exact .internal _ _

theorem alike_apply (h : List.Forall₂ TypedExpr.Akin arguments arguments') :
    Alike (fun p q => p.1.Akin q.1 ∧ q.2 = p.2) (env.apply o parameters result arguments)
      (env.apply o parameters result arguments') := by
  unfold apply
  cases o.kind with
  | user symbol =>
    refine (Alike.liftInternal _).bind ?_
    rintro range _ rfl
    exact Alike.drawUnless fun v w => .pure ⟨⟨rfl, rfl⟩, rfl⟩
  | builtin op =>
    dsimp only
    rw [operatorRange_akin _ _ h]
    refine (Alike.liftInternal _).bind ?_
    rintro ⟨range, undefined⟩ _ rfl
    refine (alike_operatorNode _ op h).bind fun f g hfg => ?_
    exact Alike.drawUnless fun v w => .pure ⟨hfg _ _ _ _, rfl⟩

/-- **A trial comes to the same weight whichever identities it draws.** -/
theorem alike_candidate :
    Alike (fun c c' => c'.weight = c.weight)
      (env.candidate budget o parameters result operands hint location)
      (env.candidate budget o parameters result operands hint location) := by
  refine (alike_coerceAll operands parameters).spend fun as as' b has => ?_
  refine (alike_apply has).bind ?_
  rintro ⟨e, undefined⟩ ⟨e', _⟩ ⟨he, -⟩
  cases hint with
  | none => exact .pure rfl
  | some expected =>
    exact (alike_convert expected true he).spend fun a a' b' ha => .pure rfl

/-- **The verdict on an overload does not depend on the supply.** -/
theorem verdict_alike (s t : Fresh) :
    env.verdict budget operands hint location t o = env.verdict budget operands hint location s o := by
  have hofTrial : ∀ {x y : Outcome Diagnostic (Candidate × Fresh)},
      Outcome.Agrees (fun _ _ => True) (fun a b => b.1.weight = a.1.weight) x y →
        Verdict.ofTrial y = Verdict.ofTrial x := by
    intro x y h
    cases h with
    | ok h => exact congrArg Verdict.usable h
    | fail h => rfl
    | internal i j => rfl
  unfold verdict
  split
  · split
    · exact hofTrial (alike_candidate s t)
    · rfl
  · rfl

/-! ### Choices -/

/-- **The overload can be used**: it types the operands and reaches the type that is expected, if
there is one, on the largest budget there is.  The candidate is what it makes of them. -/
def Applies (env : Env) (operands : List Operand) (hint : Option Ty) (location : Location)
    (o : Overload) (c : Candidate) : Prop :=
  ∃ parameters result s s', o.signature env.structs = .ok (parameters, result) ∧
    parameters.length = operands.length ∧
    env.candidate (.ofLimit maxWeight) o parameters result operands hint location s = .ok (c, s')

/-- **The expression is made by the cheapest overload of the name**: every other overload that can be
used on the operands makes an expression that costs more. -/
def Chooses (W : Ty → Ty → Weight) (env : Env) (name : String) (operands : List Operand)
    (hint : Option Ty) (location : Location) (e : TypedExpr) : Prop :=
  ∃ f before o after c, env.context.object? name = some (.function f) ∧
    f.overloads = before ++ o :: after ∧ env.Applies operands hint location o c ∧
    c.expression = e ∧ c.undefined = none ∧
    ∀ o' ∈ before ++ after, ∀ c', env.Applies operands hint location o' c' →
      e.cost W < c'.expression.cost W

/-- A single least element among some of a list, and the others. -/
theorem split_of_least {α : Type} {w : α → Weight} {p : α → Bool} {l : List α} {a : α}
    (h : least w (l.filter p) = [a]) :
    ∃ before after, l = before ++ a :: after ∧ ∀ b ∈ before ++ after, p b = true → w a < w b := by
  have ha := mem_least.1 (h ▸ List.mem_singleton_self a)
  rw [least, List.filter_filter, List.filter_eq_cons_iff] at h
  obtain ⟨before, after, rfl, hbefore, -, hafter⟩ := h
  rw [List.filter_eq_nil_iff] at hafter
  refine ⟨before, after, rfl, fun b hb hpb => ?_⟩
  have hnot := (List.mem_append.1 hb).elim (hbefore b) (hafter b)
  by_contra hle
  -- what weighs no more than a least element is least as well
  refine hnot (Bool.and_eq_true_iff.2 ⟨List.all_eq_true.2 fun c hc => decide_eq_true ?_, hpb⟩)
  exact (not_lt.1 hle).trans (ha.2 c hc)

variable {X : Setting} {W : Ty → Ty → Weight} {vs : List Variable} {s s' : Fresh}
  {budget' : Budget}

/-- **An overload that was tried and can be used**, with what it costs on the operands. -/
theorem Proper.accounts_applies {c : Candidate} (hp : env.Proper X vs s) (hW : X.Weighs W)
    (ho : X.Offers o) (hmade : ∀ o ∈ operands, o.Made X vs) (hh : PlainHint X hint)
    (h : env.Applies operands hint location o c) :
    c.weight ≤ maxWeight ∧ c.expression.charges W = operands.flatMap (Operand.charges W) ∧
      ∃ n, c.expression.cost W = (operands.map (Operand.cost W)).sum + n ∧
        min n maxWeight = c.weight := by
  obtain ⟨parameters, result, t, t', hsig, hlen, hc⟩ := h
  have hle : c.weight ≤ maxWeight := weight_le_of_candidate (.ofLimit le_rfl le_rfl) hc
  obtain ⟨b, hb, hcharges, n, hn, hpays⟩ := hp.accounts_candidate hW ho hsig hmade hlen hh hc
  refine ⟨hle, hcharges, n, hn, ?_⟩
  have hspent := hpays.spent
  rw [hb, min_eq_left hle] at hspent
  rw [hspent]
  exact congrArg (min · maxWeight) (Nat.zero_add n).symm

/-- **A choice makes the cheapest expression**, and what that adds to the operands is paid. -/
theorem Proper.chooses {name : String} {f : OverloadSet} (hp : env.Proper X vs s)
    (hW : X.Weighs W) (hlimit : budget.limit ≤ maxWeight)
    (hobject : env.context.object? name = some (.function f))
    (hmade : ∀ o ∈ operands, o.Made X vs) (hh : PlainHint X hint)
    (h : env.select budget name f.overloads operands hint location s = .ok ((e, budget'), s')) :
    env.Chooses W name operands hint location e ∧
      e.Accounts W budget budget' (operands.map (Operand.cost W)).sum
        (operands.flatMap (Operand.charges W)) := by
  have hoffers := hp.overloads hobject
  obtain ⟨viable, failures, s₁, hx, hdecided⟩ := hp.exists_decided
    (K := env.verdict budget operands hint location s) hoffers hmade hh fun o _ u _ =>
      verdict_alike s u
  obtain ⟨winner, hwinner, rfl, hundefined, hpays, rfl, rfl⟩ := select_ok hx h
  -- one overload has the least weight on what is left of the budget
  have hbest := forall₂_cheapest hdecided.tried
  rw [hwinner] at hbest
  obtain ⟨o, _, ⟨htried, hweight⟩, hnone, hleast⟩ := List.forall₂_cons_right_iff.1 hbest
  cases List.forall₂_nil_right_iff.1 hnone
  have hmem := (mem_least.1 (hleast ▸ List.mem_singleton_self o)).1
  have ho := hoffers o (List.mem_filter.1 hmem).1
  have husable := Verdict.isUsable_iff.1 (List.mem_filter.1 hmem).2
  -- and so it has on the largest one
  have hraised : (Budget.ofLimit budget.remaining).RaisedTo (.ofLimit maxWeight) :=
    .inr (.ofLimit ((Nat.sub_le ..).trans hlimit) le_rfl)
  obtain ⟨before, after, hsplit, hothers⟩ :=
    split_of_least ((least_verdict_raise hraised hmem).trans hleast)
  obtain ⟨parameters, result, u, u', hsig, hlen, -, -, hc⟩ := htried
  have happlies : env.Applies operands hint location o winner :=
    ⟨parameters, result, u, u', hsig, hlen, candidate_raise hraised hc⟩
  obtain ⟨hle, hcharges, n, hn, hmin⟩ := hp.accounts_applies hW ho hmade hh happlies
  refine ⟨⟨f, before, o, after, winner, hobject, hsplit, happlies, rfl, hundefined, ?_⟩, ?_⟩
  · intro o' ho' c' hc'
    have hmem' : o' ∈ f.overloads := by
      rw [hsplit]
      exact List.mem_append.2 ((List.mem_append.1 ho').imp_right (List.mem_cons_of_mem _))
    obtain ⟨-, -, n', hn', hmin'⟩ := hp.accounts_applies hW (hoffers o' hmem') hmade hh hc'
    obtain ⟨parameters', result', t, t', hsig', hlen', hcandidate'⟩ := hc'
    have hverdict' : env.verdict (.ofLimit maxWeight) operands hint location s o' =
        .usable c'.weight := by
      rw [verdict_alike t s]
      exact verdict_of_candidate hsig' hlen' hcandidate'
    have hlt := hothers o' ho' (by rw [hverdict']; rfl)
    rw [hverdict', verdict_raise hraised husable] at hlt
    have hlt : winner.weight < c'.weight := hweight ▸ hlt
    rw [← hmin, ← hmin'] at hlt
    rw [hn, hn']
    simp only [Weight] at *
    omega
  · refine ⟨hcharges, n, hn, (Budget.Pays.add hpays).congr ?_⟩
    rw [hmin, min_eq_left hle]

end Env

end RangeTyping
