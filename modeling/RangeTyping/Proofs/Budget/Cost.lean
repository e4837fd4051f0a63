import Mathlib
import RangeTyping.Proofs.Analysis.Overload
import RangeTyping.Proofs.Budget.Metered
import RangeTyping.Proofs.Cast.Table

/-!
# What typed trees cost

The weight of an expression can be read off its typed tree: every integer literal has the literal
weight of its type, and every conversion the weight of its edge in the graph of conversions
(`CastGraph.weight`).  The cost of an expression (`TypedExpr.cost`) adds up what is charged to the
budget that the expression is analysed on.  What has a budget of its own, which is a statement in a
block and the test of a conditional, is left out there and listed by `TypedExpr.charges` instead.

An analysis charges in portions: literals and conversions when they are made, the arguments of an
overload to the budget of its trial, and what the winner spent in one sum.  The main statements say
that the portions add up to the cost of what is made (`Budget.Pays`): `Env.Proper.accounts_coerce`,
`Env.Proper.accounts_settle` and `Env.Proper.accounts_candidate`.
-/

namespace RangeTyping

/-! ### The weight of a conversion -/

/-- The weight of the conversion that leads from one type to another, and 0 if there is none. -/
def CastGraph.weight (S : StructStore) (G : CastGraph) (source destination : Ty) : Weight :=
  (((G.castsTo S destination).find? (·.source.same S source)).map (·.weight)).getD 0

namespace Setting

variable {X : Setting} {G : CastGraph} {c : Cast}

/-- The function tells the weights of all conversions. -/
def Weighs (X : Setting) (W : Ty → Ty → Weight) : Prop :=
  ∀ c, X.Edge c → W c.source c.destination = c.weight

/-- **A graph with the conversions of the builtins tells the weight of each.** -/
theorem weighs_of_sole (hG : X.types.Sole G) : X.Weighs (G.weight X.structs) := by
  intro c hc
  have hmem := mem_castsTo_of_edge hG hc
  have hdest := hc.plain_destination.known
  unfold CastGraph.weight
  cases hfind : (G.castsTo X.structs c.destination).find? (·.source.same X.structs c.source) with
  | none =>
    have hdiffer := List.find?_eq_none.1 hfind c hmem
    rw [Ty.same_self] at hdiffer
    exact absurd rfl hdiffer
  | some d =>
    -- conversions to one type start at different types
    have hd := List.mem_of_find?_eq_some hfind
    have hknown := known_source_of_mem_castsTo (carries_of_sole hG) _ hdest d hd
    have hsame := List.find?_some hfind
    have hsource := eq_of_same hknown hc.known_source hsame
    rw [List.inj_on_of_nodup_map (nodup_sources hG _) hd hmem hsource]
    rfl

end Setting

/-! ### Costs -/

/-- The literal weight of a type. -/
def Ty.literalWeight (t : Ty) : Weight := (t.asScalar?.map Scalar.literalWeight).getD 0

mutual
/-- **What an expression costs** on the budget that it is analysed on, if `W` tells the weights of
conversions. -/
def TypedExpr.cost (W : Ty → Ty → Weight) : TypedExpr → Nat
  | .int i _ => i.type.literalWeight
  | .bool _ _ | .null _ | .variable _ _ | .block _ _ => 0
  | .cast i _ e => cost W e + W e.type i.type
  | .call _ _ as => costAll W as
  | .binary _ _ l r => cost W l + cost W r
  | .logicalNot _ e | .dereference _ e => cost W e
  | .valueBlock _ _ r => cost W r
  | .ifThen _ _ a _ => cost W a
  | .ifElse _ _ a b _ _ => cost W a + cost W b

/-- What several expressions cost. -/
def TypedExpr.costAll (W : Ty → Ty → Weight) : List TypedExpr → Nat
  | [] => 0
  | e :: es => cost W e + costAll W es
end

/-- What a budget is for. -/
inductive Account where
  | expression
  | initializer
deriving DecidableEq, Repr

/-- What is charged to a budget in the end. -/
structure Charge where
  account : Account
  weight : Nat
deriving DecidableEq, Repr

mutual
/-- **The charges to all budgets that are opened inside an expression.** -/
def TypedExpr.charges (W : Ty → Ty → Weight) : TypedExpr → List Charge
  | .int _ _ | .bool _ _ | .null _ | .variable _ _ => []
  | .cast _ _ e | .logicalNot _ e | .dereference _ e => charges W e
  | .call _ _ as => chargesAll W as
  | .binary _ _ l r => charges W l ++ charges W r
  | .block _ ss => stmtChargesAll W ss
  | .valueBlock _ ss r => stmtChargesAll W ss ++ charges W r
  | .ifThen _ t a _ => ⟨.expression, t.cost W⟩ :: (charges W t ++ charges W a)
  | .ifElse _ t a b _ _ => ⟨.expression, t.cost W⟩ :: (charges W t ++ (charges W a ++ charges W b))

/-- The charges to all budgets that are opened inside expressions. -/
def TypedExpr.chargesAll (W : Ty → Ty → Weight) : List TypedExpr → List Charge
  | [] => []
  | e :: es => charges W e ++ chargesAll W es

/-- The charges to the budget of a statement and to those that are opened inside it. -/
def TypedExpr.stmtCharges (W : Ty → Ty → Weight) : TypedStmt → List Charge
  | .expression e | .returnValue e => ⟨.expression, e.cost W⟩ :: charges W e
  | .define _ e => ⟨.initializer, e.cost W⟩ :: charges W e
  | .assign t e => ⟨.expression, t.cost W + e.cost W⟩ :: (charges W t ++ charges W e)
  | .returnVoid => []

/-- The charges to the budgets of statements and to those that are opened inside them. -/
def TypedExpr.stmtChargesAll (W : Ty → Ty → Weight) : List TypedStmt → List Charge
  | [] => []
  | s :: ss => stmtCharges W s ++ stmtChargesAll W ss
end

/-- **All charges of a function**: to the budget of its result, and to those opened inside. -/
def TypedFunction.charges (W : Ty → Ty → Weight) (f : TypedFunction) : List Charge :=
  ⟨.expression, f.body.cost W⟩ :: f.body.charges W

/-- The limit of a budget; `none` is no limit. -/
def Options.limitOf (o : Options) : Account → Option Weight
  | .expression => some o.expressionLimit
  | .initializer => o.initializerLimit

/-- **The charge is within its limit.**  Like all sums of weights, it counts up to the largest
weight, so that a limit of the largest weight allows everything. -/
def Options.Allows (o : Options) (c : Charge) : Prop :=
  ∀ limit, o.limitOf c.account = some limit → min c.weight maxWeight ≤ limit

/-- What an operand costs; open literals cost nothing yet. -/
def Operand.cost (W : Ty → Ty → Weight) : Operand → Nat
  | .typed e => e.cost W
  | .number _ | .null => 0

/-- The charges to all budgets that are opened inside an operand. -/
def Operand.charges (W : Ty → Ty → Weight) : Operand → List Charge
  | .typed e => e.charges W
  | .number _ | .null => []

namespace TypedExpr

variable {W : Ty → Ty → Weight}

/-- **An unread value costs what it costs when it is read.** -/
@[simp] theorem cost_discard (e : TypedExpr) : e.discard.cost W = e.cost W := by
  fun_induction discard e with
  | case3 i s _ ih => rw [cost, cost, ih, type_discard]
  | case4 i ss r _ ih => rw [cost, cost, ih]
  | _ => rfl

@[simp] theorem charges_discard (e : TypedExpr) : e.discard.charges W = e.charges W := by
  fun_induction discard e with
  | case3 i s _ ih => rw [charges, charges, ih]
  | case4 i ss r _ ih => rw [charges, charges, ih]
  | _ => rfl

end TypedExpr

/-! ### Payments -/

/-- **A weight was paid**: it was spent, up to the largest weight that can be counted, and a limit
that was kept is kept. -/
structure Budget.Pays (b b' : Budget) (weight : Nat) : Prop where
  limit : b'.limit = b.limit
  spent : min b'.spent maxWeight = min (b.spent + weight) maxWeight
  sound : b.spent ≤ b.limit → b'.spent ≤ b'.limit

namespace Budget.Pays

variable {b b' b'' : Budget} {n m : Nat}

theorem refl (b : Budget) : b.Pays b 0 := ⟨rfl, rfl, id⟩

theorem trans (h : b.Pays b' n) (h' : b'.Pays b'' m) : b.Pays b'' (n + m) := by
  refine ⟨h'.limit.trans h.limit, ?_, fun hsound => h'.sound (h.sound hsound)⟩
  have hspent := h.spent
  have hspent' := h'.spent
  simp only [Weight] at *
  omega

/-- Weights that count alike are paid alike. -/
theorem congr (h : b.Pays b' n) (heq : min n maxWeight = min m maxWeight) : b.Pays b' m := by
  refine ⟨h.limit, ?_, h.sound⟩
  have hspent := h.spent
  simp only [Weight] at *
  omega

theorem add {w : Weight} (h : addWeight b.spent w ≤ b.limit) :
    b.Pays ⟨b.limit, addWeight b.spent w⟩ w :=
  ⟨rfl, min_eq_left (min_le_right _ _), fun _ => h⟩

theorem charge {w : Weight} {location : Location} {s s' : Fresh}
    (h : b.charge w location s = .ok (b', s')) : b.Pays b' w := by
  obtain ⟨rfl, hle, -⟩ := charge_ok h
  exact .add hle

/-- **What was paid from a new budget is within its limit.** -/
theorem le_limit {limit : Weight} (h : (Budget.ofLimit limit).Pays b n) :
    min n maxWeight ≤ limit := by
  have hspent : min b.spent maxWeight = min n maxWeight := by
    rw [h.spent]
    exact congrArg (min · maxWeight) (Nat.zero_add n)
  calc min n maxWeight = min b.spent maxWeight := hspent.symm
    _ ≤ b.spent := min_le_left _ _
    _ ≤ b.limit := h.sound (Nat.zero_le _)
    _ = limit := h.limit

end Budget.Pays

/-- An expression was made of parts that cost `parts` and hold the charges `held`: it holds no other
charges, and what it costs more was paid. -/
structure TypedExpr.Accounts (W : Ty → Ty → Weight) (b b' : Budget) (parts : Nat)
    (held : List Charge) (e : TypedExpr) : Prop where
  charges : e.charges W = held
  paid : ∃ n, e.cost W = parts + n ∧ b.Pays b' n

namespace TypedExpr.Accounts

variable {W : Ty → Ty → Weight} {b b' b'' : Budget} {parts : Nat} {held : List Charge}
  {e e' : TypedExpr}

theorem refl (b : Budget) (e : TypedExpr) : e.Accounts W b b (e.cost W) (e.charges W) :=
  ⟨rfl, 0, rfl, .refl b⟩

theorem trans (h : e.Accounts W b b' parts held)
    (h' : e'.Accounts W b' b'' (e.cost W) (e.charges W)) : e'.Accounts W b b'' parts held := by
  obtain ⟨n, hn, hpays⟩ := h.paid
  obtain ⟨m, hm, hpays'⟩ := h'.paid
  exact ⟨h'.charges.trans h.charges, n + m, by omega, hpays.trans hpays'⟩

/-- The whole was paid if the parts were. -/
theorem pays (h : e.Accounts W b' b'' parts held) (hparts : b.Pays b' parts) :
    b.Pays b'' (e.cost W) := by
  obtain ⟨n, hn, hpays⟩ := h.paid
  rw [hn]
  exact hparts.trans hpays

end TypedExpr.Accounts

/-! ### Chains -/

namespace CastQuery

/-- The weight of a chain is the sum of the weights of its conversions, up to the greatest weight. -/
theorem totalWeight_eq_min (casts : List Cast) :
    totalWeight casts = min (casts.map (·.weight)).sum maxWeight := by
  have hfold := foldl_addWeight Cast.weight casts 0
  rwa [Nat.zero_min, Nat.zero_add] at hfold

variable {S : StructStore} {G : CastGraph} {q : CastQuery} {chain : Chain}

theorem casts_of_steps {r : Option ValueRange} {casts : List Cast} {steps : List ChainStep}
    (h : q.steps r casts = .ok steps) : steps.map (·.cast) = casts := by
  induction casts generalizing r steps with
  | nil =>
    cases h
    rfl
  | cons c rest ih =>
    obtain ⟨after, -, h⟩ := Outcome.bind_ok h
    obtain ⟨others, hothers, h⟩ := Outcome.bind_ok h
    cases h
    rw [List.map_cons, ih hothers]

end CastQuery

/-- **The chain that answers a query** leads from its source to its destination, and its weight is
that of its conversions. -/
theorem Setting.linked_of_resolve {X : Setting} {G : CastGraph} {q : CastQuery} {chain : Chain}
    (hG : X.Carries G) (hs : X.Known q.source) (hd : X.Known q.destination)
    (h : q.resolve X.structs G = .ok chain) :
    X.Linked q.source (chain.steps.map (·.cast)) q.destination ∧
      chain.weight = CastQuery.totalWeight (chain.steps.map (·.cast)) := by
  rcases CastQuery.resolve_ok h with ⟨hsame, rfl⟩ | ⟨-, casts, steps, hcasts, -, hsteps, rfl⟩
  · exact ⟨eq_of_same hs hd hsame, rfl⟩
  · rw [CastQuery.casts_of_steps hsteps]
    exact ⟨linked_of_casts hG hs hd hcasts, rfl⟩

/-! ### Literals and conversions -/

namespace Env

variable {X : Setting} {W : Ty → Ty → Weight} {vs : List Variable} {s₀ s s' : Fresh} {env : Env}
  {budget budget' : Budget} {location : Location} {e e' : TypedExpr}

theorem intLiteral_ok {value : Nat} {type : Ty} {a : Scalar}
    (h : intLiteral value type a s = .ok (e, s')) :
    e.type = type ∧ e.cost W = type.literalWeight ∧ e.charges W = [] := by
  obtain ⟨id, t, -, h⟩ := Analysis.bind_ok h
  obtain ⟨r, t', -, h⟩ := Analysis.bind_ok h
  obtain ⟨rfl, -⟩ := Analysis.pure_ok h
  exact ⟨rfl, rfl, rfl⟩

/-- **A number that takes a type of its own** is charged with the literal weight of that type. -/
theorem accounts_naturalNumber {value : Nat}
    (h : env.naturalNumber budget value location s = .ok ((e, budget'), s')) :
    e.Accounts W budget budget' 0 [] ∧ ∃ a ∈ env.types.integers, e.type = .ofScalar a := by
  obtain ⟨fitting, t, hlift, h⟩ := Analysis.bind_ok h
  obtain ⟨hfit, -⟩ := Analysis.liftInternal_ok hlift
  cases fitting with
  | none => exact (Analysis.fail_ok h).elim
  | some a =>
    obtain ⟨b, t, hcharge, h⟩ := Analysis.bind_ok h
    obtain ⟨l, t, hl, h⟩ := Analysis.bind_ok h
    cases h
    obtain ⟨htype, hcost, hcharges⟩ := intLiteral_ok (W := W) hl
    refine ⟨⟨hcharges, _, ?_, .charge hcharge⟩, a, (firstFitting?_ok hfit).1, htype⟩
    rw [hcost, Nat.zero_add]
    rfl

/-- The steps of a chain as nodes cost the weights of their conversions. -/
theorem cost_castNodes (hW : X.Weighs W) {steps : List ChainStep} {destination : Ty}
    (hlinked : X.Linked e.type (steps.map (·.cast)) destination)
    (h : steps.foldlM castNode e s = .ok (e', s')) :
    e'.type = destination ∧ e'.charges W = e.charges W ∧
      e'.cost W = e.cost W + ((steps.map (·.cast)).map (·.weight)).sum := by
  induction steps generalizing e s with
  | nil =>
    obtain ⟨rfl, -⟩ := Analysis.pure_ok h
    exact ⟨hlinked, rfl, rfl⟩
  | cons step rest ih =>
    rw [List.foldlM_cons] at h
    obtain ⟨e₁, t, h₁, h⟩ := Analysis.bind_ok h
    obtain ⟨id, t', -, h₁⟩ := Analysis.drawUnless_ok h₁
    obtain ⟨rfl, -⟩ := Analysis.pure_ok h₁
    obtain ⟨hedge, hsource, hlinked⟩ := hlinked
    obtain ⟨htype, hcharges, hcost⟩ :=
      ih (e := .cast ⟨id, step.cast.destination, step.range⟩ step.cast.op e) hlinked h
    refine ⟨htype, hcharges, ?_⟩
    -- the weight is asked for by types, and those of the edge are the ones of the node
    have hweight : W e.type step.cast.destination = step.cast.weight := by
      rw [← hsource]
      exact hW step.cast hedge
    rw [hcost, TypedExpr.cost, List.map_cons, List.map_cons, List.sum_cons, hweight, Nat.add_assoc]

namespace Proper

variable {destination : Ty} {implicit : Bool}

/-- **A conversion is charged with the weights of its nodes.** -/
theorem accounts_convert (hp : env.Proper X vs s₀) (hW : X.Weighs W) (he : X.Known e.type)
    (hd : X.Known destination)
    (h : env.convert budget destination implicit location e s = .ok ((e', budget'), s')) :
    e'.Accounts W budget budget' (e.cost W) (e.charges W) ∧ e'.type = destination := by
  obtain ⟨chain, hresolve⟩ := env.resolve_of_convert h
  rw [env.convert_eq_of_resolve hresolve] at h
  rw [hp.structs] at hresolve
  obtain ⟨hlinked, hweight⟩ := Setting.linked_of_resolve hp.carries he hd hresolve
  obtain ⟨b, t, hcharge, h⟩ := Analysis.bind_ok h
  obtain ⟨e₁, t, hsteps, h⟩ := Analysis.bind_ok h
  cases h
  obtain ⟨htype, hcharges, hcost⟩ := cost_castNodes hW hlinked hsteps
  refine ⟨⟨hcharges, _, hcost, (Budget.Pays.charge hcharge).congr ?_⟩, htype⟩
  rw [hweight, CastQuery.totalWeight_eq_min, Nat.min_assoc, Nat.min_self]

theorem known_of_integer (hp : env.Proper X vs s₀) {a : Scalar} (ha : a ∈ env.types.integers) :
    X.Known (.ofScalar a) := by
  rw [hp.types] at ha
  exact (Setting.plain_ofScalar (BuiltinTypes.mem_all_of_integer ha)).known

/-- **An operand that becomes a value of a given type** is charged with what is new in it. -/
theorem accounts_coerce {o : Operand} (hp : env.Proper X vs s₀) (hW : X.Weighs W)
    (ho : o.Made X vs) (hd : X.Plain destination)
    (h : env.coerce budget destination implicit location o s = .ok ((e, budget'), s')) :
    e.Accounts W budget budget' (o.cost W) (o.charges W) ∧ e.type = destination := by
  cases o with
  | typed e₀ => exact hp.accounts_convert hW ho.known hd.known h
  | number value =>
    obtain ⟨literal, t, hlift, h⟩ := Analysis.bind_ok h
    obtain ⟨hl, -⟩ := Analysis.liftInternal_ok hlift
    cases literal with
    | some a =>
      obtain ⟨rfl, -⟩ := literalScalar?_ok hd hl
      obtain ⟨b, t, hcharge, h⟩ := Analysis.bind_ok h
      obtain ⟨e₁, t, he₁, h⟩ := Analysis.bind_ok h
      cases h
      obtain ⟨htype, hcost, hcharges⟩ := intLiteral_ok (W := W) he₁
      refine ⟨⟨hcharges, _, ?_, .charge hcharge⟩, htype⟩
      rw [hcost, Operand.cost, Nat.zero_add]
      rfl
    | none =>
      -- the number takes a type of its own first
      obtain ⟨⟨e₁, b⟩, t, he₁, h⟩ := Analysis.bind_ok h
      obtain ⟨hnatural, a, ha, htype₁⟩ := accounts_naturalNumber (W := W) he₁
      have hknown : X.Known e₁.type := by
        rw [htype₁]
        exact hp.known_of_integer ha
      obtain ⟨hconvert, htype⟩ := hp.accounts_convert hW hknown hd.known h
      exact ⟨hnatural.trans hconvert, htype⟩
  | null =>
    rw [Env.coerce] at h
    by_cases hpointer : destination.isPointer = true
    · rw [if_pos hpointer] at h
      obtain ⟨id, t, hid, h⟩ := Analysis.bind_ok h
      cases h
      exact ⟨⟨rfl, 0, rfl, .refl _⟩, rfl⟩
    · rw [if_neg hpointer] at h
      exact (Analysis.fail_ok h).elim

theorem accounts_natural {o : Operand} (hp : env.Proper X vs s₀) (ho : o.Made X vs)
    (h : env.natural budget location o s = .ok ((e, budget'), s')) :
    e.Accounts W budget budget' (o.cost W) (o.charges W) ∧ X.Known e.type := by
  cases o with
  | typed e₀ =>
    obtain ⟨heq, -⟩ := Analysis.pure_ok h
    cases heq
    exact ⟨.refl _ _, ho.known⟩
  | number value =>
    obtain ⟨haccounts, a, ha, htype⟩ := accounts_naturalNumber (W := W) h
    rw [htype]
    exact ⟨haccounts, hp.known_of_integer ha⟩
  | null => cases h

/-- **An operand that is settled** is charged with what is new in it. -/
theorem accounts_settle {o : Operand} {expected : Option Ty} (hp : env.Proper X vs s₀)
    (hW : X.Weighs W) (ho : o.Made X vs) (hd : ∀ t, expected = some t → X.Plain t)
    (h : env.settle budget expected location o s = .ok ((e, budget'), s')) :
    e.Accounts W budget budget' (o.cost W) (o.charges W) := by
  cases expected with
  | some t => exact (hp.accounts_coerce hW ho (hd t rfl) h).1
  | none => exact (hp.accounts_natural ho h).1

theorem accounts_plain {o : Operand} (hp : env.Proper X vs s₀) (hW : X.Weighs W)
    (ho : o.Made X vs) (h : env.plain budget location o s = .ok ((e, budget'), s')) :
    e.Accounts W budget budget' (o.cost W) (o.charges W) := by
  obtain ⟨⟨e₁, b⟩, t, he₁, h⟩ := Analysis.bind_ok h
  obtain ⟨hnatural, hknown⟩ := hp.accounts_natural ho he₁
  have hplain := (Setting.plain_unqualified hknown).known
  exact hnatural.trans (hp.accounts_convert hW hknown hplain h).1

end Proper

/-! ### Overloads -/

variable {o : Overload} {parameters : List Ty} {result : Ty} {arguments : List TypedExpr}
  {operands : List Operand} {hint : Option Ty}

/-- **The arguments of an overload** are charged with what is new in them. -/
theorem Proper.accounts_coerceAll (hp : env.Proper X vs s₀) (hW : X.Weighs W)
    (hos : ∀ o ∈ operands, o.Made X vs) (hps : ∀ t ∈ parameters, X.Plain t)
    (hlen : parameters.length = operands.length)
    (h : env.coerceAll location budget operands parameters s = .ok ((arguments, budget'), s')) :
    TypedExpr.chargesAll W arguments = operands.flatMap (Operand.charges W) ∧
      ∃ n, TypedExpr.costAll W arguments = (operands.map (Operand.cost W)).sum + n ∧
        budget.Pays budget' n := by
  induction operands generalizing parameters arguments budget s with
  | nil =>
    cases List.length_eq_zero_iff.1 hlen
    cases h
    exact ⟨rfl, 0, rfl, .refl _⟩
  | cons o os ih =>
    cases parameters with
    | nil => cases hlen
    | cons t ts =>
      rw [List.forall_mem_cons] at hos hps
      obtain ⟨⟨e, b⟩, s₁, he, h⟩ := Analysis.bind_ok h
      obtain ⟨⟨rest, b'⟩, s₂, hrest, h⟩ := Analysis.bind_ok h
      cases h
      obtain ⟨⟨hcharges, n, hn, hpays⟩, -⟩ := hp.accounts_coerce hW hos.1 hps.1 he
      obtain ⟨hchargesAll, m, hm, hpays'⟩ := ih hos.2 hps.2 (Nat.succ.inj hlen) hrest
      refine ⟨?_, n + m, ?_, hpays.trans hpays'⟩
      · rw [TypedExpr.chargesAll, hcharges, hchargesAll, List.flatMap_cons]
      · rw [TypedExpr.costAll, hn, hm, List.map_cons, List.sum_cons]
        omega

/-- **An application costs what its arguments cost.** -/
theorem cost_apply {undefined : Option UndefinedBehavior}
    (h : env.apply o parameters result arguments s = .ok ((e, undefined), s')) :
    e.type = result ∧ e.charges W = TypedExpr.chargesAll W arguments ∧
      e.cost W = TypedExpr.costAll W arguments := by
  obtain ⟨node, range, id, rfl, -, hkind⟩ := apply_ok h
  split at hkind
  · obtain ⟨rfl, -⟩ := hkind
    exact ⟨rfl, rfl, rfl⟩
  · obtain ⟨r, -, -, hnode⟩ := hkind
    unfold operatorNode at hnode
    split at hnode <;> cases hnode
    · refine ⟨rfl, ?_, ?_⟩
      · simp only [TypedExpr.charges, TypedExpr.chargesAll, List.append_nil]
      · simp only [TypedExpr.cost, TypedExpr.costAll, Nat.add_zero]
    · refine ⟨rfl, ?_, ?_⟩
      · simp only [TypedExpr.charges, TypedExpr.chargesAll, List.append_nil]
      · simp only [TypedExpr.cost, TypedExpr.costAll, Nat.add_zero]

/-- **A trial is charged with what the overload adds to the operands.** -/
theorem Proper.accounts_candidate {c : Candidate} (hp : env.Proper X vs s₀) (hW : X.Weighs W)
    (ho : X.Offers o) (hsig : o.signature env.structs = .ok (parameters, result))
    (hos : ∀ o ∈ operands, o.Made X vs) (hlen : parameters.length = operands.length)
    (hhint : ∀ t, hint = some t → X.Plain t)
    (h : env.candidate budget o parameters result operands hint location s = .ok (c, s')) :
    ∃ b, b.spent = c.weight ∧ c.expression.Accounts W budget b
      ((operands.map (Operand.cost W)).sum) (operands.flatMap (Operand.charges W)) := by
  obtain ⟨-, hps, hresult⟩ := signature_of_offers ho hsig
  obtain ⟨⟨arguments, b⟩, s₁, hcoerce, h⟩ := Analysis.bind_ok h
  obtain ⟨⟨applied, undefined⟩, s₂, happly, h⟩ := Analysis.bind_ok h
  obtain ⟨hcharges, n, hn, hpays⟩ := hp.accounts_coerceAll hW hos hps hlen hcoerce
  obtain ⟨htype, hcharges', hcost⟩ := cost_apply (W := W) happly
  have happlied : applied.Accounts W budget b ((operands.map (Operand.cost W)).sum)
      (operands.flatMap (Operand.charges W)) :=
    ⟨hcharges'.trans hcharges, n, hcost.trans hn, hpays⟩
  cases hint with
  | none =>
    cases h
    exact ⟨b, rfl, happlied⟩
  | some t =>
    obtain ⟨⟨e, b'⟩, s₃, hconvert, h⟩ := Analysis.bind_ok h
    cases h
    -- the conversion of the result is paid out of what the arguments left
    have hknown : X.Known applied.type := by
      rw [htype]
      exact hresult.known
    exact ⟨b', rfl, happlied.trans
      (hp.accounts_convert hW hknown (hhint t rfl).known hconvert).1⟩

end Env

end RangeTyping
