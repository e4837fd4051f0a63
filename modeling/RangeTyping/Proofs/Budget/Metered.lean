import Mathlib
import RangeTyping.Analysis.Overload
import RangeTyping.Proofs.Intact.Search

/-!
# A budget only limits

An expression is analysed on a budget, and the budget decides nothing but whether the analysis goes
on.  A step is *metered* (`Metered`) if on a larger budget it comes to the same result at the same
weight, and on a smaller one as well as long as that pays for it.

Literals and conversions are metered (`Env.metered_coerce`), and so is the trial of an overload
(`Env.candidate_raise`, `Env.candidate_lower`).
-/

namespace RangeTyping

/-! ### Budgets -/

/-- As much is spent of both budgets, within the limit of the first, and the second has at least
that limit. -/
structure Budget.Within (b b' : Budget) : Prop where
  spent : b'.spent = b.spent
  sound : b.spent ≤ b.limit
  limit : b.limit ≤ b'.limit
  bounded : b'.limit ≤ maxWeight

namespace Budget.Within

variable {b b' : Budget}

theorem left (h : b.Within b') : b.Within b :=
  ⟨rfl, h.sound, le_rfl, h.limit.trans h.bounded⟩

theorem right (h : b.Within b') : b'.Within b' :=
  ⟨rfl, h.spent.symm ▸ h.sound.trans h.limit, le_rfl, h.bounded⟩

theorem ofLimit {l l' : Weight} (h : l ≤ l') (hl' : l' ≤ maxWeight) :
    (Budget.ofLimit l).Within (.ofLimit l') :=
  ⟨rfl, Nat.zero_le _, h, hl'⟩

/-- More is left of the larger budget. -/
theorem remaining (h : b.Within b') : b.remaining ≤ b'.remaining := by
  rw [Budget.remaining, Budget.remaining, h.spent]
  exact Nat.sub_le_sub_right h.limit _

/-- What is left of either budget. -/
theorem ofRemaining (h : b.Within b') :
    (Budget.ofLimit b.remaining).Within (.ofLimit b'.remaining) :=
  ofLimit h.remaining ((Nat.sub_le ..).trans h.bounded)

/-- A weight that can be charged to the smaller budget, and is left of the larger one, is left of the
smaller one. -/
theorem le_remaining {w : Weight} (h : b.Within b') (hcharge : addWeight b.spent w ≤ b.limit)
    (hw : w ≤ b'.remaining) : w ≤ b.remaining := by
  obtain ⟨hspent, -, hlimit, hbounded⟩ := h
  rw [Budget.remaining, hspent] at hw
  rw [Budget.remaining]
  unfold addWeight at hcharge
  grind

end Budget.Within

/-- **A metered step**: the budget limits what it spends and decides nothing else. -/
structure Metered {α : Type} (f : Budget → Analysis (α × Budget)) : Prop where
  spends : ∀ {b c : Budget} {s s' : Fresh} {a : α}, b.Within b → f b s = .ok ((a, c), s') →
    c.limit = b.limit ∧ b.spent ≤ c.spent ∧ c.spent ≤ c.limit
  raise : ∀ {b b' c : Budget} {s s' : Fresh} {a : α}, b.Within b' → f b s = .ok ((a, c), s') →
    ∃ c', c.Within c' ∧ c'.limit = b'.limit ∧ f b' s = .ok ((a, c'), s')
  lower : ∀ {b b' c' : Budget} {s s' : Fresh} {a : α}, b.Within b' → f b' s = .ok ((a, c'), s') →
    c'.spent ≤ b.limit → ∃ c, c.Within c' ∧ c.limit = b.limit ∧ f b s = .ok ((a, c), s')

namespace Metered

variable {α β : Type} {f : Budget → Analysis (α × Budget)}

theorem pure (a : α) : Metered fun b => Pure.pure (a, b) where
  spends hb h := by
    cases h
    exact ⟨rfl, le_rfl, hb.sound⟩
  raise hb h := by
    cases h
    exact ⟨_, hb, rfl, rfl⟩
  lower hb h _ := by
    cases h
    exact ⟨_, hb, rfl, rfl⟩

theorem fail (cause : Cause) (location : Location) :
    Metered fun _ => (.fail cause location : Analysis (α × Budget)) :=
  ⟨fun _ h => (Analysis.fail_ok h).elim, fun _ h => (Analysis.fail_ok h).elim,
    fun _ h => (Analysis.fail_ok h).elim⟩

/-- **Metered steps one after the other.** -/
theorem bind {g : α → Budget → Analysis (β × Budget)} (hf : Metered f) (hg : ∀ a, Metered (g a)) :
    Metered fun b => f b >>= fun p => g p.1 p.2 where
  spends := by
    intro b c s s' a hb h
    obtain ⟨⟨a₁, c₁⟩, s₁, h₁, h₂⟩ := Analysis.bind_ok h
    obtain ⟨hlimit, hgrows, hsound⟩ := hf.spends hb h₁
    obtain ⟨hlimit₂, hgrows₂, hsound₂⟩ :=
      (hg a₁).spends ⟨rfl, hsound, le_rfl, hlimit ▸ hb.bounded⟩ h₂
    exact ⟨hlimit₂.trans hlimit, hgrows.trans hgrows₂, hsound₂⟩
  raise := by
    intro b b' c s s' a hb h
    obtain ⟨⟨a₁, c₁⟩, s₁, h₁, h₂⟩ := Analysis.bind_ok h
    obtain ⟨c₁', hc₁, hlimit, h₁'⟩ := hf.raise hb h₁
    obtain ⟨c', hc, hlimit', h₂'⟩ := (hg a₁).raise hc₁ h₂
    exact ⟨c', hc, hlimit'.trans hlimit, (Analysis.bind_of_ok h₁').trans h₂'⟩
  lower := by
    intro b b' c' s s' a hb h hpays
    obtain ⟨⟨a₁, c₁'⟩, s₁, h₁, h₂⟩ := Analysis.bind_ok h
    -- what is spent in between is at most what is spent in the end
    obtain ⟨hlimit, -, hsound⟩ := hf.spends hb.right h₁
    obtain ⟨-, hgrows, -⟩ := (hg a₁).spends ⟨rfl, hsound, le_rfl, hlimit ▸ hb.bounded⟩ h₂
    obtain ⟨c₁, hc₁, hlimit₁, h₁'⟩ := hf.lower hb h₁ (hgrows.trans hpays)
    obtain ⟨c, hc, hlimit₂, h₂'⟩ := (hg a₁).lower hc₁ h₂ (hlimit₁ ▸ hpays)
    exact ⟨c, hc, hlimit₂.trans hlimit₁, (Analysis.bind_of_ok h₁').trans h₂'⟩

/-- A metered step after one that spends nothing. -/
theorem after (x : Analysis α) {g : α → Budget → Analysis (β × Budget)} (hg : ∀ a, Metered (g a)) :
    Metered fun b => x >>= fun a => g a b where
  spends := by
    intro b c s s' a hb h
    obtain ⟨a₁, s₁, h₁, h₂⟩ := Analysis.bind_ok h
    exact (hg a₁).spends hb h₂
  raise := by
    intro b b' c s s' a hb h
    obtain ⟨a₁, s₁, h₁, h₂⟩ := Analysis.bind_ok h
    obtain ⟨c', hc, hlimit, h₂'⟩ := (hg a₁).raise hb h₂
    exact ⟨c', hc, hlimit, (Analysis.bind_of_ok h₁).trans h₂'⟩
  lower := by
    intro b b' c' s s' a hb h hpays
    obtain ⟨a₁, s₁, h₁, h₂⟩ := Analysis.bind_ok h
    obtain ⟨c, hc, hlimit, h₂'⟩ := (hg a₁).lower hb h₂ hpays
    exact ⟨c, hc, hlimit, (Analysis.bind_of_ok h₁).trans h₂'⟩

end Metered

/-- The second budget is the first one, possibly with a higher limit. -/
def Budget.RaisedTo (b b' : Budget) : Prop := b' = b ∨ b.Within b'

namespace Budget.RaisedTo

variable {b b' : Budget}

theorem refl (b : Budget) : b.RaisedTo b := .inl rfl

theorem spent (h : b.RaisedTo b') : b'.spent = b.spent := by
  rcases h with rfl | h
  · rfl
  · exact h.spent

theorem limit (h : b.RaisedTo b') : b.limit ≤ b'.limit := by
  rcases h with rfl | h
  · exact le_rfl
  · exact h.limit

theorem ofRemaining (h : b.RaisedTo b') :
    (Budget.ofLimit b.remaining).RaisedTo (.ofLimit b'.remaining) := by
  rcases h with rfl | h
  · exact .refl _
  · exact .inr h.ofRemaining

/-- A weight that is charged to both. -/
theorem add {w : Weight} (h : b.RaisedTo b') (hw : addWeight b.spent w ≤ b.limit) :
    (⟨b.limit, addWeight b.spent w⟩ : Budget).RaisedTo ⟨b'.limit, addWeight b'.spent w⟩ := by
  rcases h with rfl | h
  · exact .refl _
  · exact .inr ⟨congrArg (addWeight · w) h.spent, hw, h.limit, h.bounded⟩

end Budget.RaisedTo

/-- **On a raised budget a metered step comes to the same.** -/
theorem Metered.exists_raised {α : Type} {f : Budget → Analysis (α × Budget)} {b b' c : Budget}
    {s s' : Fresh} {a : α} (hf : Metered f) (hb : b.RaisedTo b') (h : f b s = .ok ((a, c), s')) :
    ∃ c', c.RaisedTo c' ∧ f b' s = .ok ((a, c'), s') := by
  rcases hb with rfl | hb
  · exact ⟨c, .refl c, h⟩
  · obtain ⟨c', hc, -, h'⟩ := hf.raise hb h
    exact ⟨c', .inr hc, h'⟩

/-! ### Charging -/

/-- **Charging a weight is metered**, with what follows. -/
theorem Metered.charge {α : Type} (w : Weight) (location : Location)
    {g : Budget → Analysis (α × Budget)} (hg : Metered g) :
    Metered fun b => b.charge w location >>= g := by
  have hcharge : Metered fun b => b.charge w location >>= fun b => Pure.pure ((), b) := by
    constructor
    · intro b c s s' _ hb h
      obtain ⟨c₁, s₁, h₁, h₂⟩ := Analysis.bind_ok h
      obtain ⟨rfl, hle, rfl⟩ := Budget.charge_ok h₁
      cases h₂
      exact ⟨rfl, le_addWeight (hb.sound.trans hb.bounded), hle⟩
    · intro b b' c s s' _ hb h
      obtain ⟨c₁, s₁, h₁, h₂⟩ := Analysis.bind_ok h
      obtain ⟨rfl, hle, rfl⟩ := Budget.charge_ok h₁
      cases h₂
      -- as much is spent under the other limit, which is no lower
      have hle' : addWeight b'.spent w ≤ b'.limit := by
        rw [hb.spent]
        exact hle.trans hb.limit
      refine ⟨⟨b'.limit, addWeight b'.spent w⟩, ⟨?_, hle, hb.limit, hb.bounded⟩, rfl, ?_⟩
      · exact congrArg (addWeight · w) hb.spent
      · exact Analysis.bind_of_ok (Budget.charge_of_le hle')
    · intro b b' c' s s' _ hb h hpays
      obtain ⟨c₁, s₁, h₁, h₂⟩ := Analysis.bind_ok h
      obtain ⟨rfl, hle', rfl⟩ := Budget.charge_ok h₁
      cases h₂
      -- the lower limit pays for it too, by hypothesis
      have hle : addWeight b.spent w ≤ b.limit := by
        rw [← hb.spent]
        exact hpays
      refine ⟨⟨b.limit, addWeight b.spent w⟩, ⟨?_, hle, hb.limit, hb.bounded⟩, rfl, ?_⟩
      · exact congrArg (addWeight · w) hb.spent
      · exact Analysis.bind_of_ok (Budget.charge_of_le hle)
  have hall := hcharge.bind fun _ => hg
  simpa using hall

/-! ### Queries -/

namespace CastQuery

variable {S : StructStore} {G : CastGraph} {q : CastQuery} {chain : Chain}

/-- The chain that answers a query stays within its limit. -/
theorem weight_le_limit (h : q.resolve S G = .ok chain) : chain.weight ≤ q.limit := by
  rcases resolve_ok h with ⟨-, rfl⟩ | ⟨-, casts, steps, -, hle, -, rfl⟩
  · exact Nat.zero_le _
  · exact hle

theorem steps_limit (limit : Weight) (r : Option ValueRange) (casts : List Cast) :
    ({ q with limit } : CastQuery).steps r casts = q.steps r casts := by
  induction casts generalizing r with
  | nil => rfl
  | cons c rest ih =>
    rw [steps, steps]
    refine congrArg _ (funext fun after => ?_)
    rw [ih]

/-- **Any limit that pays for the chain gives the same answer.** -/
theorem resolve_of_limit {limit : Weight} (h : q.resolve S G = .ok chain)
    (hpays : chain.weight ≤ limit) : ({ q with limit } : CastQuery).resolve S G = .ok chain := by
  rcases resolve_ok h with ⟨hsame, rfl⟩ | ⟨hdiffer, casts, steps, hcasts, -, hsteps, rfl⟩
  · exact if_pos hsame
  · -- the search does not look at the limit
    have hcasts : ({ q with limit } : CastQuery).casts S G = .ok casts := hcasts
    rw [resolve, if_neg (Bool.eq_false_iff.1 hdiffer), hcasts]
    show (if limit < totalWeight casts then _ else _) = _
    rw [if_neg (not_lt.2 hpays)]
    show (({ q with limit } : CastQuery).steps q.range casts >>= _) = _
    rw [steps_limit, hsteps]
    rfl

end CastQuery

/-! ### Literals and conversions -/

namespace Env

variable (env : Env) (location : Location)

theorem metered_naturalNumber (value : Nat) :
    Metered fun b => env.naturalNumber b value location := by
  refine .after _ fun fitting => ?_
  cases fitting with
  | none => exact .fail _ _
  | some s => exact .charge _ _ (.after _ fun e => .pure e)

theorem metered_natural (o : Operand) : Metered fun b => env.natural b location o := by
  cases o with
  | typed e => exact .pure e
  | number value => exact env.metered_naturalNumber location value
  | null => exact .fail _ _

/-- A conversion on a budget: the query that asks for a chain, and what follows. -/
theorem convert_eq_of_resolve {b : Budget} {destination : Ty} {implicit : Bool} {e : TypedExpr}
    {chain : Chain} {s : Fresh} {location : Location} (h : CastQuery.resolve env.structs
      env.context.castGraph ⟨e.type, e.range, destination, implicit, b.remaining⟩ = .ok chain) :
    env.convert b destination implicit location e s =
      (b.charge chain.weight location >>= fun b => do
        return (← chain.steps.foldlM castNode e, b)) s := by
  rw [convert, h]
  rfl

theorem resolve_of_convert {b c : Budget} {destination : Ty} {implicit : Bool} {e e' : TypedExpr}
    {s s' : Fresh} {location : Location}
    (h : env.convert b destination implicit location e s = .ok ((e', c), s')) :
    ∃ chain, CastQuery.resolve env.structs env.context.castGraph
      ⟨e.type, e.range, destination, implicit, b.remaining⟩ = .ok chain := by
  obtain ⟨chain, s₁, hlift, -⟩ := Analysis.bind_ok h
  exact ⟨chain, Outcome.mapError_ok (Analysis.lift_ok hlift).1⟩

/-- **A conversion is metered.** -/
theorem metered_convert (destination : Ty) (implicit : Bool) (e : TypedExpr) :
    Metered fun b => env.convert b destination implicit location e := by
  -- what follows once the chain is known
  have hrest : ∀ chain : Chain, Metered fun b => b.charge chain.weight location >>= fun b => do
      return (← chain.steps.foldlM castNode e, b) :=
    fun chain => .charge _ _ (.after _ fun e => .pure e)
  constructor
  · intro b c s s' a hb h
    obtain ⟨chain, hchain⟩ := env.resolve_of_convert h
    rw [env.convert_eq_of_resolve hchain] at h
    exact (hrest chain).spends hb h
  · intro b b' c s s' a hb h
    obtain ⟨chain, hchain⟩ := env.resolve_of_convert h
    rw [env.convert_eq_of_resolve hchain] at h
    have hchain' := CastQuery.resolve_of_limit hchain
      ((CastQuery.weight_le_limit hchain).trans hb.remaining)
    obtain ⟨c', hc, hlimit, h'⟩ := (hrest chain).raise hb h
    exact ⟨c', hc, hlimit, (env.convert_eq_of_resolve hchain').trans h'⟩
  · intro b b' c' s s' a hb h hpays
    obtain ⟨chain, hchain⟩ := env.resolve_of_convert h
    rw [env.convert_eq_of_resolve hchain] at h
    obtain ⟨c, hc, hlimit, h'⟩ := (hrest chain).lower hb h hpays
    -- the smaller budget pays for the chain, so the query finds it
    obtain ⟨_, _, hcharge, -⟩ := Analysis.bind_ok h'
    have hchain' := CastQuery.resolve_of_limit hchain
      (hb.le_remaining (Budget.charge_ok hcharge).2.1 (CastQuery.weight_le_limit hchain))
    exact ⟨c, hc, hlimit, (env.convert_eq_of_resolve hchain').trans h'⟩

/-- **Turning an operand into a value of a type is metered.** -/
theorem metered_coerce (destination : Ty) (implicit : Bool) (o : Operand) :
    Metered fun b => env.coerce b destination implicit location o := by
  cases o with
  | typed e => exact env.metered_convert location destination implicit e
  | number value =>
    refine .after _ fun literal => ?_
    cases literal with
    | some s => exact .charge _ _ (.after _ fun e => .pure e)
    | none =>
      exact (env.metered_naturalNumber location value).bind fun e =>
        env.metered_convert location destination implicit e
  | null =>
    simp only [coerce]
    split
    · exact .after _ fun id => .pure _
    · exact .fail _ _

theorem metered_settle (expected : Option Ty) (o : Operand) :
    Metered fun b => env.settle b expected location o := by
  cases expected with
  | some destination => exact env.metered_coerce location destination true o
  | none => exact env.metered_natural location o

theorem metered_plain (o : Operand) : Metered fun b => env.plain b location o :=
  (env.metered_natural location o).bind fun e =>
    env.metered_convert location e.type.unqualified true e

/-! ### Trying an overload -/

theorem metered_coerceAll (operands : List Operand) (parameters : List Ty) :
    Metered fun b => env.coerceAll location b operands parameters := by
  induction operands generalizing parameters with
  | nil => exact .pure []
  | cons o os ih =>
    cases parameters with
    | nil => exact .pure []
    | cons u us =>
      exact (env.metered_coerce location u true o).bind fun e => (ih us).bind fun es => .pure (e :: es)

variable {b b' : Budget} {o : Overload} {parameters : List Ty} {result : Ty}
  {operands : List Operand} {hint : Option Ty} {c : Candidate} {s s' : Fresh}

/-- The trial of an overload, with the budget that is left. -/
def trial (b : Budget) (o : Overload) (parameters : List Ty) (result : Ty)
    (operands : List Operand) (hint : Option Ty) :
    Analysis ((TypedExpr × Option UndefinedBehavior) × Budget) := do
  let (arguments, b) ← env.coerceAll location b operands parameters
  let (applied, undefined) ← env.apply o parameters result arguments
  match hint with
  | some expected =>
    let (e, b) ← env.convert b expected true location applied
    return ((e, undefined), b)
  | none => return ((applied, undefined), b)

theorem metered_trial (o : Overload) (parameters : List Ty) (result : Ty) (operands : List Operand)
    (hint : Option Ty) : Metered fun b => env.trial location b o parameters result operands hint := by
  have harguments := env.metered_coerceAll location operands parameters
  cases hint with
  | some expected =>
    exact harguments.bind fun arguments => .after (env.apply o parameters result arguments) fun x =>
      (env.metered_convert location expected true x.1).bind fun e => .pure (e, x.2)
  | none =>
    exact harguments.bind fun arguments => .after (env.apply o parameters result arguments) fun x =>
      .pure x

theorem candidate_eq_trial :
    env.candidate b o parameters result operands hint location =
      env.trial location b o parameters result operands hint >>= fun p =>
        pure ⟨p.1.1, p.2.spent, p.1.2⟩ := by
  cases hint <;> simp only [candidate, trial, bind_assoc, pure_bind]

variable {env location}

theorem trial_of_candidate
    (h : env.candidate b o parameters result operands hint location s = .ok (c, s')) :
    ∃ d, env.trial location b o parameters result operands hint s =
      .ok (((c.expression, c.undefined), d), s') ∧ d.spent = c.weight := by
  rw [candidate_eq_trial] at h
  obtain ⟨⟨⟨e, u⟩, d⟩, s₁, htrial, h⟩ := Analysis.bind_ok h
  cases h
  exact ⟨d, htrial, rfl⟩

theorem candidate_of_trial {d : Budget}
    (h : env.trial location b o parameters result operands hint s =
      .ok (((c.expression, c.undefined), d), s')) (hspent : d.spent = c.weight) :
    env.candidate b o parameters result operands hint location s = .ok (c, s') := by
  rw [candidate_eq_trial, Analysis.bind_of_ok h]
  dsimp only
  rw [hspent]
  rfl

/-- **On a raised budget an overload makes the same of the operands.** -/
theorem candidate_raise (hb : b.RaisedTo b')
    (h : env.candidate b o parameters result operands hint location s = .ok (c, s')) :
    env.candidate b' o parameters result operands hint location s = .ok (c, s') := by
  obtain ⟨d, htrial, hspent⟩ := trial_of_candidate h
  obtain ⟨d', hd, htrial'⟩ := (env.metered_trial location ..).exists_raised hb htrial
  exact candidate_of_trial htrial' (hd.spent.trans hspent)

/-- An overload costs no more than may be spent. -/
theorem weight_le_of_candidate (hb : b.Within b)
    (h : env.candidate b o parameters result operands hint location s = .ok (c, s')) :
    c.weight ≤ b.limit := by
  obtain ⟨d, htrial, hspent⟩ := trial_of_candidate h
  obtain ⟨hlimit, -, hle⟩ := (env.metered_trial location ..).spends hb htrial
  rw [← hspent, ← hlimit]
  exact hle

/-- **On any budget that pays for it** an overload makes the same of the operands. -/
theorem candidate_lower (hb : b.RaisedTo b')
    (h : env.candidate b' o parameters result operands hint location s = .ok (c, s'))
    (hpays : c.weight ≤ b.limit) :
    env.candidate b o parameters result operands hint location s = .ok (c, s') := by
  rcases hb with rfl | hb
  · exact h
  · obtain ⟨d', htrial', hspent⟩ := trial_of_candidate h
    obtain ⟨d, hd, -, htrial⟩ :=
      (env.metered_trial location ..).lower hb htrial' (hspent ▸ hpays)
    exact candidate_of_trial htrial (hd.spent.symm.trans hspent)

end Env

/-! ### Options -/

/-- The second options allow at least as much, and no more than can be counted. -/
structure Options.Within (o o' : Options) : Prop where
  expression : o.expressionLimit ≤ o'.expressionLimit
  expression_bounded : o'.expressionLimit ≤ maxWeight
  initializer : o.initializerLimit.getD maxWeight ≤ o'.initializerLimit.getD maxWeight
  initializer_bounded : o'.initializerLimit.getD maxWeight ≤ maxWeight

/-- The second options are the first ones, possibly with higher limits. -/
def Options.RaisedTo (o o' : Options) : Prop := o' = o ∨ o.Within o'

namespace Options.RaisedTo

variable {o o' : Options}

theorem refl (o : Options) : o.RaisedTo o := .inl rfl

theorem expression (h : o.RaisedTo o') :
    (Budget.ofLimit o.expressionLimit).RaisedTo (.ofLimit o'.expressionLimit) := by
  rcases h with rfl | h
  · exact .refl _
  · exact .inr (.ofLimit h.expression h.expression_bounded)

theorem initializer (h : o.RaisedTo o') :
    (Budget.ofLimit (o.initializerLimit.getD maxWeight)).RaisedTo
      (.ofLimit (o'.initializerLimit.getD maxWeight)) := by
  rcases h with rfl | h
  · exact .refl _
  · exact .inr (.ofLimit h.initializer h.initializer_bounded)

end Options.RaisedTo

end RangeTyping
