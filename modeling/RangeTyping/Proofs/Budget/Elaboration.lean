import Mathlib
import RangeTyping.Proofs.Analysis.Functions
import RangeTyping.Proofs.Budget.Choice
import RangeTyping.Proofs.Budget.Monotone

/-!
# What bodies cost

`Env.Elaborates` says what a typed expression has to do with its source, without budgets and without
identities: operands have been typed on their own, and every operator and every call is made by the
cheapest overload of its name for these operands and for the type that is expected
(`Env.Chooses`).

The main statement is that an analysis that ends well relates its result to its source in this way,
has paid for it exactly what it costs, and has kept the limit of every budget that was opened on the
way (`Env.Proper.affords_operand`, `Env.Proper.affords_block`).  Operands are charged to the budget
of the expression that they stand in; statements in a block and tests have budgets of their own.
-/

namespace RangeTyping

namespace Env

/-! ### Elaboration -/

/-- The expression is the operand as a value of the type `destination`, on some budget. -/
def Coerces (env : Env) (destination : Ty) (implicit : Bool) (location : Location) (o : Operand)
    (e : TypedExpr) : Prop :=
  ∃ b b' s s', env.coerce b destination implicit location o s = .ok ((e, b'), s')

/-- The expression is the operand as the type that is expected, or as its own. -/
def Settles (env : Env) (expected : Option Ty) (location : Location) (o : Operand)
    (e : TypedExpr) : Prop :=
  ∃ b b' s s', env.settle b expected location o s = .ok ((e, b'), s')

/-- The expression is the operand as a plain value. -/
def Loads (env : Env) (location : Location) (o : Operand) (e : TypedExpr) : Prop :=
  ∃ b b' s s', env.plain b location o s = .ok ((e, b'), s')

/-- The statement defines a variable of that value, which is known in `env'`. -/
def Introduces (env : Env) (name : Source.Name) (isMutable : Bool) (location : Location)
    (value : TypedExpr) (st : TypedStmt) (env' : Env) : Prop :=
  ∃ s s', env.defineVariable name isMutable location value s = .ok ((st, env'), s')

variable (W : Ty → Ty → Weight)

mutual
/-- **What an expression of the source is elaborated to**, where `hint` is expected of it. -/
def Elaborates (env : Env) (hint : Option Ty) : Source.Expr → Operand → Prop
  | .number _ text, o => ∃ value, Source.number? text = some value ∧ o = .number value
  | .boolean _ value, o =>
    ∃ id, o = .typed (.bool ⟨id, env.types.boolTy, some (.ofBool value)⟩ value)
  | .null _, o => o = .null
  | .identifier name, o => ∃ v, env.context.object? name.text = some (.variable v) ∧
      o = .typed (.variable ⟨v.id, v.type, v.range⟩ v)
  | .binary n token left right, o => ∃ l r e, Elaborates env none left l ∧
      Elaborates env none right r ∧ env.Chooses W token.symbol [l, r] hint n.location e ∧
      o = .typed e
  | .logicalNot n source, o => ∃ a e, Elaborates env none source a ∧
      env.Chooses W Source.notSymbol [a] hint n.location e ∧ o = .typed e
  | .call n function arguments, o => ∃ os e, ElaboratesAll env arguments os ∧
      env.Chooses W function.text os hint n.location e ∧ o = .typed e
  | .cast n type source, o => ∃ destination a e, env.context.resolveType type = .ok destination ∧
      Elaborates env none source a ∧ env.Coerces destination false n.location a e ∧ o = .typed e
  | .block body, o => ∃ e, ElaboratesBlock env hint body e ∧ o = .typed e
  | .ifThen _ test thenArm, o => ∃ u t a p, Elaborates env (some env.types.boolTy) test u ∧
      env.Settles (some env.types.boolTy) test.location u t ∧ ElaboratesBlock env none thenArm a ∧
      o = .typed (.ifThen ⟨.unread, env.types.voidTy, none⟩ t a.discard p)
  | .ifElse _ test thenArm elseArm, o => ∃ u t a a' b b' i p q,
      Elaborates env (some env.types.boolTy) test u ∧
      env.Settles (some env.types.boolTy) test.location u t ∧
      ElaboratesBlock env hint thenArm a ∧ i.type = hint.getD a.type.unqualified ∧
      env.Coerces i.type true thenArm.node.location (.typed a) a' ∧
      ElaboratesBlock env (some i.type) elseArm b ∧
      env.Coerces i.type true elseArm.node.location (.typed b) b' ∧
      o = .typed (.ifElse i t a' b' p q)
  | .dereference _ source, o => ∃ a p f t i, Elaborates env none source a ∧
      env.Loads source.location a p ∧ p.type = .pointer f t ∧ i.type = t.addFlags .ref ∧
      o = .typed (.dereference i p)

/-- What the operands of a call are elaborated to. -/
def ElaboratesAll (env : Env) : List Source.Expr → List Operand → Prop
  | [], os => os = []
  | source :: sources, os => ∃ o rest, Elaborates env none source o ∧
      ElaboratesAll env sources rest ∧ os = o :: rest

/-- **What a block is elaborated to**, where `hint` is expected of its result. -/
def ElaboratesBlock (env : Env) (hint : Option Ty) : Source.Block → TypedExpr → Prop
  | .unit _ sources, e => ∃ ss inner, ElaboratesStmts env.enter sources ss inner ∧
      e = inner.unitBlock ss
  | .value _ sources result, e => ∃ ss inner o r, ElaboratesStmts env.enter sources ss inner ∧
      Elaborates inner hint result o ∧ inner.Settles hint result.location o r ∧
      e = valueBlock ss r

/-- **What a statement is elaborated to**, with the surroundings of the statements after it. -/
def ElaboratesStmt (env : Env) : Source.Stmt → TypedStmt → Env → Prop
  | .expression source, st, env' => ∃ o e, Elaborates env none source o ∧
      env.Settles none source.location o e ∧ st = .expression e.discard ∧ env' = env
  | .define n name isMutable (some type) source, st, env' => ∃ t o value,
      env.context.resolveType type = .ok t ∧ Elaborates env (some t) source o ∧
      env.Settles (some t) source.location o value ∧
      env.Introduces name isMutable n.location value st env'
  | .define n name isMutable none source, st, env' => ∃ o value, Elaborates env none source o ∧
      env.Loads source.location o value ∧ env.Introduces name isMutable n.location value st env'
  | .assign _ target source, st, env' => ∃ u t o value, Elaborates env none target u ∧
      env.Settles none target.location u t ∧
      Elaborates env (some t.type.unqualified) source o ∧
      env.Settles (some t.type.unqualified) source.location o value ∧ st = .assign t value ∧
      env' = env
  | .returnValue _ source, st, env' => ∃ o value, Elaborates env (some env.returnType) source o ∧
      env.Settles (some env.returnType) source.location o value ∧ st = .returnValue value ∧
      env' = env
  | .returnVoid _, st, env' => st = .returnVoid ∧ env' = env

/-- What statements are elaborated to, one after the other. -/
def ElaboratesStmts (env : Env) : List Source.Stmt → List TypedStmt → Env → Prop
  | [], ss, env' => ss = [] ∧ env' = env
  | source :: sources, ss, env' => ∃ st rest env₁, ElaboratesStmt env source st env₁ ∧
      ElaboratesStmts env₁ sources rest env' ∧ ss = st :: rest
end

/-! ### Payments -/

/-- **A cost is paid and the limits of all other charges are kept.** -/
structure Affords (env : Env) (b b' : Budget) (cost : Nat) (charges : List Charge) : Prop where
  paid : b.Pays b' cost
  allowed : ∀ c ∈ charges, env.options.Allows c

namespace Affords

variable {W : Ty → Ty → Weight} {env : Env} {b b' b'' : Budget} {n k : Nat} {cs ds : List Charge}
  {e : TypedExpr}

theorem nil (env : Env) (b : Budget) : env.Affords b b 0 [] :=
  ⟨.refl b, fun _ hc => absurd hc List.not_mem_nil⟩

theorem append (h : env.Affords b b' n cs) (h' : env.Affords b' b'' k ds) :
    env.Affords b b'' (n + k) (cs ++ ds) :=
  ⟨h.paid.trans h'.paid, List.forall_mem_append.2 ⟨h.allowed, h'.allowed⟩⟩

/-- What is made of parts is afforded if the parts are and the rest is paid. -/
theorem accounts (h : env.Affords b b' n cs) (he : e.Accounts W b' b'' n cs) :
    env.Affords b b'' (e.cost W) (e.charges W) := by
  refine ⟨he.pays h.paid, ?_⟩
  rw [he.charges]
  exact h.allowed

/-- **A new budget for an expression keeps its limit.** -/
theorem allows_expression (h : env.Affords env.expressionBudget b n cs) :
    ∀ c ∈ ⟨.expression, n⟩ :: cs, env.options.Allows c := by
  refine List.forall_mem_cons.2 ⟨?_, h.allowed⟩
  rintro limit ⟨⟩
  exact h.paid.le_limit

/-- **A new budget for an initializer keeps its limit**, if there is one. -/
theorem allows_initializer (h : env.Affords env.initializerBudget b n cs) :
    ∀ c ∈ ⟨.initializer, n⟩ :: cs, env.options.Allows c := by
  refine List.forall_mem_cons.2 ⟨?_, h.allowed⟩
  intro limit hlimit
  have hlimit : env.options.initializerLimit = some limit := hlimit
  have hpaid := h.paid
  rw [initializerBudget, hlimit] at hpaid
  exact hpaid.le_limit

end Affords

/-! ### The recursion -/

variable {W} {X : Setting}

/-- The limits of the budgets that are opened in the surroundings are weights. -/
theorem limit_expressionBudget {env : Env} (h : env.options.Bounded) :
    env.expressionBudget.limit ≤ maxWeight := h.expression

theorem limit_initializerBudget {env : Env} (h : env.options.Bounded) :
    env.initializerBudget.limit ≤ maxWeight := by
  show env.options.initializerLimit.getD maxWeight ≤ maxWeight
  cases hlimit : env.options.initializerLimit with
  | none => exact le_rfl
  | some l => exact h.initializer l hlimit

/-- A settled operand, which the analysis has paid for. -/
theorem Proper.affords_settle {env : Env} {vs : List Variable} {s₀ s s' : Fresh} {b b' b'' : Budget}
    {o : Operand} {e : TypedExpr} {expected : Option Ty} {location : Location}
    (hp : env.Proper X vs s₀) (hW : X.Weighs W) (ho : o.Made X vs) (hh : PlainHint X expected)
    (hparts : env.Affords b b' (o.cost W) (o.charges W))
    (h : env.settle b' expected location o s = .ok ((e, b''), s')) :
    env.Affords b b'' (e.cost W) (e.charges W) :=
  hparts.accounts (hp.accounts_settle hW ho hh h)

/-- A declaration leaves the options as they are. -/
theorem options_of_declare {env env' : Env} {name : String} {type : Ty} {isMutable : Bool}
    {range : Option ValueRange} {location : Location} {v : Variable} {s s' : Fresh}
    (h : env.declare name type isMutable range location s = .ok ((v, env'), s')) :
    env'.options = env.options := by
  obtain ⟨-, i, context, -, -, -, rfl⟩ := declare_ok h
  rfl

mutual
/-- **An analysed expression** is elaborated by cheapest overloads, and is paid for. -/
theorem Proper.affords_operand (hW : X.Weighs W) : ∀ (source : Source.Expr) {env : Env}
    {budget budget' : Budget} {hint : Option Ty} {vs : List Variable} {s s' : Fresh} {o : Operand},
    env.Proper X vs s → env.options.Bounded → PlainHint X hint → budget.limit ≤ maxWeight →
    env.operand budget hint source s = .ok ((o, budget'), s') →
    env.Elaborates W hint source o ∧ env.Affords budget budget' (o.cost W) (o.charges W)
  | .number n text, env, budget, _, hint, vs, s, _, o, hp, hb, hh, hlimit, h => by
    obtain ⟨value, hnumber, rfl, rfl, rfl⟩ := operand_ok h
    exact ⟨⟨value, hnumber, rfl⟩, .nil env _⟩
  | .boolean n value, env, budget, _, hint, vs, s, _, o, hp, hb, hh, hlimit, h => by
    obtain ⟨id, -, rfl, rfl⟩ := operand_ok h
    exact ⟨⟨id, rfl⟩, .nil env _⟩
  | .null n, env, budget, _, hint, vs, s, _, o, hp, hb, hh, hlimit, h => by
    obtain ⟨rfl, rfl, rfl⟩ := operand_ok h
    exact ⟨rfl, .nil env _⟩
  | .identifier name, env, budget, _, hint, vs, s, _, o, hp, hb, hh, hlimit, h => by
    obtain ⟨v, hobject, rfl, rfl, rfl⟩ := operand_ok h
    exact ⟨⟨v, hobject, rfl⟩, .nil env _⟩
  | .binary n token left right, env, budget, _, hint, vs, s, _, o, hp, hb, hh, hlimit, h => by
    obtain ⟨f, l, b₁, s₁, r, b₂, s₂, e, hobject, hl, hr, he, rfl⟩ := operand_ok h
    -- both operands are built well, the right one where the left one has left off
    have hlb := hp.operand left (plainHint_none X) hl
    have hp₁ := hp.mono hlb.drew.grew
    have hrb := hp₁.operand right (plainHint_none X) hr
    have hp₂ := hp₁.mono hrb.drew.grew
    -- they share the budget, whose limit stays what it is
    obtain ⟨hle, hla⟩ := Proper.affords_operand hW left hp hb (plainHint_none X) hlimit hl
    have hlimit₁ : b₁.limit ≤ maxWeight := hla.paid.limit.trans_le hlimit
    obtain ⟨hre, hra⟩ := Proper.affords_operand hW right hp₁ hb (plainHint_none X) hlimit₁ hr
    have hlimit₂ : b₂.limit ≤ maxWeight := hra.paid.limit.trans_le hlimit₁
    -- the overload is chosen last, and is paid from what they have left
    obtain ⟨hchooses, haccounts⟩ :=
      hp₂.chooses hW hlimit₂ hobject (by simp [hlb.made, hrb.made]) hh he
    refine ⟨⟨l, r, e, hle, hre, hchooses, rfl⟩, Affords.accounts ?_ haccounts⟩
    simpa using hla.append hra
  | .logicalNot n source, env, budget, _, hint, vs, s, _, o, hp, hb, hh, hlimit, h => by
    obtain ⟨f, a, b₁, s₁, e, hobject, ha, he, rfl⟩ := operand_ok h
    have hab := hp.operand source (plainHint_none X) ha
    have hp₁ := hp.mono hab.drew.grew
    obtain ⟨hae, haa⟩ := Proper.affords_operand hW source hp hb (plainHint_none X) hlimit ha
    have hlimit₁ : b₁.limit ≤ maxWeight := haa.paid.limit.trans_le hlimit
    obtain ⟨hchooses, haccounts⟩ := hp₁.chooses hW hlimit₁ hobject (by simp [hab.made]) hh he
    refine ⟨⟨a, e, hae, hchooses, rfl⟩, Affords.accounts ?_ haccounts⟩
    simpa using haa
  | .call n function arguments, env, budget, _, hint, vs, s, _, o, hp, hb, hh, hlimit, h => by
    obtain ⟨f, os, b₁, s₁, e, hobject, hos, he, rfl⟩ := operand_ok h
    obtain ⟨hmade, hdrew⟩ := hp.operands arguments hos
    obtain ⟨hose, hosa⟩ := Proper.affords_operands hW arguments hp hb hlimit hos
    have hlimit₁ : b₁.limit ≤ maxWeight := hosa.paid.limit.trans_le hlimit
    obtain ⟨hchooses, haccounts⟩ := (hp.mono hdrew.grew).chooses hW hlimit₁ hobject hmade hh he
    exact ⟨⟨os, e, hose, hchooses, rfl⟩, hosa.accounts haccounts⟩
  | .cast n type source, env, budget, _, hint, vs, s, _, o, hp, hb, hh, hlimit, h => by
    obtain ⟨destination, a, b₁, s₁, e, htype, ha, he, rfl⟩ := operand_ok h
    have hab := hp.operand source (plainHint_none X) ha
    obtain ⟨hae, haa⟩ := Proper.affords_operand hW source hp hb (plainHint_none X) hlimit ha
    -- the conversion that is asked for is paid for like any other
    have haccounts := (hp.accounts_coerce hW hab.made (hp.resolveType htype).1 he).1
    exact ⟨⟨destination, a, e, (resolveType_ok htype).1, hae, ⟨_, _, _, _, he⟩, rfl⟩,
      haa.accounts haccounts⟩
  | .block body, env, budget, _, hint, vs, s, _, o, hp, hb, hh, hlimit, h => by
    obtain ⟨e, he, rfl⟩ := operand_ok h
    obtain ⟨hee, hea⟩ := Proper.affords_block hW body hp hb hh hlimit he
    exact ⟨⟨e, hee, rfl⟩, hea⟩
  | .ifThen n test thenArm, env, budget, _, hint, vs, s, _, o, hp, hb, hh, hlimit, h => by
    obtain ⟨t₀, b₀, s₀, t, b₁, s₁, p, s₂, a, ht₀, ht, hpoint, ha, rfl⟩ := operand_ok h
    have hbool := hp.plainHint_bool
    have htest := hp.operand test hbool ht₀
    have hp₂ := hp.mono ((hp.test htest ht).1.drew.grew.trans (.freshPoint hpoint))
    -- the test is paid from a budget of its own
    obtain ⟨ht₀e, ht₀a⟩ :=
      Proper.affords_operand hW test hp hb hbool (limit_expressionBudget hb) ht₀
    have hta := hp.affords_settle hW htest.made hbool ht₀a ht
    obtain ⟨hae, haa⟩ := Proper.affords_block hW thenArm hp₂ hb (plainHint_none X) hlimit ha
    -- that the arm's value is discarded changes neither its cost nor its charges
    refine ⟨⟨t₀, t, a, p, ht₀e, ⟨_, _, _, _, ht⟩, hae, rfl⟩, ?_, ?_⟩
    · show Budget.Pays _ _ (a.discard.cost W)
      rw [TypedExpr.cost_discard]
      exact haa.paid
    · show ∀ c ∈ ⟨.expression, t.cost W⟩ :: (t.charges W ++ a.discard.charges W), _
      rw [TypedExpr.charges_discard, ← List.cons_append]
      exact List.forall_mem_append.2 ⟨hta.allows_expression, haa.allowed⟩
  | .ifElse n test thenArm elseArm, env, budget, _, hint, vs, s, _, o, hp, hb, hh, hlimit, h => by
    obtain ⟨t₀, b₀, s₀, t, b₁, s₁, p, s₂, a₀, b₂, s₃, a, b₃, s₄, c₀, b₄, s₅, c, s₆, e, ht₀, ht,
      hpoint, ha₀, ha, hc₀, hc, he, rfl⟩ := operand_ok h
    -- every part is built well, in the order of the analysis
    have hbool := hp.plainHint_bool
    have htest := hp.operand test hbool ht₀
    have hp₂ := hp.mono ((hp.test htest ht).1.drew.grew.trans (.freshPoint hpoint))
    have hab₀ := (hp₂.block thenArm hh ha₀).1
    have hplain := hh.plain_getD hab₀.made.known
    have hp₃ := hp₂.mono hab₀.drew.grew
    have hp₄ := hp₃.mono (hp₃.convert hab₀.made hplain ha).1.grew
    have hcb₀ := (hp₄.block elseArm (plainHint_some hplain) hc₀).1
    -- the test is paid from a budget of its own
    obtain ⟨ht₀e, ht₀a⟩ :=
      Proper.affords_operand hW test hp hb hbool (limit_expressionBudget hb) ht₀
    have hta := hp.affords_settle hW htest.made hbool ht₀a ht
    -- both arms, and the conversions to their common type, are paid from that of the conditional
    obtain ⟨ha₀e, ha₀a⟩ := Proper.affords_block hW thenArm hp₂ hb hh hlimit ha₀
    have haa := ha₀a.accounts (hp₃.accounts_convert hW hab₀.made.known hplain.known ha).1
    have hlimit₃ : b₃.limit ≤ maxWeight := haa.paid.limit.trans_le hlimit
    obtain ⟨hc₀e, hc₀a⟩ :=
      Proper.affords_block hW elseArm hp₄ hb (plainHint_some hplain) hlimit₃ hc₀
    have hca := hc₀a.accounts (hp₄.accounts_convert hW hcb₀.made.known hplain.known hc).1
    -- the conditional itself costs nothing
    obtain ⟨range, id, s₇, q, -, -, -, rfl⟩ := conditional_ok he
    have harms := haa.append hca
    refine ⟨⟨t₀, t, a₀, a, c₀, c, ⟨id, hint.getD a₀.type.unqualified, range⟩, p, q, ht₀e,
      ⟨_, _, _, _, ht⟩, ha₀e, rfl, ⟨_, _, _, _, ha⟩, hc₀e, ⟨_, _, _, _, hc⟩, rfl⟩, harms.paid, ?_⟩
    exact List.forall_mem_append.2 ⟨hta.allows_expression, harms.allowed⟩
  | .dereference n source, env, budget, _, hint, vs, s, _, o, hp, hb, hh, hlimit, h => by
    obtain ⟨a, b₁, s₁, p, e, ha, hpointer, he, rfl⟩ := operand_ok h
    have hab := hp.operand source (plainHint_none X) ha
    obtain ⟨hae, haa⟩ := Proper.affords_operand hW source hp hb (plainHint_none X) hlimit ha
    have hpa := haa.accounts (hp.accounts_plain hW hab.made hpointer)
    obtain ⟨f, u, range, htype, -, rfl, -⟩ := pointee_ok he
    exact ⟨⟨a, p, f, u, _, hae, ⟨_, _, _, _, hpointer⟩, htype, rfl, rfl⟩, hpa.paid, hpa.allowed⟩

/-- Analysed operands are elaborated and paid for, one after the other. -/
theorem Proper.affords_operands (hW : X.Weighs W) : ∀ (sources : List Source.Expr) {env : Env}
    {budget budget' : Budget} {vs : List Variable} {s s' : Fresh} {os : List Operand},
    env.Proper X vs s → env.options.Bounded → budget.limit ≤ maxWeight →
    env.operands budget sources s = .ok ((os, budget'), s') →
    env.ElaboratesAll W sources os ∧
      env.Affords budget budget' (os.map (Operand.cost W)).sum (os.flatMap (Operand.charges W))
  | [], env, budget, _, vs, s, _, os, hp, hb, hlimit, h => by
    cases h
    exact ⟨rfl, .nil env _⟩
  | source :: sources, env, budget, _, vs, s, _, os, hp, hb, hlimit, h => by
    obtain ⟨o, b₁, s₁, rest, ho, hrest, rfl⟩ := operands_cons_ok h
    have hob := hp.operand source (plainHint_none X) ho
    obtain ⟨hoe, hoa⟩ := Proper.affords_operand hW source hp hb (plainHint_none X) hlimit ho
    obtain ⟨hre, hra⟩ := Proper.affords_operands hW sources (hp.mono hob.drew.grew) hb
      (hoa.paid.limit.trans_le hlimit) hrest
    exact ⟨⟨o, rest, hoe, hre, rfl⟩, hoa.append hra⟩

/-- **An analysed block** is elaborated by cheapest overloads, and its result is paid for. -/
theorem Proper.affords_block (hW : X.Weighs W) : ∀ (source : Source.Block) {env : Env}
    {budget budget' : Budget} {hint : Option Ty} {vs : List Variable} {s s' : Fresh}
    {e : TypedExpr}, env.Proper X vs s → env.options.Bounded → PlainHint X hint →
    budget.limit ≤ maxWeight → env.block budget hint source s = .ok ((e, budget'), s') →
    env.ElaboratesBlock W hint source e ∧ env.Affords budget budget' (e.cost W) (e.charges W)
  | .unit n sources, env, budget, _, hint, vs, s, _, e, hp, hb, hh, hlimit, h => by
    obtain ⟨ss, inner, hss, rfl, rfl⟩ := block_ok h
    obtain ⟨hsse, -, hssa⟩ := Proper.affords_statements hW sources hp.enter hb hss
    exact ⟨⟨ss, inner, hsse, rfl⟩, .refl _, hssa⟩
  | .value n sources result, env, budget, _, hint, vs, s, _, e, hp, hb, hh, hlimit, h => by
    obtain ⟨ss, inner, s₁, o, b₁, s₂, r, hss, ho, hr, rfl⟩ := block_ok h
    obtain ⟨-, -, hinner⟩ := hp.enter.statements sources hss
    obtain ⟨hsse, hoptions, hssa⟩ := Proper.affords_statements hW sources hp.enter hb hss
    have hbinner : inner.options.Bounded := hoptions ▸ hb
    have hob := hinner.operand result hh ho
    obtain ⟨hoe, hoa⟩ := Proper.affords_operand hW result hinner hbinner hh hlimit ho
    have hra := hinner.affords_settle hW hob.made hh hoa hr
    refine ⟨⟨ss, inner, o, r, hsse, hoe, ⟨_, _, _, _, hr⟩, rfl⟩, hra.paid, ?_⟩
    have hallowed := hra.allowed
    rw [hoptions] at hallowed
    exact List.forall_mem_append.2 ⟨hssa, hallowed⟩

/-- **An analysed statement** is elaborated by cheapest overloads within its budget. -/
theorem Proper.affords_statement (hW : X.Weighs W) : ∀ (source : Source.Stmt) {env env' : Env}
    {vs : List Variable} {s s' : Fresh} {st : TypedStmt}, env.Proper X vs s →
    env.options.Bounded → env.statement source s = .ok ((st, env'), s') →
    env.ElaboratesStmt W source st env' ∧ env'.options = env.options ∧
      ∀ c ∈ TypedExpr.stmtCharges W st, env.options.Allows c
  | .expression source, env, env', vs, s, _, st, hp, hb, h => by
    obtain ⟨o, b₁, s₁, e, b₂, ho, he, rfl, rfl⟩ := statement_ok h
    have hob := hp.operand source (plainHint_none X) ho
    obtain ⟨hoe, hoa⟩ := Proper.affords_operand hW source hp hb (plainHint_none X)
      (limit_expressionBudget hb) ho
    have hea := hp.affords_settle hW hob.made (plainHint_none X) hoa he
    refine ⟨⟨o, e, hoe, ⟨_, _, _, _, he⟩, rfl, rfl⟩, rfl, ?_⟩
    rw [TypedExpr.stmtCharges, TypedExpr.cost_discard, TypedExpr.charges_discard]
    exact hea.allows_expression
  | .define n name isMutable (some type) source, env, env', vs, s, _, st, hp, hb, h => by
    obtain ⟨u, o, b₁, s₁, e, b₂, s₂, hu, ho, he, hdefine⟩ := statement_ok h
    have hwritten := (resolveType_ok (declaredType_ok hu)).1
    have hplain := (hp.declaredType hu).1
    have hob := hp.operand source (plainHint_some hplain) ho
    obtain ⟨hoe, hoa⟩ := Proper.affords_operand hW source hp hb (plainHint_some hplain)
      (limit_initializerBudget hb) ho
    have hea := hp.affords_settle hW hob.made (plainHint_some hplain) hoa he
    obtain ⟨v, range, -, hdeclare, rfl⟩ := defineVariable_ok hdefine
    exact ⟨⟨u, o, e, hwritten, hoe, ⟨_, _, _, _, he⟩, _, _, hdefine⟩, options_of_declare hdeclare,
      hea.allows_initializer⟩
  | .define n name isMutable none source, env, env', vs, s, _, st, hp, hb, h => by
    obtain ⟨o, b₁, s₁, e, b₂, s₂, ho, he, hdefine⟩ := statement_ok h
    have hob := hp.operand source (plainHint_none X) ho
    obtain ⟨hoe, hoa⟩ := Proper.affords_operand hW source hp hb (plainHint_none X)
      (limit_initializerBudget hb) ho
    have hea := hoa.accounts (hp.accounts_plain hW hob.made he)
    obtain ⟨v, range, -, hdeclare, rfl⟩ := defineVariable_ok hdefine
    exact ⟨⟨o, e, hoe, ⟨_, _, _, _, he⟩, _, _, hdefine⟩, options_of_declare hdeclare,
      hea.allows_initializer⟩
  | .assign n target source, env, env', vs, s, _, st, hp, hb, h => by
    obtain ⟨o, b₁, s₁, t, b₂, s₂, o', b₃, s₃, e, b₄, ho, ht, -, ho', he, rfl, rfl⟩ :=
      statement_ok h
    have hob := hp.operand target (plainHint_none X) ho
    obtain ⟨htb, -⟩ := hp.settled hob (plainHint_none X) ht
    have hplain := plainHint_some (Setting.plain_unqualified htb.made.known)
    have hp₂ := hp.mono htb.drew.grew
    have hob' := hp₂.operand source hplain ho'
    -- target and value share one budget
    obtain ⟨hoe, hoa⟩ := Proper.affords_operand hW target hp hb (plainHint_none X)
      (limit_expressionBudget hb) ho
    have hta := hp.affords_settle hW hob.made (plainHint_none X) hoa ht
    obtain ⟨hoe', hoa'⟩ := Proper.affords_operand hW source hp₂ hb hplain
      (hta.paid.limit.trans_le (limit_expressionBudget hb)) ho'
    have hea := hp₂.affords_settle hW hob'.made hplain hoa' he
    exact ⟨⟨o, t, o', e, hoe, ⟨_, _, _, _, ht⟩, hoe', ⟨_, _, _, _, he⟩, rfl, rfl⟩, rfl,
      (hta.append hea).allows_expression⟩
  | .returnValue n source, env, env', vs, s, _, st, hp, hb, h => by
    obtain ⟨o, b₁, s₁, e, b₂, ho, he, rfl, rfl⟩ := statement_ok h
    have hplain := hp.plainHint_return
    have hob := hp.operand source hplain ho
    obtain ⟨hoe, hoa⟩ := Proper.affords_operand hW source hp hb hplain
      (limit_expressionBudget hb) ho
    have hea := hp.affords_settle hW hob.made hplain hoa he
    exact ⟨⟨o, e, hoe, ⟨_, _, _, _, he⟩, rfl, rfl⟩, rfl, hea.allows_expression⟩
  | .returnVoid n, env, env', vs, s, _, st, hp, hb, h => by
    obtain ⟨-, rfl, rfl, rfl⟩ := statement_ok h
    exact ⟨⟨rfl, rfl⟩, rfl, fun _ hc => absurd hc List.not_mem_nil⟩

/-- **Analysed statements** are elaborated by cheapest overloads, each within its budget. -/
theorem Proper.affords_statements (hW : X.Weighs W) : ∀ (sources : List Source.Stmt)
    {env env' : Env} {vs : List Variable} {s s' : Fresh} {ss : List TypedStmt},
    env.Proper X vs s → env.options.Bounded →
    env.statements sources s = .ok ((ss, env'), s') →
    env.ElaboratesStmts W sources ss env' ∧ env'.options = env.options ∧
      ∀ c ∈ TypedExpr.stmtChargesAll W ss, env.options.Allows c
  | [], env, env', vs, s, _, ss, hp, hb, h => by
    cases h
    exact ⟨⟨rfl, rfl⟩, rfl, fun _ hc => absurd hc List.not_mem_nil⟩
  | source :: sources, env, env', vs, s, _, ss, hp, hb, h => by
    obtain ⟨st, env₁, s₁, rest, hst, hrest, rfl⟩ := statements_cons_ok h
    have hbuilt := hp.statement source hst
    obtain ⟨hste, hoptions, hsta⟩ := Proper.affords_statement hW source hp hb hst
    obtain ⟨hsse, hoptions', hssa⟩ :=
      Proper.affords_statements hW sources hbuilt.proper (hoptions ▸ hb) hrest
    rw [hoptions] at hssa
    exact ⟨⟨st, rest, env₁, hste, hsse, rfl⟩, hoptions'.trans hoptions,
      List.forall_mem_append.2 ⟨hsta, hssa⟩⟩
end

/-! ### Functions and modules -/

variable (W) in
/-- **What a function of the source is elaborated to.**  Its body is a block in which the parameters
are known, and the result type is expected of it. -/
def ElaboratesFunction (env : Env) (d : Source.FunctionDef) (f : TypedFunction) : Prop :=
  ∃ inner body s s',
    Signature.parameterList { env with function := d.name.text, returnType := f.returnType }.enter
      d.arguments (f.parameters.map (·.type)) s = .ok ((f.parameters, inner), s') ∧
    inner.ElaboratesBlock W (if f.returnType.isVoid then none else some f.returnType) d.body body ∧
    f.body = if f.returnType.isVoid then body.discard else body

end Env

namespace Signature

variable {W : Ty → Ty → Weight} {X : Setting} {env env' : Env} {sig : Signature}

theorem options_of_parameterList {arguments : List Source.Argument} {types : List Ty}
    {parameters : List Parameter} {s s' : Fresh}
    (h : parameterList env arguments types s = .ok ((parameters, env'), s')) :
    env'.options = env.options := by
  induction arguments generalizing env s types parameters with
  | nil =>
    cases h
    rfl
  | cons a as ih =>
    cases types with
    | nil =>
      cases h
      rfl
    | cons t ts =>
      obtain ⟨range, s₀, -, h⟩ := Analysis.bind_ok h
      obtain ⟨⟨v, env₁⟩, s₁, hdeclare, h⟩ := Analysis.bind_ok h
      obtain ⟨⟨rest, env₂⟩, s₂, hrest, h⟩ := Analysis.bind_ok h
      cases h
      exact (ih hrest).trans (Env.options_of_declare hdeclare)

/-- **An analysed function** is elaborated by cheapest overloads, and keeps the limits of all
budgets. -/
theorem Implemented.affords {f : TypedFunction} (h : sig.Implemented X env f) (hW : X.Weighs W)
    (hb : env.options.Bounded) :
    (∀ c ∈ f.charges W, env.options.Allows c) ∧ env.ElaboratesFunction W sig.definition f := by
  obtain ⟨s, s', hp, hanalyze⟩ := h.analyze
  obtain ⟨parameters, inner, s₁, body, b, hparameters, hbody, -, rfl⟩ := exists_body hanalyze
  have henv := (proper_returning h.result hp sig.definition.name.text).enter
  obtain ⟨⟨vs, hinner, -⟩, htypes, -⟩ :=
    parameterList_ok henv h.parameters h.arity hparameters
  have hoptions : inner.options = (sig.surroundings env).options :=
    options_of_parameterList hparameters
  change inner.options = env.options at hoptions
  have hbinner : inner.options.Bounded := hoptions ▸ hb
  have hWr : (X.returning sig.result h.result).Weighs W := hW
  obtain ⟨hbodye, hbodya⟩ := hinner.affords_block hWr sig.definition.body hbinner plainHint_expected
    (Env.limit_expressionBudget hbinner) hbody
  -- a result that is thrown away has been paid for all the same
  have hallowed := hbodya.allows_expression
  rw [hoptions] at hallowed
  constructor
  · rw [TypedFunction.charges]
    dsimp only
    split
    · rw [TypedExpr.cost_discard, TypedExpr.charges_discard]
      exact hallowed
    · exact hallowed
  · refine ⟨inner, body, s, s₁, ?_, hbodye, rfl⟩
    dsimp only
    rw [htypes]
    exact hparameters

end Signature

namespace Session

variable {cookie : Registration → Nat} {s s' : Session} {options : Options} {m : Source.Module}
  {typed : TypedModule}

/-- **Budgets are kept and overloads are the cheapest.**  In an analysed module, what the typed tree
of every budgeted expression costs by its literals and conversions is within the limit of its budget,
and every operator and every call of the source is made by an overload such that every other one of
the same name that can be used on the same operands, for the type that is expected, costs more. -/
theorem charges_allowed_of_analyze (hs : Reached cookie s) (hb : options.Bounded)
    (h : s.analyze options m = .ok (.ok typed, s')) :
    ∃ env, s.surroundings options m = .ok env ∧
      List.Forall₂ (fun d f =>
        (∀ c ∈ f.charges (env.context.castGraph.weight env.structs), options.Allows c) ∧
          env.ElaboratesFunction (env.context.castGraph.weight env.structs) d f)
        m.functions typed.functions := by
  obtain ⟨env, X, hsurroundings, hoptions, hfunctions⟩ := hs.exists_implemented h
  refine ⟨env, hsurroundings, hfunctions.imp ?_⟩
  rintro _ f ⟨sig, rfl, himplemented⟩
  obtain ⟨fresh, fresh', hp, -⟩ := himplemented.analyze
  have hW : X.Weighs (env.context.castGraph.weight env.structs) := by
    rw [hp.structs]
    exact Setting.weighs_of_sole hp.sole
  rw [← hoptions] at hb ⊢
  exact himplemented.affords hW hb

/-- The module with a comparison and a call, on the default limits. -/
theorem charges_allowed_climb : Reached (fun _ => 0) (start fun _ => 0) ∧
    Options.default.Bounded ∧ ∃ typed s' env,
      (start fun _ => 0).analyze .default climb = .ok (.ok typed, s') ∧ typed.functions ≠ [] ∧
      (start fun _ => 0).surroundings .default climb = .ok env ∧
      List.Forall₂ (fun d f =>
        (∀ c ∈ f.charges (env.context.castGraph.weight env.structs), Options.default.Allows c) ∧
          env.ElaboratesFunction (env.context.castGraph.weight env.structs) d f)
        climb.functions typed.functions := by
  obtain ⟨typed, s', h, hne⟩ := climb_analysed
  obtain ⟨env, henv, hfunctions⟩ := charges_allowed_of_analyze .start Options.bounded_default h
  exact ⟨.start, Options.bounded_default, typed, s', env, h, hne, henv, hfunctions⟩

end Session

end RangeTyping
