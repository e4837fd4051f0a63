import RangeTyping.Analysis.Functions
import RangeTyping.Proofs.Outcome

/-!
# How each form of the source is analysed

An analysis that ended well has gone through the steps of the form that it analysed.  This module takes
it apart, once for every form: `Env.OperandSteps`, `Env.BlockSteps` and `Env.StatementSteps` list the
steps with what they left, and `Env.operand_ok`, `Env.block_ok` and `Env.statement_ok` say that they
were taken; `Signature.exists_body` does this for functions.  What is shown of analysed bodies follows
these lists and not the analysis itself.
-/

namespace RangeTyping

namespace Env

open Source (Expr Stmt Block)

variable {env env' : Env} {budget budget' : Budget} {hint : Option Ty} {s s' : Fresh}
  {location : Location}

/-! ### Single steps -/

theorem overloads_ok {name : String} {os : List Overload}
    (h : env.overloads name location s = .ok (os, s')) :
    ∃ f, env.context.object? name = some (.function f) ∧ os = f.overloads ∧ s = s' := by
  unfold Env.overloads at h
  cases hobject : env.context.object? name with
  | none =>
    rw [hobject] at h
    exact (Analysis.fail_ok h).elim
  | some object =>
    rw [hobject] at h
    cases object with
    | «variable» v => exact (Analysis.fail_ok h).elim
    | function f =>
      cases h
      exact ⟨f, rfl, rfl, rfl⟩

theorem identifier_ok {name : Source.Name} {e : TypedExpr}
    (h : env.identifier name s = .ok (e, s')) :
    ∃ v, env.context.object? name.text = some (.variable v) ∧
      e = .variable ⟨v.id, v.type, v.range⟩ v ∧ s = s' := by
  unfold Env.identifier at h
  cases hobject : env.context.object? name.text with
  | none =>
    rw [hobject] at h
    exact (Analysis.fail_ok h).elim
  | some object =>
    rw [hobject] at h
    cases object with
    | function f => exact (Analysis.fail_ok h).elim
    | «variable» v =>
      cases h
      exact ⟨v, rfl, rfl, rfl⟩

theorem pointee_ok {pointer e : TypedExpr} (h : pointee location pointer s = .ok (e, s')) :
    ∃ f t range, pointer.type = .pointer f t ∧ t.fullRange = .ok range ∧
      e = .dereference ⟨pointer.id, t.addFlags .ref, range⟩ pointer ∧ s = s' := by
  unfold pointee at h
  cases htype : pointer.type with
  | scalar | function | array | struct =>
    rw [htype] at h
    exact (Analysis.fail_ok h).elim
  | pointer f t =>
    rw [htype] at h
    obtain ⟨range, s₁, hlift, h⟩ := Analysis.bind_ok h
    obtain ⟨hrange, rfl⟩ := Analysis.liftInternal_ok hlift
    cases h
    exact ⟨f, t, range, rfl, hrange, rfl, rfl⟩

/-- A conditional draws its identity, unless it has no value, and the point behind it. -/
theorem conditional_ok {type : Ty} {t a b e : TypedExpr} {p : PointId}
    (h : conditional type t a b p s = .ok (e, s')) :
    ∃ range id s₁ q, hullRange a.range b.range = .ok range ∧
      (type.isVoid = true ∧ id = .unread ∧ s₁ = s ∨
        ¬ type.isVoid = true ∧ Analysis.freshValue s = .ok (id, s₁)) ∧
      Analysis.freshPoint s₁ = .ok (q, s') ∧ e = .ifElse ⟨id, type, range⟩ t a b p q := by
  obtain ⟨range, s₁, hlift, h⟩ := Analysis.bind_ok h
  obtain ⟨hrange, rfl⟩ := Analysis.liftInternal_ok hlift
  obtain ⟨id, s₁, hid, h⟩ := Analysis.drawUnless_ok h
  obtain ⟨q, s₂, hq, h⟩ := Analysis.bind_ok h
  cases h
  exact ⟨range, id, s₁, q, hrange, hid, hq, rfl⟩

theorem checkAssignable_ok {t : TypedExpr} {u : Unit}
    (h : checkAssignable t location s = .ok (u, s')) : t.type.flags = .refMut ∧ s = s' := by
  unfold checkAssignable at h
  split at h
  · rename_i hplace
    cases h
    refine ⟨?_, rfl⟩
    obtain ⟨hreference, hmutable⟩ := Bool.and_eq_true_iff.1 hplace
    show (⟨t.type.isReference, t.type.isMutable⟩ : Flags) = .refMut
    rw [hreference, hmutable]
    rfl
  · cases h

theorem returnNothing_ok {st : TypedStmt} (h : env.returnNothing location s = .ok (st, s')) :
    env.returnType.isVoid = true ∧ st = .returnVoid ∧ s = s' := by
  unfold Env.returnNothing at h
  split at h
  · rename_i hvoid
    cases h
    exact ⟨hvoid, rfl, rfl⟩
  · cases h

/-! ### Expressions -/

/-- **The steps in which an expression was analysed** to `o`, from the budget `budget` and the supply
`s` to `budget'` and `s'`. -/
def OperandSteps (env : Env) (budget : Budget) (hint : Option Ty) (s : Fresh) (o : Operand)
    (budget' : Budget) (s' : Fresh) : Expr → Prop
  | .number _ text => ∃ value, Source.number? text = some value ∧ o = .number value ∧
      budget = budget' ∧ s = s'
  | .boolean _ value => ∃ id, Analysis.freshValue s = .ok (id, s') ∧
      o = .typed (.bool ⟨id, env.types.boolTy, some (.ofBool value)⟩ value) ∧ budget = budget'
  | .null _ => o = .null ∧ budget = budget' ∧ s = s'
  | .identifier name => ∃ v, env.context.object? name.text = some (.variable v) ∧
      o = .typed (.variable ⟨v.id, v.type, v.range⟩ v) ∧ budget = budget' ∧ s = s'
  | .binary n token left right => ∃ f l b₁ s₁ r b₂ s₂ e,
      env.context.object? token.symbol = some (.function f) ∧
      env.operand budget none left s = .ok ((l, b₁), s₁) ∧
      env.operand b₁ none right s₁ = .ok ((r, b₂), s₂) ∧
      env.select b₂ token.symbol f.overloads [l, r] hint n.location s₂ =
        .ok ((e, budget'), s') ∧ o = .typed e
  | .logicalNot n source => ∃ f a b₁ s₁ e,
      env.context.object? Source.notSymbol = some (.function f) ∧
      env.operand budget none source s = .ok ((a, b₁), s₁) ∧
      env.select b₁ Source.notSymbol f.overloads [a] hint n.location s₁ =
        .ok ((e, budget'), s') ∧ o = .typed e
  | .call n function arguments => ∃ f os b₁ s₁ e,
      env.context.object? function.text = some (.function f) ∧
      env.operands budget arguments s = .ok ((os, b₁), s₁) ∧
      env.select b₁ function.text f.overloads os hint n.location s₁ =
        .ok ((e, budget'), s') ∧ o = .typed e
  | .cast n type source => ∃ destination a b₁ s₁ e,
      env.resolveType type s = .ok (destination, s) ∧
      env.operand budget none source s = .ok ((a, b₁), s₁) ∧
      env.coerce b₁ destination false n.location a s₁ = .ok ((e, budget'), s') ∧ o = .typed e
  | .block body => ∃ e, env.block budget hint body s = .ok ((e, budget'), s') ∧ o = .typed e
  | .ifThen _ test thenArm => ∃ u b₁ s₁ t b₂ s₂ p s₃ a,
      env.operand env.expressionBudget (some env.types.boolTy) test s = .ok ((u, b₁), s₁) ∧
      env.settle b₁ (some env.types.boolTy) test.location u s₁ = .ok ((t, b₂), s₂) ∧
      Analysis.freshPoint s₂ = .ok (p, s₃) ∧
      env.block budget none thenArm s₃ = .ok ((a, budget'), s') ∧
      o = .typed (.ifThen ⟨.unread, env.types.voidTy, none⟩ t a.discard p)
  | .ifElse _ test thenArm elseArm => ∃ u b₁ s₁ t b₂ s₂ p s₃ a b₃ s₄ a' b₄ s₅ c b₅ s₆ c' s₇ e,
      env.operand env.expressionBudget (some env.types.boolTy) test s = .ok ((u, b₁), s₁) ∧
      env.settle b₁ (some env.types.boolTy) test.location u s₁ = .ok ((t, b₂), s₂) ∧
      Analysis.freshPoint s₂ = .ok (p, s₃) ∧
      env.block budget hint thenArm s₃ = .ok ((a, b₃), s₄) ∧
      env.convert b₃ (hint.getD a.type.unqualified) true thenArm.node.location a s₄ =
        .ok ((a', b₄), s₅) ∧
      env.block b₄ (some (hint.getD a.type.unqualified)) elseArm s₅ = .ok ((c, b₅), s₆) ∧
      env.convert b₅ (hint.getD a.type.unqualified) true elseArm.node.location c s₆ =
        .ok ((c', budget'), s₇) ∧
      conditional (hint.getD a.type.unqualified) t a' c' p s₇ = .ok (e, s') ∧ o = .typed e
  | .dereference n source => ∃ a b₁ s₁ p e, env.operand budget none source s = .ok ((a, b₁), s₁) ∧
      env.plain b₁ source.location a s₁ = .ok ((p, budget'), s') ∧
      pointee n.location p s' = .ok (e, s') ∧ o = .typed e

/-- **An analysed expression** has gone through the steps of its form. -/
theorem operand_ok {o : Operand} : ∀ {source : Expr},
    env.operand budget hint source s = .ok ((o, budget'), s') →
    env.OperandSteps budget hint s o budget' s' source
  | .number n text, h => by
    rw [operand] at h
    cases hvalue : Source.number? text with
    | none =>
      rw [hvalue] at h
      exact (Analysis.fail_ok h).elim
    | some value =>
      rw [hvalue] at h
      cases h
      exact ⟨value, hvalue, rfl, rfl, rfl⟩
  | .boolean n value, h => by
    obtain ⟨e, s₁, he, h⟩ := Analysis.bind_ok h
    cases h
    obtain ⟨id, t, hid, he⟩ := Analysis.bind_ok he
    cases he
    exact ⟨id, hid, rfl, rfl⟩
  | .null n, h => by
    cases h
    exact ⟨rfl, rfl, rfl⟩
  | .identifier name, h => by
    obtain ⟨e, s₁, he, h⟩ := Analysis.bind_ok h
    cases h
    obtain ⟨v, hobject, rfl, rfl⟩ := identifier_ok he
    exact ⟨v, hobject, rfl, rfl, rfl⟩
  | .binary n token left right, h => by
    obtain ⟨overloads, s₀, hoverloads, h⟩ := Analysis.bind_ok h
    obtain ⟨f, hobject, rfl, rfl⟩ := overloads_ok hoverloads
    obtain ⟨⟨l, b₁⟩, s₁, hl, h⟩ := Analysis.bind_ok h
    obtain ⟨⟨r, b₂⟩, s₂, hr, h⟩ := Analysis.bind_ok h
    obtain ⟨⟨e, b₃⟩, s₃, he, h⟩ := Analysis.bind_ok h
    cases h
    exact ⟨f, l, b₁, s₁, r, b₂, s₂, e, hobject, hl, hr, he, rfl⟩
  | .logicalNot n source, h => by
    obtain ⟨overloads, s₀, hoverloads, h⟩ := Analysis.bind_ok h
    obtain ⟨f, hobject, rfl, rfl⟩ := overloads_ok hoverloads
    obtain ⟨⟨a, b₁⟩, s₁, ha, h⟩ := Analysis.bind_ok h
    obtain ⟨⟨e, b₂⟩, s₂, he, h⟩ := Analysis.bind_ok h
    cases h
    exact ⟨f, a, b₁, s₁, e, hobject, ha, he, rfl⟩
  | .call n function arguments, h => by
    obtain ⟨overloads, s₀, hoverloads, h⟩ := Analysis.bind_ok h
    obtain ⟨f, hobject, rfl, rfl⟩ := overloads_ok hoverloads
    obtain ⟨⟨os, b₁⟩, s₁, hos, h⟩ := Analysis.bind_ok h
    obtain ⟨⟨e, b₂⟩, s₂, he, h⟩ := Analysis.bind_ok h
    cases h
    exact ⟨f, os, b₁, s₁, e, hobject, hos, he, rfl⟩
  | .cast n type source, h => by
    obtain ⟨destination, s₀, htype, h⟩ := Analysis.bind_ok h
    obtain ⟨-, rfl⟩ := resolveType_ok htype
    obtain ⟨⟨a, b₁⟩, s₁, ha, h⟩ := Analysis.bind_ok h
    obtain ⟨⟨e, b₂⟩, s₂, he, h⟩ := Analysis.bind_ok h
    cases h
    exact ⟨destination, a, b₁, s₁, e, htype, ha, he, rfl⟩
  | .block body, h => by
    obtain ⟨⟨e, b₁⟩, s₁, he, h⟩ := Analysis.bind_ok h
    cases h
    exact ⟨e, he, rfl⟩
  | .ifThen n test thenArm, h => by
    obtain ⟨⟨u, b₁⟩, s₁, hu, h⟩ := Analysis.bind_ok h
    obtain ⟨⟨t, b₂⟩, s₂, ht, h⟩ := Analysis.bind_ok h
    obtain ⟨p, s₃, hp, h⟩ := Analysis.bind_ok h
    obtain ⟨⟨a, b₃⟩, s₄, ha, h⟩ := Analysis.bind_ok h
    cases h
    exact ⟨u, b₁, s₁, t, b₂, s₂, p, s₃, a, hu, ht, hp, ha, rfl⟩
  | .ifElse n test thenArm elseArm, h => by
    obtain ⟨⟨u, b₁⟩, s₁, hu, h⟩ := Analysis.bind_ok h
    obtain ⟨⟨t, b₂⟩, s₂, ht, h⟩ := Analysis.bind_ok h
    obtain ⟨p, s₃, hp, h⟩ := Analysis.bind_ok h
    obtain ⟨⟨a, b₃⟩, s₄, ha, h⟩ := Analysis.bind_ok h
    obtain ⟨⟨a', b₄⟩, s₅, ha', h⟩ := Analysis.bind_ok h
    obtain ⟨⟨c, b₅⟩, s₆, hc, h⟩ := Analysis.bind_ok h
    obtain ⟨⟨c', b₆⟩, s₇, hc', h⟩ := Analysis.bind_ok h
    obtain ⟨e, s₈, he, h⟩ := Analysis.bind_ok h
    cases h
    exact ⟨u, b₁, s₁, t, b₂, s₂, p, s₃, a, b₃, s₄, a', b₄, s₅, c, b₅, s₆, c', s₇, e, hu, ht, hp, ha,
      ha', hc, hc', he, rfl⟩
  | .dereference n source, h => by
    obtain ⟨⟨a, b₁⟩, s₁, ha, h⟩ := Analysis.bind_ok h
    obtain ⟨⟨p, b₂⟩, s₂, hp, h⟩ := Analysis.bind_ok h
    obtain ⟨e, s₃, he, h⟩ := Analysis.bind_ok h
    cases h
    obtain ⟨-, -, -, -, -, -, rfl⟩ := pointee_ok he
    exact ⟨a, b₁, s₁, p, e, ha, hp, he, rfl⟩

/-- The steps in which several expressions were analysed. -/
theorem operands_cons_ok {source : Expr} {sources : List Expr} {os : List Operand}
    (h : env.operands budget (source :: sources) s = .ok ((os, budget'), s')) :
    ∃ o b₁ s₁ rest, env.operand budget none source s = .ok ((o, b₁), s₁) ∧
      env.operands b₁ sources s₁ = .ok ((rest, budget'), s') ∧ os = o :: rest := by
  obtain ⟨⟨o, b₁⟩, s₁, ho, h⟩ := Analysis.bind_ok h
  obtain ⟨⟨rest, b₂⟩, s₂, hrest, h⟩ := Analysis.bind_ok h
  cases h
  exact ⟨o, b₁, s₁, rest, ho, hrest, rfl⟩

/-! ### Blocks and statements -/

/-- **The steps in which a block was analysed.** -/
def BlockSteps (env : Env) (budget : Budget) (hint : Option Ty) (s : Fresh) (e : TypedExpr)
    (budget' : Budget) (s' : Fresh) : Block → Prop
  | .unit _ sources => ∃ ss inner, env.enter.statements sources s = .ok ((ss, inner), s') ∧
      e = inner.unitBlock ss ∧ budget = budget'
  | .value _ sources result => ∃ ss inner s₁ o b₁ s₂ r,
      env.enter.statements sources s = .ok ((ss, inner), s₁) ∧
      inner.operand budget hint result s₁ = .ok ((o, b₁), s₂) ∧
      inner.settle b₁ hint result.location o s₂ = .ok ((r, budget'), s') ∧ e = valueBlock ss r

/-- **An analysed block** has gone through the steps of its form. -/
theorem block_ok {e : TypedExpr} : ∀ {source : Block},
    env.block budget hint source s = .ok ((e, budget'), s') →
    env.BlockSteps budget hint s e budget' s' source
  | .unit n sources, h => by
    obtain ⟨⟨ss, inner⟩, s₁, hss, h⟩ := Analysis.bind_ok h
    cases h
    exact ⟨ss, inner, hss, rfl, rfl⟩
  | .value n sources result, h => by
    obtain ⟨⟨ss, inner⟩, s₁, hss, h⟩ := Analysis.bind_ok h
    obtain ⟨⟨o, b₁⟩, s₂, ho, h⟩ := Analysis.bind_ok h
    obtain ⟨⟨r, b₂⟩, s₃, hr, h⟩ := Analysis.bind_ok h
    cases h
    exact ⟨ss, inner, s₁, o, b₁, s₂, r, hss, ho, hr, rfl⟩

/-- **The steps in which a statement was analysed.** -/
def StatementSteps (env : Env) (s : Fresh) (st : TypedStmt) (env' : Env) (s' : Fresh) :
    Stmt → Prop
  | .expression source => ∃ o b₁ s₁ e b₂,
      env.operand env.expressionBudget none source s = .ok ((o, b₁), s₁) ∧
      env.settle b₁ none source.location o s₁ = .ok ((e, b₂), s') ∧
      st = .expression e.discard ∧ env = env'
  | .define n name isMutable (some type) source => ∃ t o b₁ s₁ e b₂ s₂,
      env.declaredType name n.location type s = .ok (t, s) ∧
      env.operand env.initializerBudget (some t) source s = .ok ((o, b₁), s₁) ∧
      env.settle b₁ (some t) source.location o s₁ = .ok ((e, b₂), s₂) ∧
      env.defineVariable name isMutable n.location e s₂ = .ok ((st, env'), s')
  | .define n name isMutable none source => ∃ o b₁ s₁ e b₂ s₂,
      env.operand env.initializerBudget none source s = .ok ((o, b₁), s₁) ∧
      env.plain b₁ source.location o s₁ = .ok ((e, b₂), s₂) ∧
      env.defineVariable name isMutable n.location e s₂ = .ok ((st, env'), s')
  | .assign _ target source => ∃ u b₁ s₁ t b₂ s₂ o b₃ s₃ e b₄,
      env.operand env.expressionBudget none target s = .ok ((u, b₁), s₁) ∧
      env.settle b₁ none target.location u s₁ = .ok ((t, b₂), s₂) ∧ t.type.flags = .refMut ∧
      env.operand b₂ (some t.type.unqualified) source s₂ = .ok ((o, b₃), s₃) ∧
      env.settle b₃ (some t.type.unqualified) source.location o s₃ = .ok ((e, b₄), s') ∧
      st = .assign t e ∧ env = env'
  | .returnValue _ source => ∃ o b₁ s₁ e b₂,
      env.operand env.expressionBudget (some env.returnType) source s = .ok ((o, b₁), s₁) ∧
      env.settle b₁ (some env.returnType) source.location o s₁ = .ok ((e, b₂), s') ∧
      st = .returnValue e ∧ env = env'
  | .returnVoid _ => env.returnType.isVoid = true ∧ st = .returnVoid ∧ env = env' ∧ s = s'

/-- **An analysed statement** has gone through the steps of its form. -/
theorem statement_ok {st : TypedStmt} : ∀ {source : Stmt},
    env.statement source s = .ok ((st, env'), s') → env.StatementSteps s st env' s' source
  | .expression source, h => by
    obtain ⟨⟨o, b₁⟩, s₁, ho, h⟩ := Analysis.bind_ok h
    obtain ⟨⟨e, b₂⟩, s₂, he, h⟩ := Analysis.bind_ok h
    cases h
    exact ⟨o, b₁, s₁, e, b₂, ho, he, rfl, rfl⟩
  | .define n name isMutable (some type) source, h => by
    obtain ⟨t, s₀, ht, h⟩ := Analysis.bind_ok h
    obtain ⟨-, rfl⟩ := resolveType_ok (declaredType_ok ht)
    obtain ⟨⟨o, b₁⟩, s₁, ho, h⟩ := Analysis.bind_ok h
    obtain ⟨⟨e, b₂⟩, s₂, he, h⟩ := Analysis.bind_ok h
    exact ⟨t, o, b₁, s₁, e, b₂, s₂, ht, ho, he, h⟩
  | .define n name isMutable none source, h => by
    obtain ⟨⟨o, b₁⟩, s₁, ho, h⟩ := Analysis.bind_ok h
    obtain ⟨⟨e, b₂⟩, s₂, he, h⟩ := Analysis.bind_ok h
    exact ⟨o, b₁, s₁, e, b₂, s₂, ho, he, h⟩
  | .assign n target source, h => by
    obtain ⟨⟨u, b₁⟩, s₁, hu, h⟩ := Analysis.bind_ok h
    obtain ⟨⟨t, b₂⟩, s₂, ht, h⟩ := Analysis.bind_ok h
    obtain ⟨_, s₂', hassignable, h⟩ := Analysis.bind_ok h
    obtain ⟨hplace, rfl⟩ := checkAssignable_ok hassignable
    obtain ⟨⟨o, b₃⟩, s₃, ho, h⟩ := Analysis.bind_ok h
    obtain ⟨⟨e, b₄⟩, s₄, he, h⟩ := Analysis.bind_ok h
    cases h
    exact ⟨u, b₁, s₁, t, b₂, s₂, o, b₃, s₃, e, b₄, hu, ht, hplace, ho, he, rfl, rfl⟩
  | .returnValue n source, h => by
    obtain ⟨⟨o, b₁⟩, s₁, ho, h⟩ := Analysis.bind_ok h
    obtain ⟨⟨e, b₂⟩, s₂, he, h⟩ := Analysis.bind_ok h
    cases h
    exact ⟨o, b₁, s₁, e, b₂, ho, he, rfl, rfl⟩
  | .returnVoid n, h => by
    obtain ⟨st', s₁, hst, h⟩ := Analysis.bind_ok h
    cases h
    obtain ⟨hvoid, rfl, rfl⟩ := returnNothing_ok hst
    exact ⟨hvoid, rfl, rfl, rfl⟩

/-- The steps in which several statements were analysed. -/
theorem statements_cons_ok {source : Stmt} {sources : List Stmt} {ss : List TypedStmt}
    (h : env.statements (source :: sources) s = .ok ((ss, env'), s')) :
    ∃ st env₁ s₁ rest, env.statement source s = .ok ((st, env₁), s₁) ∧
      env₁.statements sources s₁ = .ok ((rest, env'), s') ∧ ss = st :: rest := by
  obtain ⟨⟨st, env₁⟩, s₁, hst, h⟩ := Analysis.bind_ok h
  obtain ⟨⟨rest, env₂⟩, s₂, hrest, h⟩ := Analysis.bind_ok h
  cases h
  exact ⟨st, env₁, s₁, rest, hst, hrest, rfl⟩

end Env

/-! ### Functions -/

namespace Signature

/-- The type that is expected of the result of a function. -/
def expected (sig : Signature) : Option Ty := if sig.result.isVoid then none else some sig.result

/-- The surroundings in which the parameters of a function are declared. -/
def surroundings (sig : Signature) (env : Env) : Env :=
  { env with function := sig.definition.name.text, returnType := sig.result }.enter

/-- **The parts of the analysis of a function**: its parameters are declared, then its body is
analysed as one block on a budget of its own.  A function with a result has one, or ends in a return
statement. -/
theorem exists_body {sig : Signature} {env : Env} {s s' : Fresh} {f : TypedFunction}
    (h : sig.analyze env s = .ok (f, s')) :
    ∃ parameters inner s₁ body budget,
      parameterList (sig.surroundings env) sig.definition.arguments sig.parameters s =
        .ok ((parameters, inner), s₁) ∧
      inner.block inner.expressionBudget sig.expected sig.definition.body s₁ =
        .ok ((body, budget), s') ∧
      ¬ (sig.expected.isSome && !sig.definition.body.hasResult &&
        !sig.definition.body.endsWithReturn) = true ∧
      f = ⟨sig.definition.name.text, sig.symbol, sig.type, sig.result, parameters,
        sig.definition.node.location, if sig.result.isVoid then body.discard else body⟩ := by
  obtain ⟨⟨parameters, inner⟩, s₁, hparameters, h⟩ := Analysis.bind_ok h
  obtain ⟨⟨body, budget⟩, s₂, hbody, h⟩ := Analysis.bind_ok h
  dsimp only at h
  by_cases hmissing : (sig.expected.isSome && !sig.definition.body.hasResult &&
      !sig.definition.body.endsWithReturn) = true
  · rw [expected] at hmissing
    rw [if_pos hmissing] at h
    obtain ⟨_, _, hfail, -⟩ := Analysis.bind_ok h
    exact (Analysis.fail_ok hfail).elim
  · have hreturns := hmissing
    rw [expected] at hreturns
    rw [if_neg hreturns] at h
    cases h
    exact ⟨parameters, inner, s₁, body, budget, hparameters, hbody, hmissing, rfl⟩

end Signature

end RangeTyping
