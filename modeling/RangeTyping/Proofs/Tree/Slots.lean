import Mathlib
import RangeTyping.Proofs.Analysis.Names
import RangeTyping.Proofs.Renaming.Overload

/-!
# The variables of a body

A variable that is defined in a body gets a slot to hold its value.  The slots of a source tree
(`Source.Expr.slots`) are listed in the order in which they are set up, which is the order of the
text but for assignments: these make their value before their target.  An analysis defines one
variable for each slot, of the same name, and lets exactly those change that are declared so
(`Env.Unqualified.mirrors_block`).

On the way it is shown that conditionals have no qualifiers (`Rule.plainConditionals`): both arms
are converted to a type that stands for values.  So what may be changed is never a conditional.
-/

namespace RangeTyping

/-- A variable as it is defined in the source. -/
structure Slot where
  name : String
  isMutable : Bool
deriving DecidableEq, Repr

/-! ### Slots of the source -/

namespace Source

mutual
/-- **The variables that are defined inside an expression**, in the order in which they are set up. -/
def Expr.slots : Expr → List Slot
  | .number _ _ | .boolean _ _ | .null _ | .identifier _ => []
  | .binary _ _ l r => l.slots ++ r.slots
  | .logicalNot _ e | .cast _ _ e | .dereference _ e => e.slots
  | .call _ _ as => Expr.slotsAll as
  | .block b => b.slots
  | .ifThen _ t a => t.slots ++ a.slots
  | .ifElse _ t a b => t.slots ++ (a.slots ++ b.slots)

/-- The variables that are defined inside expressions. -/
def Expr.slotsAll : List Expr → List Slot
  | [] => []
  | e :: es => e.slots ++ Expr.slotsAll es

/-- The variables that are defined by a statement and inside it. -/
def Stmt.slots : Stmt → List Slot
  | .expression e | .returnValue _ e => e.slots
  | .define _ name isMutable _ e => e.slots ++ [⟨name.text, isMutable⟩]
  | .assign _ t e => e.slots ++ t.slots
  | .returnVoid _ => []

/-- The variables that are defined by statements and inside them. -/
def Stmt.slotsAll : List Stmt → List Slot
  | [] => []
  | s :: ss => s.slots ++ Stmt.slotsAll ss

/-- The variables that are defined inside a block. -/
def Block.slots : Block → List Slot
  | .unit _ ss => Stmt.slotsAll ss
  | .value _ ss r => Stmt.slotsAll ss ++ r.slots
end

end Source

/-! ### Variables of typed trees -/

/-- The slot of a variable. -/
def Variable.slot (v : Variable) : Slot := ⟨v.name, v.type.isMutable⟩

mutual
/-- **The variables that are defined inside a typed expression**, in the order of their events. -/
def TypedExpr.locals : TypedExpr → List Variable
  | .int _ _ | .bool _ _ | .null _ | .variable _ _ => []
  | .cast _ _ e | .logicalNot _ e | .dereference _ e => locals e
  | .call _ _ as => localsAll as
  | .binary _ _ l r => locals l ++ locals r
  | .block _ ss => stmtLocalsAll ss
  | .valueBlock _ ss r => stmtLocalsAll ss ++ locals r
  | .ifThen _ t a _ => locals t ++ locals a
  | .ifElse _ t a b _ _ => locals t ++ (locals a ++ locals b)

/-- The variables that are defined inside typed expressions. -/
def TypedExpr.localsAll : List TypedExpr → List Variable
  | [] => []
  | e :: es => locals e ++ localsAll es

/-- The variables that are defined by a typed statement and inside it. -/
def TypedExpr.stmtLocals : TypedStmt → List Variable
  | .expression e | .returnValue e => locals e
  | .define v e => locals e ++ [v]
  | .assign t e => locals e ++ locals t
  | .returnVoid => []

/-- The variables that are defined by typed statements and inside them. -/
def TypedExpr.stmtLocalsAll : List TypedStmt → List Variable
  | [] => []
  | s :: ss => stmtLocals s ++ stmtLocalsAll ss
end

/-- **Conditionals with an alternative have no qualifiers.** -/
def Rule.plainConditionals : Rule where
  expr
    | _, .ifElse i _ _ _ _ _ => i.type.flags = .none
    | _, _ => True
  stmt _ _ := True

/-- The variables of the expression have these slots, and its conditionals have no qualifiers. -/
structure TypedExpr.Mirrors (slots : List Slot) (e : TypedExpr) : Prop where
  slots : e.locals.map Variable.slot = slots
  plain : ∀ vs, e.Obeys .plainConditionals vs

/-- The variables of the statement have these slots, and its conditionals have no qualifiers. -/
structure TypedStmt.Mirrors (slots : List Slot) (st : TypedStmt) : Prop where
  slots : (TypedExpr.stmtLocals st).map Variable.slot = slots
  plain : ∀ vs, TypedExpr.StmtObeys .plainConditionals vs st

/-- The variables of the statements have these slots, and their conditionals have no qualifiers. -/
structure TypedStmt.MirrorsAll (slots : List Slot) (ss : List TypedStmt) : Prop where
  slots : (TypedExpr.stmtLocalsAll ss).map Variable.slot = slots
  plain : ∀ vs, TypedExpr.StmtsObey .plainConditionals vs ss

/-- An operand that mirrors slots; open literals have none. -/
def Operand.Mirrors (slots : List Slot) : Operand → Prop
  | .typed e => e.Mirrors slots
  | .number _ | .null => slots = []

namespace TypedExpr

variable {e : TypedExpr} {slots : List Slot}

@[simp] theorem locals_discard (e : TypedExpr) : e.discard.locals = e.locals := by
  fun_induction discard e with
  | case3 i s _ ih => rw [locals, locals, ih]
  | case4 i ss r _ ih => rw [locals, locals, ih]
  | _ => rfl

theorem Mirrors.discard (h : e.Mirrors slots) : e.discard.Mirrors slots := by
  refine ⟨by rw [locals_discard, h.slots], fun vs => ?_⟩
  have hplain := h.plain vs
  clear h
  induction e using TypedExpr.discard.induct generalizing vs with
  | case3 i s ih => exact ⟨trivial, ih vs hplain.2⟩
  | case4 i ss r ih => exact ⟨trivial, hplain.2.1, ih _ hplain.2.2⟩
  | case8 i op s hop =>
    cases op with
    | noOp => exact absurd rfl hop
    | dereference | truncate | changeSign | expandSigned | expandUnsigned => exact hplain
  | _ => exact hplain

end TypedExpr

/-! ### Literals, conversions and overloads -/

namespace Env

variable {env : Env} {s s' : Fresh} {budget budget' : Budget} {location : Location}
  {e e' : TypedExpr} {slots : List Slot} {destination : Ty} {implicit : Bool}

theorem mirrors_intLiteral {value : Nat} {type : Ty} {a : Scalar}
    (h : intLiteral value type a s = .ok (e, s')) : e.Mirrors [] := by
  obtain ⟨id, t, -, h⟩ := Analysis.bind_ok h
  obtain ⟨r, t', -, h⟩ := Analysis.bind_ok h
  obtain ⟨rfl, -⟩ := Analysis.pure_ok h
  exact ⟨rfl, fun _ => trivial⟩

theorem mirrors_naturalNumber {value : Nat}
    (h : env.naturalNumber budget value location s = .ok ((e, budget'), s')) : e.Mirrors [] := by
  obtain ⟨fitting, t, -, h⟩ := Analysis.bind_ok h
  cases fitting with
  | none => exact (Analysis.fail_ok h).elim
  | some a =>
    obtain ⟨b, t, -, h⟩ := Analysis.bind_ok h
    obtain ⟨l, t, hl, h⟩ := Analysis.bind_ok h
    cases h
    exact mirrors_intLiteral hl

theorem mirrors_natural {o : Operand} (ho : o.Mirrors slots)
    (h : env.natural budget location o s = .ok ((e, budget'), s')) : e.Mirrors slots := by
  cases o with
  | typed e₀ =>
    obtain ⟨heq, -⟩ := Analysis.pure_ok h
    cases heq
    exact ho
  | number value =>
    cases ho
    exact mirrors_naturalNumber h
  | null => cases h

theorem mirrors_castNodes {steps : List ChainStep} (he : e.Mirrors slots)
    (h : steps.foldlM castNode e s = .ok (e', s')) : e'.Mirrors slots := by
  induction steps generalizing e s with
  | nil =>
    obtain ⟨rfl, -⟩ := Analysis.pure_ok h
    exact he
  | cons step rest ih =>
    rw [List.foldlM_cons] at h
    obtain ⟨e₁, t, h₁, h⟩ := Analysis.bind_ok h
    obtain ⟨id, t', -, h₁⟩ := Analysis.drawUnless_ok h₁
    obtain ⟨rfl, -⟩ := Analysis.pure_ok h₁
    refine ih ?_ h
    exact ⟨he.slots, fun vs => ⟨trivial, he.plain vs⟩⟩

theorem mirrors_convert (he : e.Mirrors slots)
    (h : env.convert budget destination implicit location e s = .ok ((e', budget'), s')) :
    e'.Mirrors slots := by
  obtain ⟨chain, t, -, h⟩ := Analysis.bind_ok h
  obtain ⟨b, t, -, h⟩ := Analysis.bind_ok h
  obtain ⟨e₁, t, hsteps, h⟩ := Analysis.bind_ok h
  cases h
  exact mirrors_castNodes he hsteps

/-- **An operand as a value of a given type** has the variables that it had. -/
theorem mirrors_coerce {o : Operand} (ho : o.Mirrors slots)
    (h : env.coerce budget destination implicit location o s = .ok ((e, budget'), s')) :
    e.Mirrors slots := by
  cases o with
  | typed e₀ => exact mirrors_convert ho h
  | number value =>
    cases ho
    obtain ⟨literal, t, -, h⟩ := Analysis.bind_ok h
    cases literal with
    | some a =>
      obtain ⟨b, t, -, h⟩ := Analysis.bind_ok h
      obtain ⟨l, t, hl, h⟩ := Analysis.bind_ok h
      cases h
      exact mirrors_intLiteral hl
    | none =>
      obtain ⟨⟨l, b⟩, t, hl, h⟩ := Analysis.bind_ok h
      exact mirrors_convert (mirrors_naturalNumber hl) h
  | null =>
    cases ho
    rw [Env.coerce] at h
    split at h
    · obtain ⟨id, t, -, h⟩ := Analysis.bind_ok h
      cases h
      exact ⟨rfl, fun _ => trivial⟩
    · exact (Analysis.fail_ok h).elim

theorem mirrors_settle {o : Operand} {expected : Option Ty} (ho : o.Mirrors slots)
    (h : env.settle budget expected location o s = .ok ((e, budget'), s')) : e.Mirrors slots := by
  cases expected with
  | some t => exact mirrors_coerce ho h
  | none => exact mirrors_natural ho h

theorem mirrors_plain {o : Operand} (ho : o.Mirrors slots)
    (h : env.plain budget location o s = .ok ((e, budget'), s')) : e.Mirrors slots := by
  obtain ⟨⟨e₁, b⟩, t, he₁, h⟩ := Analysis.bind_ok h
  exact mirrors_convert (mirrors_natural ho he₁) h

variable {o : Overload} {parameters : List Ty} {result : Ty} {arguments : List TypedExpr}
  {operands : List Operand} {hint : Option Ty} {lists : List (List Slot)}

theorem mirrors_coerceAll (hos : List.Forall₂ Operand.Mirrors lists operands)
    (hlen : parameters.length = operands.length)
    (h : env.coerceAll location budget operands parameters s = .ok ((arguments, budget'), s')) :
    List.Forall₂ TypedExpr.Mirrors lists arguments := by
  induction hos generalizing parameters arguments budget s with
  | nil =>
    cases h
    exact .nil
  | cons ho _ ih =>
    cases parameters with
    | nil => cases hlen
    | cons t ts =>
      obtain ⟨⟨e, b⟩, s₁, he, h⟩ := Analysis.bind_ok h
      obtain ⟨⟨rest, b'⟩, s₂, hrest, h⟩ := Analysis.bind_ok h
      cases h
      exact .cons (mirrors_coerce ho he) (ih (Nat.succ.inj hlen) hrest)

/-- Expressions that mirror their slots, put side by side. -/
theorem mirrors_localsAll (h : List.Forall₂ TypedExpr.Mirrors lists arguments) :
    (TypedExpr.localsAll arguments).map Variable.slot = lists.flatten ∧
      ∀ vs, TypedExpr.ObeysAll .plainConditionals vs arguments := by
  induction h with
  | nil => exact ⟨rfl, fun _ => trivial⟩
  | cons he _ ih =>
    refine ⟨?_, fun vs => ⟨he.plain vs, ih.2 vs⟩⟩
    rw [TypedExpr.localsAll, List.map_append, he.slots, ih.1, List.flatten_cons]

theorem mirrors_apply {undefined : Option UndefinedBehavior}
    (has : List.Forall₂ TypedExpr.Mirrors lists arguments)
    (h : env.apply o parameters result arguments s = .ok ((e, undefined), s')) :
    e.Mirrors lists.flatten := by
  obtain ⟨hslots, hplain⟩ := mirrors_localsAll has
  obtain ⟨node, range, id, rfl, -, hkind⟩ := apply_ok h
  split at hkind
  · obtain ⟨rfl, -⟩ := hkind
    exact ⟨hslots, fun vs => ⟨trivial, hplain vs⟩⟩
  · obtain ⟨r, -, -, hnode⟩ := hkind
    unfold operatorNode at hnode
    split at hnode <;> cases hnode
    · refine ⟨?_, fun vs => ⟨trivial, (hplain vs).1, (hplain vs).2.1⟩⟩
      simpa only [TypedExpr.locals, TypedExpr.localsAll, List.append_nil] using hslots
    · refine ⟨?_, fun vs => ⟨trivial, (hplain vs).1⟩⟩
      simpa only [TypedExpr.locals, TypedExpr.localsAll, List.append_nil] using hslots

/-- **What an overload makes of operands** has the variables of the operands. -/
theorem mirrors_candidate {c : Candidate} (hos : List.Forall₂ Operand.Mirrors lists operands)
    (hlen : parameters.length = operands.length)
    (h : env.candidate budget o parameters result operands hint location s = .ok (c, s')) :
    c.expression.Mirrors lists.flatten := by
  obtain ⟨⟨arguments, b⟩, s₁, hcoerce, h⟩ := Analysis.bind_ok h
  obtain ⟨⟨applied, undefined⟩, s₂, happly, h⟩ := Analysis.bind_ok h
  have happlied := mirrors_apply (mirrors_coerceAll hos hlen hcoerce) happly
  cases hint with
  | none =>
    cases h
    exact happlied
  | some t =>
    obtain ⟨⟨e, b'⟩, s₃, hconvert, h⟩ := Analysis.bind_ok h
    cases h
    exact mirrors_convert happlied hconvert

theorem mirrors_candidates {overloads : List Overload} {viable : List Candidate}
    {failures : List Diagnostic} (hos : List.Forall₂ Operand.Mirrors lists operands)
    (h : env.candidates budget operands hint location overloads s = .ok ((viable, failures), s')) :
    ∀ c ∈ viable, c.expression.Mirrors lists.flatten := by
  induction overloads generalizing s viable failures with
  | nil =>
    cases h
    exact fun c hc => absurd hc List.not_mem_nil
  | cons o rest ih =>
    obtain ⟨⟨parameters, result⟩, t, -, h⟩ := Analysis.bind_ok h
    dsimp only at h
    split at h
    · exact ih h
    · rename_i hlen
      have hlen : parameters.length = operands.length := by simpa using hlen
      obtain ⟨tried, s₁, htried, hnext⟩ := Analysis.bind_ok h
      rcases Analysis.attempt_ok htried with ⟨c, rfl, hc⟩ | ⟨d, rfl, rfl⟩
      · obtain ⟨⟨viable', failures'⟩, s₂, hviable, hnext⟩ := Analysis.bind_ok hnext
        cases hnext
        rw [List.forall_mem_cons]
        exact ⟨mirrors_candidate hos hlen hc, ih hviable⟩
      · dsimp only at hnext
        split at hnext
        · exact (Analysis.fail_ok hnext).elim
        · obtain ⟨⟨viable', failures'⟩, s₂, hviable, hnext⟩ := Analysis.bind_ok hnext
          cases hnext
          exact ih hviable

/-- **The chosen overload** keeps the variables of the operands. -/
theorem mirrors_select {name : String} {overloads : List Overload}
    (hos : List.Forall₂ Operand.Mirrors lists operands)
    (h : env.select budget name overloads operands hint location s = .ok ((e, budget'), s')) :
    e.Mirrors lists.flatten := by
  obtain ⟨⟨viable, failures⟩, s₁, hcandidates, -⟩ := Analysis.bind_ok h
  obtain ⟨winner, hwinner, rfl, -⟩ := select_ok hcandidates h
  have hmem : winner ∈ cheapest viable := hwinner ▸ List.mem_singleton_self winner
  exact mirrors_candidates hos hcandidates winner (List.mem_filter.1 hmem).1

/-! ### Surroundings in which types have no qualifiers -/

/-- What is written as a type, and what the function returns, has no qualifiers. -/
structure Unqualified (env : Env) : Prop where
  written : ∀ type t, env.context.resolveType type = .ok t → t.flags = .none
  returned : env.returnType.flags = .none

theorem Unqualified.enter (h : env.Unqualified) : env.enter.Unqualified := by
  have htypes : ∀ name, env.enter.context.type? name = env.context.type? name := fun _ => rfl
  refine ⟨fun type t ht => h.written type t ?_, h.returned⟩
  rw [← ht, LookupContext.resolveType_congr htypes]

theorem Unqualified.resolveType {type : Source.TypeExpr} {t : Ty} (h : env.Unqualified)
    (ht : env.resolveType type s = .ok (t, s')) : t.flags = .none :=
  h.written type t (resolveType_ok ht).1

/-- **A declared variable** has the slot that was asked for, and types stay as they are. -/
theorem Unqualified.declare {name : String} {type : Ty} {isMutable : Bool}
    {range : Option ValueRange} {v : Variable} {env' : Env} (h : env.Unqualified)
    (hv : env.declare name type isMutable range location s = .ok ((v, env'), s')) :
    v.slot = ⟨name, isMutable⟩ ∧ env'.Unqualified := by
  obtain ⟨-, i, context, -, rfl, hcontext, rfl⟩ := declare_ok hv
  constructor
  · rw [Variable.slot, Ty.isMutable, Ty.addFlags, Ty.unqualified, Ty.flags_withFlags,
      Ty.flags_withFlags]
    cases isMutable <;> rfl
  · refine ⟨fun written u hu => h.written written u ?_, h.returned⟩
    rw [← hu]
    refine (LookupContext.resolveType_congr (fun name => ?_) written).symm
    obtain ⟨current, hcurrent, hc⟩ := Outcome.bind_ok hcontext
    cases hc
    obtain ⟨-, rfl⟩ := Scope.addVariable_ok hcurrent
    rfl

/-- **A variable definition** adds its slot to those of its value. -/
theorem Unqualified.mirrors_defineVariable {name : Source.Name} {isMutable : Bool}
    {st : TypedStmt} {env' : Env} (henv : env.Unqualified) (he : e.Mirrors slots)
    (h : env.defineVariable name isMutable location e s = .ok ((st, env'), s')) :
    st.Mirrors (slots ++ [⟨name.text, isMutable⟩]) ∧ env'.Unqualified := by
  obtain ⟨v, range, -, hdeclare, rfl⟩ := defineVariable_ok h
  obtain ⟨hslot, henv'⟩ := henv.declare hdeclare
  refine ⟨⟨?_, fun vs => ⟨trivial, he.plain vs⟩⟩, henv'⟩
  rw [TypedExpr.stmtLocals, List.map_append, he.slots, List.map_singleton, hslot]

theorem flags_of_declaredType {name : Source.Name} {type : Source.TypeExpr} {t : Ty}
    (henv : env.Unqualified) (h : env.declaredType name location type s = .ok (t, s')) :
    t.flags = .none :=
  henv.resolveType (declaredType_ok h)

/-! ### The recursion -/

/-- A hint has no qualifiers. -/
def UnqualifiedHint (hint : Option Ty) : Prop := ∀ t, hint = some t → t.flags = .none

theorem unqualifiedHint_none : UnqualifiedHint none := nofun

theorem unqualifiedHint_some {t : Ty} (h : t.flags = .none) : UnqualifiedHint (some t) := by
  rintro _ ⟨⟩
  exact h

mutual
/-- **An analysed expression mirrors the slots of its source.** -/
theorem Unqualified.mirrors_operand : ∀ (source : Source.Expr) {env : Env}
    {budget budget' : Budget} {hint : Option Ty} {s s' : Fresh} {o : Operand}, env.Unqualified →
    UnqualifiedHint hint → env.operand budget hint source s = .ok ((o, budget'), s') →
    o.Mirrors source.slots
  | .number n text, env, budget, _, hint, s, _, o, henv, hh, h => by
    obtain ⟨value, -, rfl, -⟩ := operand_ok h
    rfl
  | .boolean n value, env, budget, _, hint, s, _, o, henv, hh, h => by
    obtain ⟨id, -, rfl, -⟩ := operand_ok h
    exact ⟨rfl, fun _ => trivial⟩
  | .null n, env, budget, _, hint, s, _, o, henv, hh, h => by
    obtain ⟨rfl, -⟩ := operand_ok h
    rfl
  | .identifier name, env, budget, _, hint, s, _, o, henv, hh, h => by
    obtain ⟨v, -, rfl, -⟩ := operand_ok h
    exact ⟨rfl, fun _ => trivial⟩
  | .binary n token left right, env, budget, _, hint, s, _, o, henv, hh, h => by
    obtain ⟨f, l, b₁, s₁, r, b₂, s₂, e, -, hl, hr, he, rfl⟩ := operand_ok h
    have hlm := Unqualified.mirrors_operand left henv unqualifiedHint_none hl
    have hrm := Unqualified.mirrors_operand right henv unqualifiedHint_none hr
    have hselect := mirrors_select (.cons hlm (.cons hrm .nil)) he
    rw [List.flatten_cons, List.flatten_cons, List.flatten_nil, List.append_nil] at hselect
    exact hselect
  | .logicalNot n source, env, budget, _, hint, s, _, o, henv, hh, h => by
    obtain ⟨f, a, b₁, s₁, e, -, ha, he, rfl⟩ := operand_ok h
    have ham := Unqualified.mirrors_operand source henv unqualifiedHint_none ha
    have hselect := mirrors_select (.cons ham .nil) he
    rw [List.flatten_cons, List.flatten_nil, List.append_nil] at hselect
    exact hselect
  | .call n function arguments, env, budget, _, hint, s, _, o, henv, hh, h => by
    obtain ⟨f, os, b₁, s₁, e, -, hos, he, rfl⟩ := operand_ok h
    obtain ⟨lists, hlists, hall⟩ := Unqualified.mirrors_operands arguments henv hos
    have hselect := mirrors_select hall he
    rwa [hlists] at hselect
  | .cast n type source, env, budget, _, hint, s, _, o, henv, hh, h => by
    obtain ⟨destination, a, b₁, s₁, e, -, ha, he, rfl⟩ := operand_ok h
    exact mirrors_coerce (Unqualified.mirrors_operand source henv unqualifiedHint_none ha) he
  | .block body, env, budget, _, hint, s, _, o, henv, hh, h => by
    obtain ⟨e, he, rfl⟩ := operand_ok h
    exact Unqualified.mirrors_block body henv hh he
  | .ifThen n test thenArm, env, budget, _, hint, s, _, o, henv, hh, h => by
    obtain ⟨t₀, b₀, s₀, t, b₁, s₁, p, s₂, a, ht₀, ht, -, ha, rfl⟩ := operand_ok h
    have htest := mirrors_settle
      (Unqualified.mirrors_operand test henv (unqualifiedHint_some rfl) ht₀) ht
    have harm := (Unqualified.mirrors_block thenArm henv unqualifiedHint_none ha).discard
    refine ⟨?_, fun vs => ⟨trivial, htest.plain vs, harm.plain vs⟩⟩
    rw [TypedExpr.locals, List.map_append, htest.slots, harm.slots, Source.Expr.slots]
  | .ifElse n test thenArm elseArm, env, budget, _, hint, s, _, o, henv, hh, h => by
    obtain ⟨t₀, b₀, s₀, t, b₁, s₁, p, s₂, a₀, b₂, s₃, a, b₃, s₄, c₀, b₄, s₅, c, s₆, e, ht₀, ht, -,
      ha₀, ha, hc₀, hc, he, rfl⟩ := operand_ok h
    have htest := mirrors_settle
      (Unqualified.mirrors_operand test henv (unqualifiedHint_some rfl) ht₀) ht
    -- the type of both arms is a hint or has lost its qualifiers
    have htype : (hint.getD a₀.type.unqualified).flags = .none := by
      cases hint with
      | some u => exact hh u rfl
      | none => exact Ty.flags_withFlags _ _
    have hthen := mirrors_convert (Unqualified.mirrors_block thenArm henv hh ha₀) ha
    have helse := mirrors_convert
      (Unqualified.mirrors_block elseArm henv (unqualifiedHint_some htype) hc₀) hc
    obtain ⟨range, id, s₇, q, -, -, -, rfl⟩ := conditional_ok he
    refine ⟨?_, fun vs => ⟨htype, htest.plain vs, hthen.plain vs, helse.plain vs⟩⟩
    rw [TypedExpr.locals, List.map_append, List.map_append, htest.slots, hthen.slots,
      helse.slots, Source.Expr.slots]
  | .dereference n source, env, budget, _, hint, s, _, o, henv, hh, h => by
    obtain ⟨a, b₁, s₁, p, e, ha, hpointer, he, rfl⟩ := operand_ok h
    have hpm := mirrors_plain (Unqualified.mirrors_operand source henv unqualifiedHint_none ha)
      hpointer
    obtain ⟨f, u, range, -, -, rfl, -⟩ := pointee_ok he
    exact ⟨hpm.slots, fun vs => ⟨trivial, hpm.plain vs⟩⟩

/-- Analysed expressions mirror the slots of their sources, one after the other. -/
theorem Unqualified.mirrors_operands : ∀ (sources : List Source.Expr) {env : Env}
    {budget budget' : Budget} {s s' : Fresh} {os : List Operand}, env.Unqualified →
    env.operands budget sources s = .ok ((os, budget'), s') →
    ∃ lists, lists.flatten = Source.Expr.slotsAll sources ∧
      List.Forall₂ Operand.Mirrors lists os
  | [], env, budget, _, s, _, os, henv, h => by
    cases h
    exact ⟨[], rfl, .nil⟩
  | source :: sources, env, budget, _, s, _, os, henv, h => by
    obtain ⟨o, b₁, s₁, rest, ho, hrest, rfl⟩ := operands_cons_ok h
    have hom := Unqualified.mirrors_operand source henv unqualifiedHint_none ho
    obtain ⟨lists, hlists, hall⟩ := Unqualified.mirrors_operands sources henv hrest
    exact ⟨source.slots :: lists, congrArg (source.slots ++ ·) hlists, .cons hom hall⟩

/-- **An analysed block mirrors the slots of its source.** -/
theorem Unqualified.mirrors_block : ∀ (source : Source.Block) {env : Env}
    {budget budget' : Budget} {hint : Option Ty} {s s' : Fresh} {e : TypedExpr}, env.Unqualified →
    UnqualifiedHint hint → env.block budget hint source s = .ok ((e, budget'), s') →
    e.Mirrors source.slots
  | .unit n sources, env, budget, _, hint, s, _, e, henv, hh, h => by
    obtain ⟨ss, inner, hss, rfl, -⟩ := block_ok h
    obtain ⟨hssm, -⟩ := Unqualified.mirrors_statements sources henv.enter hss
    exact ⟨hssm.slots, fun vs => ⟨trivial, hssm.plain vs⟩⟩
  | .value n sources result, env, budget, _, hint, s, _, e, henv, hh, h => by
    obtain ⟨ss, inner, s₁, o, b₁, s₂, r, hss, ho, hr, rfl⟩ := block_ok h
    obtain ⟨hssm, hinner⟩ := Unqualified.mirrors_statements sources henv.enter hss
    have hrm := mirrors_settle (Unqualified.mirrors_operand result hinner hh ho) hr
    refine ⟨?_, fun vs => ⟨trivial, hssm.plain vs, hrm.plain _⟩⟩
    rw [Env.valueBlock, TypedExpr.locals, List.map_append, hssm.slots, hrm.slots,
      Source.Block.slots]

/-- **An analysed statement mirrors the slots of its source.** -/
theorem Unqualified.mirrors_statement : ∀ (source : Source.Stmt) {env env' : Env} {s s' : Fresh}
    {st : TypedStmt}, env.Unqualified → env.statement source s = .ok ((st, env'), s') →
    st.Mirrors source.slots ∧ env'.Unqualified
  | .expression source, env, env', s, _, st, henv, h => by
    obtain ⟨o, b₁, s₁, e, b₂, ho, he, rfl, rfl⟩ := statement_ok h
    have hem := (mirrors_settle
      (Unqualified.mirrors_operand source henv unqualifiedHint_none ho) he).discard
    exact ⟨⟨hem.slots, fun vs => ⟨trivial, hem.plain vs⟩⟩, henv⟩
  | .define n name isMutable (some type) source, env, env', s, _, st, henv, h => by
    obtain ⟨u, o, b₁, s₁, e, b₂, s₂, hu, ho, he, hdefine⟩ := statement_ok h
    have hh := unqualifiedHint_some (flags_of_declaredType henv hu)
    exact henv.mirrors_defineVariable
      (mirrors_settle (Unqualified.mirrors_operand source henv hh ho) he) hdefine
  | .define n name isMutable none source, env, env', s, _, st, henv, h => by
    obtain ⟨o, b₁, s₁, e, b₂, s₂, ho, he, hdefine⟩ := statement_ok h
    exact henv.mirrors_defineVariable
      (mirrors_plain (Unqualified.mirrors_operand source henv unqualifiedHint_none ho) he) hdefine
  | .assign n target source, env, env', s, _, st, henv, h => by
    obtain ⟨o, b₁, s₁, t, b₂, s₂, o', b₃, s₃, e, b₄, ho, ht, -, ho', he, rfl, rfl⟩ :=
      statement_ok h
    have htarget := mirrors_settle
      (Unqualified.mirrors_operand target henv unqualifiedHint_none ho) ht
    have hh : UnqualifiedHint (some t.type.unqualified) :=
      unqualifiedHint_some (Ty.flags_withFlags _ _)
    have hvalue := mirrors_settle (Unqualified.mirrors_operand source henv hh ho') he
    refine ⟨⟨?_, fun vs => ⟨trivial, htarget.plain vs, hvalue.plain vs⟩⟩, henv⟩
    rw [TypedExpr.stmtLocals, List.map_append, hvalue.slots, htarget.slots, Source.Stmt.slots]
  | .returnValue n source, env, env', s, _, st, henv, h => by
    obtain ⟨o, b₁, s₁, e, b₂, ho, he, rfl, rfl⟩ := statement_ok h
    have hh := unqualifiedHint_some henv.returned
    have hem := mirrors_settle (Unqualified.mirrors_operand source henv hh ho) he
    exact ⟨⟨hem.slots, fun vs => ⟨trivial, hem.plain vs⟩⟩, henv⟩
  | .returnVoid n, env, env', s, _, st, henv, h => by
    obtain ⟨-, rfl, rfl, -⟩ := statement_ok h
    exact ⟨⟨rfl, fun _ => trivial⟩, henv⟩

/-- **Analysed statements mirror the slots of their sources**, one after the other. -/
theorem Unqualified.mirrors_statements : ∀ (sources : List Source.Stmt) {env env' : Env}
    {s s' : Fresh} {ss : List TypedStmt}, env.Unqualified →
    env.statements sources s = .ok ((ss, env'), s') →
    TypedStmt.MirrorsAll (Source.Stmt.slotsAll sources) ss ∧ env'.Unqualified
  | [], env, env', s, _, ss, henv, h => by
    cases h
    exact ⟨⟨rfl, fun _ => trivial⟩, henv⟩
  | source :: sources, env, env', s, _, ss, henv, h => by
    obtain ⟨st, env₁, s₁, rest, hst, hrest, rfl⟩ := statements_cons_ok h
    obtain ⟨hstm, henv₁⟩ := Unqualified.mirrors_statement source henv hst
    obtain ⟨hssm, henv₂⟩ := Unqualified.mirrors_statements sources henv₁ hrest
    refine ⟨⟨?_, fun vs => ⟨hstm.plain vs, hssm.plain _⟩⟩, henv₂⟩
    rw [TypedExpr.stmtLocalsAll, List.map_append, hstm.slots, hssm.slots, Source.Stmt.slotsAll]
end

end Env

end RangeTyping
