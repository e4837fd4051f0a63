import Mathlib
import RangeTyping.Proofs.Analysis.Body
import RangeTyping.Proofs.Intact.Search

/-!
# Analysing a body breaks no invariant

In surroundings that belong to a setting, every step of the analysis of a body ends in a result or
in a diagnostic.  The proof goes through the recursion a second time: each step is intact because
what the steps before it returned is well made, which is what the lemmas about successful steps say.

The pieces that could break an invariant are the range rules, which are total on the ranges of
well-made expressions (`Env.operatorRange_total`, `Env.hullRange_total`), the conversions
(`Env.Proper.intact_convert`) and the choice of an overload, where among the candidates there is a
cheapest one (`Env.cheapest_ne_nil`).
-/

namespace RangeTyping

/-- Arithmetic has the type of its operands, which are integers. -/
theorem BinaryOperation.Accepts.isInteger_result {X : Setting} {op : BinaryOperation} {a : Scalar}
    (h : op.Accepts X.types a) (hop : op.comparison? = none) :
    (op.resultScalar X.types a).isInteger = true := by
  rw [resultScalar, hop]
  rcases h with ⟨ha, -⟩ | ⟨-, hnone⟩
  · exact BuiltinTypes.isInteger_of_mem ha
  · cases op <;> simp_all [comparison?, signedness?]

namespace Env

variable {X : Setting} {vs : List Variable} {s s₁ s' : Fresh} {env : Env} {budget : Budget}
  {location : Location} {e : TypedExpr} {o : Overload} {parameters : List Ty} {result : Ty}
  {arguments : List TypedExpr} {operands : List Operand} {hint : Option Ty} {destination : Ty}
  {implicit : Bool}

theorem intact_charge (b : Budget) (w : Weight) (l : Location) :
    Outcome.Intact (b.charge w l s) := by
  unfold Budget.charge
  split <;> trivial

/-! ### Literals and conversions -/

theorem firstFitting?_total {value : Nat} {scalars : List Scalar}
    (h : ∀ a ∈ scalars, a.Sized) : ∃ o, firstFitting? value scalars = .ok o := by
  induction scalars with
  | nil => exact ⟨none, rfl⟩
  | cons a rest ih =>
    rw [List.forall_mem_cons] at h
    obtain ⟨fits, hfits⟩ := Scalar.hasValue_total (fun _ => h.1) value
    rw [firstFitting?, hfits]
    cases fits with
    | true => exact ⟨some a, rfl⟩
    | false => exact ih h.2

theorem literalScalar?_total {value : Nat} (hd : X.Known destination) :
    ∃ o, literalScalar? value destination = .ok o := by
  unfold literalScalar?
  split
  · rename_i a ha
    obtain ⟨fits, hfits⟩ := Scalar.hasValue_total (Setting.sized_of_known hd ha) value
    rw [hfits]
    show ∃ o, (if (a.isInteger && fits) = true then _ else _) = _
    split <;> exact ⟨_, rfl⟩
  · exact ⟨_, rfl⟩

/-- A literal can be made of every integer that has its value. -/
theorem intact_intLiteral {value : Nat} {type : Ty} {a : Scalar} (ha : a ∈ X.types.integers)
    (hv : a.hasValue value = .ok true) : Outcome.Intact (intLiteral value type a s) := by
  have hsized := BuiltinTypes.sized_of_integer ha
  have hkind := Scalar.ne_void_of_isInteger (BuiltinTypes.isInteger_of_mem ha)
  have hholds := Scalar.holds_of_hasValue hsized hv
  obtain ⟨r, hr, -⟩ := Scalar.rangeOf_of_le hsized hkind hholds.1 le_rfl hholds.2
  refine Analysis.intact_bind Analysis.intact_freshValue fun id t _ => ?_
  exact Analysis.intact_bind (Analysis.intact_liftInternal ⟨r, hr⟩) fun _ _ _ => trivial

theorem Proper.intact_naturalNumber {value : Nat} (hp : env.Proper X vs s) :
    Outcome.Intact (env.naturalNumber budget value location s) := by
  have hfitting := @firstFitting?_total value env.types.integers fun a ha =>
    BuiltinTypes.sized_of_integer (hp.types ▸ ha)
  refine Analysis.intact_bind (Analysis.intact_liftInternal hfitting) fun fitting t hlift => ?_
  obtain ⟨hfit, -⟩ := Analysis.liftInternal_ok hlift
  cases fitting with
  | none => trivial
  | some a =>
    rw [hp.types] at hfit
    obtain ⟨ha, hv⟩ := firstFitting?_ok hfit
    refine Analysis.intact_bind (intact_charge ..) fun b t _ => ?_
    exact Analysis.intact_bind (intact_intLiteral ha hv) fun _ _ _ => trivial

theorem Proper.intact_natural {o : Operand} (hp : env.Proper X vs s) :
    Outcome.Intact (env.natural budget location o s) := by
  cases o with
  | typed e => trivial
  | number value => exact hp.intact_naturalNumber
  | null => trivial

theorem intact_castNodes (steps : List ChainStep) (e : TypedExpr) (s : Fresh) :
    Outcome.Intact (steps.foldlM castNode e s) := by
  induction steps generalizing e s with
  | nil => trivial
  | cons step rest ih =>
    rw [List.foldlM_cons]
    refine Analysis.intact_bind (Analysis.intact_drawUnless fun _ _ => trivial) ?_
    exact fun e' t _ => ih e' t

/-- **A conversion between types of the setting** is intact. -/
theorem Proper.intact_convert (hp : env.Proper X vs s) (he : X.Known e.type)
    (hd : X.Plain destination) :
    Outcome.Intact (env.convert budget destination implicit location e s) := by
  have hresolve : Outcome.Intact (CastQuery.resolve env.structs env.context.castGraph
      ⟨e.type, e.range, destination, implicit, budget.remaining⟩) := by
    rw [hp.structs]
    exact Setting.intact_resolve hp.carries he hd.known
  refine Analysis.intact_bind (Analysis.intact_lift (.mapError _ hresolve)) fun chain t _ => ?_
  refine Analysis.intact_bind (intact_charge ..) fun b t _ => ?_
  exact Analysis.intact_bind (intact_castNodes ..) fun _ _ _ => trivial

theorem Proper.intact_coerce {o : Operand} (hp : env.Proper X vs s) (ho : o.Made X vs)
    (hd : X.Plain destination) :
    Outcome.Intact (env.coerce budget destination implicit location o s) := by
  cases o with
  | typed e => exact hp.intact_convert (Setting.Made.known ho) hd
  | number value =>
    refine Analysis.intact_bind (Analysis.intact_liftInternal (literalScalar?_total hd.known))
      fun literal t hlift => ?_
    obtain ⟨hl, rfl⟩ := Analysis.liftInternal_ok hlift
    cases literal with
    | some a =>
      obtain ⟨rfl, ha, hv⟩ := literalScalar?_ok hd hl
      refine Analysis.intact_bind (intact_charge ..) fun b t _ => ?_
      exact Analysis.intact_bind (intact_intLiteral ha hv) fun _ _ _ => trivial
    | none =>
      refine Analysis.intact_bind hp.intact_naturalNumber fun p t hp₁ => ?_
      have hnatural := hp.naturalNumber hp₁
      exact (hp.mono hnatural.grew).intact_convert hnatural.made.known hd
  | null =>
    rw [Env.coerce]
    split <;> trivial

theorem Proper.intact_settle {o : Operand} (hp : env.Proper X vs s) (ho : o.Made X vs)
    (hh : PlainHint X hint) : Outcome.Intact (env.settle budget hint location o s) := by
  cases hint with
  | some t => exact hp.intact_coerce ho (hh t rfl)
  | none => exact hp.intact_natural

theorem Proper.intact_plain {o : Operand} (hp : env.Proper X vs s) (ho : o.Made X vs) :
    Outcome.Intact (env.plain budget location o s) := by
  refine Analysis.intact_bind hp.intact_natural fun p t hp₁ => ?_
  have hnatural := hp.natural ho hp₁
  exact (hp.mono hnatural.grew).intact_convert hnatural.made.known
    (Setting.plain_unqualified hnatural.made.known)

/-! ### Overloads -/

theorem Proper.intact_coerceAll (hp : env.Proper X vs s) (hos : ∀ o ∈ operands, o.Made X vs)
    (hps : ∀ t ∈ parameters, X.Plain t) :
    Outcome.Intact (env.coerceAll location budget operands parameters s) := by
  induction operands generalizing parameters budget s with
  | nil => trivial
  | cons o os ih =>
    cases parameters with
    | nil => trivial
    | cons t ts =>
      rw [List.forall_mem_cons] at hos hps
      refine Analysis.intact_bind (hp.intact_coerce hos.1 hps.1) fun p s₁ hp₁ => ?_
      have hext := (hp.coerce hos.1 hps.1 hp₁).1
      refine Analysis.intact_bind (ih (hp.mono hext.grew) hos.2 hps.2) fun _ _ _ => trivial

/-- The ranges of arguments that have one. -/
theorem operandRanges_eq {operator : String} {ranges : List ValueRange}
    (hlen : arguments.length = parameters.length)
    (hranges : arguments.map TypedExpr.range = ranges.map some) :
    env.operandRanges operator arguments parameters = .ok ranges := by
  induction arguments generalizing parameters ranges with
  | nil =>
    cases List.map_eq_nil_iff.1 hranges.symm
    rfl
  | cons e es ih =>
    cases parameters with
    | nil => cases hlen
    | cons t ts =>
      cases ranges with
      | nil => cases hranges
      | cons r rs =>
        rw [List.map_cons, List.map_cons, List.cons.injEq] at hranges
        rw [operandRanges, hranges.1]
        show (do return r :: (← env.operandRanges operator es ts)) = _
        rw [ih (Nat.succ.inj hlen) hranges.2]
        rfl

/-- An operator whose range rule has a result has a range. -/
theorem operatorRange_total {op : BuiltinOperator} {operator : String} {a : Scalar}
    {ranges : List ValueRange} (hlen : arguments.length = parameters.length)
    (hranges : arguments.map TypedExpr.range = ranges.map some)
    (hyields : a.Yields (op.range a ranges)) :
    ∃ p, env.operatorRange operator op (.ofScalar a) arguments parameters = .ok p := by
  unfold operatorRange
  show ∃ p, (env.operandRanges operator arguments parameters >>= _) = _
  rw [operandRanges_eq hlen hranges]
  simp only [bind, Except.bind]
  generalize op.range a ranges = outcome at hyields
  match outcome, hyields with
  | .ok r, _ => exact ⟨_, rfl⟩
  | .error (.error u), _ => exact ⟨_, rfl⟩
  | .error (.internal e), h => exact h.elim

/-- **An offered overload can be applied** to arguments of its parameter types. -/
theorem intact_apply (ho : X.Offers o) (hsig : o.type = .arrow parameters result)
    (hresult : X.Plain result) (hargs : ∀ e ∈ arguments, X.Made vs e)
    (htypes : arguments.map TypedExpr.type = parameters) :
    Outcome.Intact (env.apply o parameters result arguments s) := by
  have hlen : arguments.length = parameters.length := by rw [← htypes, List.length_map]
  unfold Setting.Offers at ho
  unfold Env.apply
  split at ho <;> rename_i hk <;> rw [hk]
  · -- a function of the module: its result has the full range
    refine Analysis.intact_bind (Analysis.intact_liftInternal hresult.known.fullRange_total)
      fun range t _ => ?_
    exact Analysis.intact_drawUnless fun _ _ => trivial
  · -- an operator on integers: the ranges of both operands are known
    rename_i op
    obtain ⟨a, hop, htype⟩ := ho
    rw [hsig] at htype
    cases htype
    obtain ⟨l, r, rfl⟩ := List.length_eq_two.1 hlen
    simp only [List.map_cons, List.map_nil, List.cons.injEq, and_true] at htypes
    obtain ⟨p, hp, hpa⟩ := range_of_made (hargs l (by simp)) htypes.1 hop.ne_void
    obtain ⟨q, hq, hqa⟩ := range_of_made (hargs r (by simp)) htypes.2 hop.ne_void
    have hyields := BinaryOperation.yields_range
      (BuiltinTypes.sized_of_mem hop.result_mem_all hop.result_ne_void)
      (BinaryOperation.Accepts.isInteger_result hop) (hop.fitsResult hpa hqa)
    have hrange := @operatorRange_total env _ _ (.binary op) o.name _ [p, q] hlen
      (by simp [hp, hq]) hyields
    refine Analysis.intact_bind (Analysis.intact_liftInternal hrange) fun _ _ _ => ?_
    exact Analysis.intact_drawUnless fun _ _ => trivial
  · -- the negation of a boolean
    rw [hsig] at ho
    cases ho
    obtain ⟨a, rfl⟩ := List.length_eq_one_iff.1 hlen
    simp only [List.map_cons, List.map_nil, List.cons.injEq, and_true] at htypes
    obtain ⟨p, hp, hpa⟩ := range_of_made (hargs a (by simp)) htypes ScalarKind.noConfusion
    obtain ⟨q, hq⟩ := ValueRange.logicalNot_total rfl hpa
    have hyields : X.types.bool.Yields (BuiltinOperator.logicalNot.range X.types.bool [p]) := by
      show X.types.bool.Yields (Outcome.ofInternal p.logicalNot)
      rw [hq]
      exact (ValueRange.logicalNot_ok rfl hpa hq).1
    have hrange := @operatorRange_total env _ _ .logicalNot o.name _ [p] hlen (by simp [hp]) hyields
    exact Analysis.intact_bind (Analysis.intact_liftInternal hrange) fun _ _ _ => trivial

/-- What an applied overload returns has its result type. -/
theorem type_apply {undefined : Option UndefinedBehavior}
    (h : env.apply o parameters result arguments s = .ok ((e, undefined), s')) :
    e.type = result := by
  obtain ⟨node, range, id, rfl, -, hkind⟩ := apply_ok h
  split at hkind
  · obtain ⟨rfl, -⟩ := hkind
    rfl
  · rename_i op _
    obtain ⟨r, -, -, hnode⟩ := hkind
    unfold operatorNode at hnode
    split at hnode <;> cases hnode <;> rfl

theorem Proper.intact_candidate (hp : env.Proper X vs s) (ho : X.Offers o)
    (hsig : o.signature env.structs = .ok (parameters, result))
    (hos : ∀ o ∈ operands, o.Made X vs) (hlen : parameters.length = operands.length)
    (hh : PlainHint X hint) :
    Outcome.Intact (env.candidate budget o parameters result operands hint location s) := by
  obtain ⟨htype, hps, hresult⟩ := signature_of_offers ho hsig
  refine Analysis.intact_bind (hp.intact_coerceAll hos hps) fun p s₁ hcoerce => ?_
  obtain ⟨hargs, htypes, extra, -, hdrew⟩ := hp.coerceAll hos hps hlen hcoerce
  refine Analysis.intact_bind (intact_apply ho htype hresult hargs htypes) fun q s₂ happly => ?_
  cases hint with
  | none => trivial
  | some t =>
    have hp₂ := hp.mono (hdrew.grew.trans (grew_apply happly))
    have hknown : X.Known q.1.type := by
      rw [type_apply happly]
      exact hresult.known
    exact Analysis.intact_bind (hp₂.intact_convert hknown (hh t rfl)) fun _ _ _ => trivial

theorem signature_total (ho : X.Offers o) (S : StructStore) :
    ∃ p, o.signature S = .ok p := by
  unfold Setting.Offers at ho
  have harrow : ∀ as r, o.type = .arrow as r → ∃ p, o.signature S = .ok p := by
    intro as r htype
    rw [Overload.signature, htype]
    exact ⟨_, rfl⟩
  split at ho
  · obtain ⟨as, r, htype, -⟩ := ho
    exact harrow _ _ htype
  · obtain ⟨a, -, htype⟩ := ho
    exact harrow _ _ htype
  · exact harrow _ _ ho

theorem Proper.intact_candidates {overloads : List Overload} (hp : env.Proper X vs s)
    (ho : ∀ o ∈ overloads, X.Offers o) (hos : ∀ o ∈ operands, o.Made X vs)
    (hh : PlainHint X hint) :
    Outcome.Intact (env.candidates budget operands hint location overloads s) := by
  induction overloads generalizing s with
  | nil => trivial
  | cons o rest ih =>
    rw [List.forall_mem_cons] at ho
    refine Analysis.intact_bind (Analysis.intact_liftInternal (signature_total ho.1 _))
      fun p t hlift => ?_
    obtain ⟨hsig, rfl⟩ := Analysis.liftInternal_ok hlift
    dsimp only
    split
    · exact ih hp ho.2
    · rename_i hlen
      have hlen : p.1.length = operands.length := by simpa using hlen
      refine Analysis.intact_bind (Analysis.intact_attempt (hp.intact_candidate ho.1 hsig hos hlen hh))
        fun tried s₁ htried => ?_
      rcases Analysis.attempt_ok htried with ⟨c, rfl, hc⟩ | ⟨d, rfl, rfl⟩
      · obtain ⟨hgrew, -⟩ := hp.candidate ho.1 hsig hos hlen hh hc
        exact Analysis.intact_bind (ih (hp.mono hgrew) ho.2) fun _ _ _ => trivial
      · dsimp only
        split
        · trivial
        · exact Analysis.intact_bind (ih hp ho.2) fun _ _ _ => trivial

/-- **Among candidates there is a cheapest one.** -/
theorem cheapest_ne_nil {viable : List Candidate} (h : viable ≠ []) : cheapest viable ≠ [] := by
  obtain ⟨c, hc⟩ := Option.ne_none_iff_exists'.1 fun hnone => h ((List.argmin_eq_none
    (f := Candidate.weight)).1 hnone)
  have hmin : c ∈ cheapest viable := by
    refine List.mem_filter.2 ⟨List.argmin_mem hc, List.all_eq_true.2 fun d hd => ?_⟩
    exact decide_eq_true (List.le_of_mem_argmin hd hc)
  exact List.ne_nil_of_mem hmin

/-- **Choosing an overload** is intact. -/
theorem Proper.intact_select {name : String} {overloads : List Overload} (hp : env.Proper X vs s)
    (ho : ∀ o ∈ overloads, X.Offers o) (hos : ∀ o ∈ operands, o.Made X vs)
    (hh : PlainHint X hint) :
    Outcome.Intact (env.select budget name overloads operands hint location s) := by
  refine Analysis.intact_bind (hp.intact_candidates ho hos hh) fun p t _ => ?_
  obtain ⟨viable, failures⟩ := p
  cases viable with
  | nil =>
    rcases failures with _ | ⟨d, _ | _⟩ <;> trivial
  | cons c rest =>
    simp only
    rcases hcheapest : cheapest (c :: rest) with _ | ⟨winner, _ | _⟩
    · exact absurd hcheapest (cheapest_ne_nil (List.cons_ne_nil c rest))
    · refine Analysis.intact_bind (intact_charge ..) fun b t _ => ?_
      cases winner.undefined <;> trivial
    · trivial

/-! ### Leaves and nodes -/

theorem intact_overloads (env : Env) (name : String) (location : Location) (s : Fresh) :
    Outcome.Intact (env.overloads name location s) := by
  unfold Env.overloads
  rcases env.context.object? name with _ | ⟨_ | _⟩ <;> trivial

theorem intact_resolveType (env : Env) (written : Source.TypeExpr) (s : Fresh) :
    Outcome.Intact (env.resolveType written s) := by
  unfold Env.resolveType
  split <;> trivial

theorem intact_identifier (env : Env) (name : Source.Name) (s : Fresh) :
    Outcome.Intact (env.identifier name s) := by
  unfold Env.identifier
  rcases env.context.object? name.text with _ | ⟨_ | _⟩ <;> trivial

theorem intact_declaredType (env : Env) (name : Source.Name) (location : Location)
    (type : Source.TypeExpr) (s : Fresh) :
    Outcome.Intact (env.declaredType name location type s) := by
  refine Analysis.intact_bind (intact_resolveType ..) fun t _ _ => ?_
  dsimp only
  split <;> trivial

theorem intact_checkAssignable (target : TypedExpr) (location : Location) (s : Fresh) :
    Outcome.Intact (checkAssignable target location s) := by
  unfold checkAssignable
  split <;> trivial

theorem intact_returnNothing (env : Env) (location : Location) (s : Fresh) :
    Outcome.Intact (env.returnNothing location s) := by
  unfold Env.returnNothing
  split <;> trivial

theorem intact_pointee (he : X.Plain e.type) : Outcome.Intact (pointee location e s) := by
  unfold pointee
  cases htype : e.type with
  | pointer f t =>
    rw [htype] at he
    have ht : X.Known t := he.known.1
    exact Analysis.intact_bind (Analysis.intact_liftInternal ht.fullRange_total) fun _ _ _ => trivial
  | scalar | function | array | struct => trivial

/-- Ranges of one type have a hull, or one of them is not known. -/
theorem hullRange_total {type : Ty} {p q : Option ValueRange} (hp : type.Admits p)
    (hq : type.Admits q) : ∃ r, hullRange p q = .ok r := by
  cases p with
  | none => exact ⟨none, rfl⟩
  | some p =>
    cases q with
    | none => exact ⟨none, rfl⟩
    | some q =>
      obtain ⟨a, ha, hv, hpa⟩ := hp.of
      obtain ⟨q', hq', hqa⟩ := (Ty.admits_some ha hv).1 hq
      cases hq'
      obtain ⟨r, hr⟩ := ValueRange.hull_total hpa hqa
      rw [hullRange, hr]
      exact ⟨some r, rfl⟩

theorem intact_conditional {type : Ty} {t a b : TypedExpr} {p : PointId} (ha : X.Made vs a)
    (hat : a.type = type) (hb : X.Made vs b) (hbt : b.type = type) :
    Outcome.Intact (conditional type t a b p s) := by
  have hrange := hullRange_total (hat ▸ ha.admits) (hbt ▸ hb.admits)
  refine Analysis.intact_bind (Analysis.intact_liftInternal hrange) fun r t _ => ?_
  exact Analysis.intact_drawUnless fun _ _ => trivial

theorem intact_declare (env : Env) (name : String) (type : Ty) (isMutable : Bool)
    (range : Option ValueRange) (location : Location) (s : Fresh) :
    Outcome.Intact (env.declare name type isMutable range location s) := by
  unfold Env.declare
  dsimp only
  split
  · trivial
  · refine Analysis.intact_bind Analysis.intact_freshValue fun id t _ => ?_
    cases env.context.addVariable _ <;> trivial

theorem intact_defineVariable {name : Source.Name} {isMutable : Bool} (he : X.Known e.type) :
    Outcome.Intact (env.defineVariable name isMutable location e s) := by
  have hrest : ∀ range s, Outcome.Intact ((env.declare name.text e.type isMutable range location >>=
      fun x => (pure (.define x.1 e, x.2) : Analysis (TypedStmt × Env))) s) := fun range s =>
    Analysis.intact_bind (intact_declare ..) fun _ _ _ => trivial
  unfold Env.defineVariable
  cases isMutable with
  | true =>
    exact Analysis.intact_bind (Analysis.intact_liftInternal he.fullRange_total)
      fun range t _ => hrest range t
  | false => exact hrest e.range s

/-! ### The recursion -/

mutual
/-- **Analysing an expression** is intact. -/
theorem Proper.intact_operand : ∀ (source : Source.Expr) {env : Env} {budget : Budget}
    {hint : Option Ty} {vs : List Variable} {s : Fresh}, env.Proper X vs s → PlainHint X hint →
    Outcome.Intact (env.operand budget hint source s)
  | .number n text, env, budget, hint, vs, s, hp, hh => by
    rw [Env.operand]
    cases Source.number? text <;> trivial
  | .boolean _ value, env, budget, hint, vs, s, hp, hh => trivial
  | .null _, env, budget, hint, vs, s, hp, hh => trivial
  | .identifier name, env, budget, hint, vs, s, hp, hh =>
    Analysis.intact_bind (intact_identifier ..) fun _ _ _ => trivial
  | .binary n token left right, env, budget, hint, vs, s, hp, hh => by
    refine Analysis.intact_bind (intact_overloads ..) fun overloads s₀ hoverloads => ?_
    obtain ⟨hoffers, rfl⟩ := hp.overloadsOf hoverloads
    refine Analysis.intact_bind (Proper.intact_operand left hp (plainHint_none X)) fun l s₁ hl => ?_
    have hlb := Proper.operand left hp (plainHint_none X) hl
    have hp₁ := hp.mono hlb.drew.grew
    refine Analysis.intact_bind (Proper.intact_operand right hp₁ (plainHint_none X))
      fun r s₂ hr => ?_
    have hrb := Proper.operand right hp₁ (plainHint_none X) hr
    have hp₂ := hp₁.mono hrb.drew.grew
    refine Analysis.intact_bind (hp₂.intact_select hoffers ?_ hh) fun _ _ _ => trivial
    simp [hlb.made, hrb.made]
  | .logicalNot n source, env, budget, hint, vs, s, hp, hh => by
    refine Analysis.intact_bind (intact_overloads ..) fun overloads s₀ hoverloads => ?_
    obtain ⟨hoffers, rfl⟩ := hp.overloadsOf hoverloads
    refine Analysis.intact_bind (Proper.intact_operand source hp (plainHint_none X))
      fun a s₁ ha => ?_
    have hab := Proper.operand source hp (plainHint_none X) ha
    refine Analysis.intact_bind ((hp.mono hab.drew.grew).intact_select hoffers ?_ hh)
      fun _ _ _ => trivial
    simp [hab.made]
  | .call n function arguments, env, budget, hint, vs, s, hp, hh => by
    refine Analysis.intact_bind (intact_overloads ..) fun overloads s₀ hoverloads => ?_
    obtain ⟨hoffers, rfl⟩ := hp.overloadsOf hoverloads
    refine Analysis.intact_bind (Proper.intact_operands arguments hp) fun os s₁ hos => ?_
    obtain ⟨hmade, hdrew⟩ := Proper.operands arguments hp hos
    exact Analysis.intact_bind ((hp.mono hdrew.grew).intact_select hoffers hmade hh)
      fun _ _ _ => trivial
  | .cast n type source, env, budget, hint, vs, s, hp, hh => by
    refine Analysis.intact_bind (intact_resolveType ..) fun destination s₀ htype => ?_
    obtain ⟨hplain, rfl⟩ := hp.resolveType htype
    refine Analysis.intact_bind (Proper.intact_operand source hp (plainHint_none X))
      fun a s₁ ha => ?_
    have hab := Proper.operand source hp (plainHint_none X) ha
    exact Analysis.intact_bind ((hp.mono hab.drew.grew).intact_coerce hab.made hplain)
      fun _ _ _ => trivial
  | .block body, env, budget, hint, vs, s, hp, hh =>
    Analysis.intact_bind (Proper.intact_block body hp hh) fun _ _ _ => trivial
  | .ifThen n test thenArm, env, budget, hint, vs, s, hp, hh => by
    have hbool := hp.plainHint_bool
    refine Analysis.intact_bind (Proper.intact_operand test hp hbool) fun t₀ s₀ ht₀ => ?_
    have htest := Proper.operand test hp hbool ht₀
    refine Analysis.intact_bind ((hp.mono htest.drew.grew).intact_settle htest.made hbool)
      fun t s₁ ht => ?_
    obtain ⟨htb, -⟩ := hp.test htest ht
    refine Analysis.intact_bind Analysis.intact_freshPoint fun p s₂ hpoint => ?_
    have hp₂ := hp.mono (htb.drew.grew.trans (.freshPoint hpoint))
    exact Analysis.intact_bind (Proper.intact_block thenArm hp₂ (plainHint_none X))
      fun _ _ _ => trivial
  | .ifElse n test thenArm elseArm, env, budget, hint, vs, s, hp, hh => by
    have hbool := hp.plainHint_bool
    refine Analysis.intact_bind (Proper.intact_operand test hp hbool) fun t₀ s₀ ht₀ => ?_
    have htest := Proper.operand test hp hbool ht₀
    refine Analysis.intact_bind ((hp.mono htest.drew.grew).intact_settle htest.made hbool)
      fun t s₁ ht => ?_
    obtain ⟨htb, -⟩ := hp.test htest ht
    refine Analysis.intact_bind Analysis.intact_freshPoint fun p s₂ hpoint => ?_
    have hp₂ := hp.mono (htb.drew.grew.trans (.freshPoint hpoint))
    refine Analysis.intact_bind (Proper.intact_block thenArm hp₂ hh) fun a₀ s₃ ha₀ => ?_
    have hab₀ := (Proper.block thenArm hp₂ hh ha₀).1
    -- both arms are brought to this type
    have hplain := hh.plain_getD hab₀.made.known
    have hp₃ := hp₂.mono hab₀.drew.grew
    refine Analysis.intact_bind (hp₃.intact_convert hab₀.made.known hplain) fun a s₄ ha => ?_
    obtain ⟨haext, hat⟩ := hp₃.convert hab₀.made hplain ha
    have hp₄ := hp₃.mono haext.grew
    refine Analysis.intact_bind (Proper.intact_block elseArm hp₄ (plainHint_some hplain))
      fun c₀ s₅ hc₀ => ?_
    have hcb₀ := (Proper.block elseArm hp₄ (plainHint_some hplain) hc₀).1
    have hp₅ := hp₄.mono hcb₀.drew.grew
    refine Analysis.intact_bind (hp₅.intact_convert hcb₀.made.known hplain) fun c s₆ hc => ?_
    obtain ⟨hcext, hct⟩ := hp₅.convert hcb₀.made hplain hc
    exact Analysis.intact_bind (intact_conditional haext.made hat hcext.made hct)
      fun _ _ _ => trivial
  | .dereference n source, env, budget, hint, vs, s, hp, hh => by
    refine Analysis.intact_bind (Proper.intact_operand source hp (plainHint_none X))
      fun a s₁ ha => ?_
    have hab := Proper.operand source hp (plainHint_none X) ha
    have hp₁ := hp.mono hab.drew.grew
    refine Analysis.intact_bind (hp₁.intact_plain hab.made) fun p s₂ hpointer => ?_
    obtain ⟨-, hplain⟩ := hp₁.plain hab.made hpointer
    exact Analysis.intact_bind (intact_pointee hplain) fun _ _ _ => trivial

/-- Analysing several expressions is intact. -/
theorem Proper.intact_operands : ∀ (sources : List Source.Expr) {env : Env} {budget : Budget}
    {vs : List Variable} {s : Fresh}, env.Proper X vs s →
    Outcome.Intact (env.operands budget sources s)
  | [], env, budget, vs, s, hp => trivial
  | source :: sources, env, budget, vs, s, hp => by
    refine Analysis.intact_bind (Proper.intact_operand source hp (plainHint_none X))
      fun o s₁ ho => ?_
    have hob := Proper.operand source hp (plainHint_none X) ho
    exact Analysis.intact_bind (Proper.intact_operands sources (hp.mono hob.drew.grew))
      fun _ _ _ => trivial

/-- **Analysing a block** is intact. -/
theorem Proper.intact_block : ∀ (source : Source.Block) {env : Env} {budget : Budget}
    {hint : Option Ty} {vs : List Variable} {s : Fresh}, env.Proper X vs s → PlainHint X hint →
    Outcome.Intact (env.block budget hint source s)
  | .unit n sources, env, budget, hint, vs, s, hp, hh =>
    Analysis.intact_bind (Proper.intact_statements sources hp.enter) fun _ _ _ => trivial
  | .value n sources result, env, budget, hint, vs, s, hp, hh => by
    refine Analysis.intact_bind (Proper.intact_statements sources hp.enter) fun inner s₁ hss => ?_
    obtain ⟨-, -, hinner⟩ := Proper.statements sources hp.enter hss
    refine Analysis.intact_bind (Proper.intact_operand result hinner hh) fun o s₂ ho => ?_
    have hob := Proper.operand result hinner hh ho
    exact Analysis.intact_bind ((hinner.mono hob.drew.grew).intact_settle hob.made hh)
      fun _ _ _ => trivial

/-- **Analysing a statement** is intact. -/
theorem Proper.intact_statement : ∀ (source : Source.Stmt) {env : Env} {vs : List Variable}
    {s : Fresh}, env.Proper X vs s → Outcome.Intact (env.statement source s)
  | .expression source, env, vs, s, hp => by
    refine Analysis.intact_bind (Proper.intact_operand source hp (plainHint_none X))
      fun o s₁ ho => ?_
    have hob := Proper.operand source hp (plainHint_none X) ho
    exact Analysis.intact_bind
      ((hp.mono hob.drew.grew).intact_settle hob.made (plainHint_none X)) fun _ _ _ => trivial
  | .define n name isMutable (some type) source, env, vs, s, hp => by
    refine Analysis.intact_bind (intact_declaredType ..) fun u s₀ hu => ?_
    obtain ⟨hplain, rfl⟩ := hp.declaredType hu
    have hh := plainHint_some hplain
    refine Analysis.intact_bind (Proper.intact_operand source hp hh) fun o s₁ ho => ?_
    have hob := Proper.operand source hp hh ho
    refine Analysis.intact_bind ((hp.mono hob.drew.grew).intact_settle hob.made hh)
      fun e s₂ he => ?_
    exact intact_defineVariable (hp.settled hob hh he).1.made.known
  | .define n name isMutable none source, env, vs, s, hp => by
    refine Analysis.intact_bind (Proper.intact_operand source hp (plainHint_none X))
      fun o s₁ ho => ?_
    have hob := Proper.operand source hp (plainHint_none X) ho
    have hp₁ := hp.mono hob.drew.grew
    refine Analysis.intact_bind (hp₁.intact_plain hob.made) fun e s₂ he => ?_
    exact intact_defineVariable (hp₁.plain hob.made he).2.known
  | .assign n target source, env, vs, s, hp => by
    refine Analysis.intact_bind (Proper.intact_operand target hp (plainHint_none X))
      fun o s₁ ho => ?_
    have hob := Proper.operand target hp (plainHint_none X) ho
    refine Analysis.intact_bind
      ((hp.mono hob.drew.grew).intact_settle hob.made (plainHint_none X)) fun t s₂ ht => ?_
    obtain ⟨htb, -⟩ := hp.settled hob (plainHint_none X) ht
    refine Analysis.intact_bind (intact_checkAssignable ..) fun u s₂' hassignable => ?_
    obtain ⟨-, rfl⟩ := checkAssignable_ok hassignable
    have hh := plainHint_some (Setting.plain_unqualified htb.made.known)
    have hp₂ := hp.mono htb.drew.grew
    refine Analysis.intact_bind (Proper.intact_operand source hp₂ hh) fun o' s₃ ho' => ?_
    have hob' := Proper.operand source hp₂ hh ho'
    exact Analysis.intact_bind ((hp₂.mono hob'.drew.grew).intact_settle hob'.made hh)
      fun _ _ _ => trivial
  | .returnValue n source, env, vs, s, hp => by
    have hh := hp.plainHint_return
    refine Analysis.intact_bind (Proper.intact_operand source hp hh) fun o s₁ ho => ?_
    have hob := Proper.operand source hp hh ho
    exact Analysis.intact_bind ((hp.mono hob.drew.grew).intact_settle hob.made hh)
      fun _ _ _ => trivial
  | .returnVoid n, env, vs, s, hp =>
    Analysis.intact_bind (intact_returnNothing ..) fun _ _ _ => trivial

/-- Analysing statements in order is intact. -/
theorem Proper.intact_statements : ∀ (sources : List Source.Stmt) {env : Env}
    {vs : List Variable} {s : Fresh}, env.Proper X vs s →
    Outcome.Intact (env.statements sources s)
  | [], env, vs, s, hp => trivial
  | source :: sources, env, vs, s, hp => by
    refine Analysis.intact_bind (Proper.intact_statement source hp) fun st s₁ hst => ?_
    have hbuilt := Proper.statement source hp hst
    exact Analysis.intact_bind (Proper.intact_statements sources hbuilt.proper)
      fun _ _ _ => trivial
end

end Env

end RangeTyping
