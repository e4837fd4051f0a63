import Mathlib
import RangeTyping.Proofs.Isolation.Structs
import RangeTyping.Proofs.Renaming.Overload

/-!
# Steps after a past

A step of an analysis that starts with shifted numbers goes the same way and ends with shifted
numbers, or with the same diagnostic (`Past.Repeats`).  Sequences of such steps are such steps
(`Past.Repeats.bind`), and the steps that bodies are made of are: conversions (`Past.convert`) and
the choice of an overload (`Past.select`).

All that has to be known about the surroundings is that conversions are those of the builtins.
-/

namespace RangeTyping

namespace Past

variable (p : Past)

/-- The surroundings after the past. -/
def env (env : Env) : Env :=
  { env with
    structs := p.store env.structs
    returnType := env.returnType.renumber p.struct
    context := p.context env.context }

/-- An operand after the past. -/
def operandOf : Operand → Operand
  | .typed e => .typed (p.numbers.expr e)
  | .number value => .number value
  | .null => .null

/-- A usable overload after the past. -/
def candidateOf (c : Candidate) : Candidate :=
  { c with expression := p.numbers.expr c.expression }

/-! ### Steps -/

/-- **A step that goes the same way after the past.** -/
def Repeats {α β : Type} (R : α → β → Prop) (x : Analysis α) (y : Analysis β) : Prop :=
  ∀ s : Fresh, 0 < s.nextValue →
    p.Follows (fun a b => R a.1 b.1 ∧ b.2 = p.fresh a.2 ∧ 0 < a.2.nextValue) (x s) (y (p.fresh s))

/-- The second is made of the first. -/
def Maps {α β : Type} (f : α → β) (a : α) (b : β) : Prop := b = f a

/-- The second is made of the first, and as much is left to spend. -/
def MapsSpent {α β : Type} (f : α → β) (a : α × Budget) (b : β × Budget) : Prop :=
  b = (f a.1, a.2)

variable {p}

namespace Repeats

variable {α β γ ζ : Type} {R : α → β → Prop} {Q : γ → ζ → Prop} {f : α → β}

/-- **Sequences go the same way if their steps do.** -/
theorem bind {x : Analysis α} {y : Analysis β} {g : α → Analysis γ} {g' : β → Analysis ζ}
    (h : p.Repeats R x y) (hg : ∀ a b, R a b → p.Repeats Q (g a) (g' b)) :
    p.Repeats Q (x >>= g) (y >>= g') := by
  intro s hs
  refine Outcome.Agrees.bind (h s hs) ?_
  rintro ⟨a, s'⟩ ⟨b, t'⟩ - - ⟨hR, ht, hs'⟩
  obtain rfl : t' = p.fresh s' := ht
  exact hg a b hR s' hs'

theorem bindMap {x : Analysis α} {y : Analysis β} {g : α → Analysis γ} {g' : β → Analysis ζ}
    (h : p.Repeats (Maps f) x y) (hg : ∀ a, p.Repeats Q (g a) (g' (f a))) :
    p.Repeats Q (x >>= g) (y >>= g') :=
  h.bind fun a _ hab => hab ▸ hg a

/-- Steps that spend something go on with the same budget. -/
theorem spend {x : Analysis (α × Budget)} {y : Analysis (β × Budget)}
    {g : α × Budget → Analysis γ} {g' : β × Budget → Analysis ζ} (h : p.Repeats (MapsSpent f) x y)
    (hg : ∀ a b, p.Repeats Q (g (a, b)) (g' (f a, b))) : p.Repeats Q (x >>= g) (y >>= g') :=
  h.bind fun a _ hab => hab ▸ hg a.1 a.2

theorem pure {a : α} {b : β} (h : R a b) :
    p.Repeats R (Pure.pure a : Analysis α) (Pure.pure b : Analysis β) :=
  fun _ hs => .ok ⟨h, rfl, hs⟩

theorem fail {c c' : Cause} {l : Location} (h : c' = c.renumber p.struct) :
    p.Repeats R (.fail c l : Analysis α) (.fail c' l : Analysis β) := by
  subst h
  exact fun _ _ => Outcome.Agrees.fail rfl

theorem broken {i j : InternalError} :
    p.Repeats R (.broken i : Analysis α) (.broken j : Analysis β) :=
  fun _ _ => .internal i j

theorem liftInternal (x : Except InternalError α) :
    p.Repeats (Maps id) (liftM x : Analysis α) (liftM x : Analysis α) := by
  intro s hs
  cases x with
  | ok a => exact .ok ⟨rfl, rfl, hs⟩
  | error e => exact .internal e e

theorem lift {x : Outcome Diagnostic α} {y : Outcome Diagnostic β} (h : p.Follows R x y) :
    p.Repeats R (liftM x : Analysis α) (liftM y : Analysis β) := by
  intro s hs
  cases h with
  | ok h => exact .ok ⟨h, rfl, hs⟩
  | fail h => exact .fail h
  | internal i j => exact .internal i j

/-- **An identity that is drawn after the past.** -/
theorem freshValue : p.Repeats (Maps p.value) .freshValue .freshValue := by
  intro s hs
  refine .ok ⟨?_, ?_, Nat.succ_pos _⟩
  · have hread : (⟨s.nextValue⟩ : ValueId).isUnread = false := by
      simpa [ValueId.isUnread, ValueId.unread] using hs.ne'
    show _ = p.value ⟨s.nextValue⟩
    rw [value, hread]
    rfl
  · rfl

theorem freshPoint : p.Repeats (Maps p.point) .freshPoint .freshPoint :=
  fun _ hs => .ok ⟨rfl, rfl, hs⟩

/-- An identity that is drawn, or known already. -/
theorem drawUnless {c : Prop} [Decidable c] {i : ValueId} {g : ValueId → Analysis γ}
    {g' : ValueId → Analysis ζ} (hg : ∀ v, p.Repeats Q (g v) (g' (p.value v))) :
    p.Repeats Q (if c then (Pure.pure i >>= g) else (Analysis.freshValue >>= g))
      (if c then (Pure.pure (p.value i) >>= g') else (Analysis.freshValue >>= g')) := by
  by_cases h : c
  · rw [if_pos h, if_pos h]
    exact hg i
  · rw [if_neg h, if_neg h]
    exact freshValue.bindMap hg

end Repeats

theorem charge (b : Budget) (w : Weight) (l : Location) :
    p.Repeats (Maps id) (b.charge w l) (b.charge w l) := by
  unfold Budget.charge
  dsimp only
  split
  · exact .fail rfl
  · exact .pure rfl

/-! ### Literals -/

variable {cookie : Registration → Nat} {env : Env} {budget : Budget} {location : Location}

theorem intLiteral (value : Nat) (type : Ty) (a : Scalar) :
    p.Repeats (Maps p.numbers.expr) (Env.intLiteral value type a)
      (Env.intLiteral value (type.renumber p.struct) a) :=
  Repeats.freshValue.bindMap fun _ => (Repeats.liftInternal _).bindMap fun _ => .pure rfl

theorem naturalNumber (value : Nat) :
    p.Repeats (MapsSpent p.numbers.expr) (env.naturalNumber budget value location)
      ((p.env env).naturalNumber budget value location) := by
  refine (Repeats.liftInternal _).bindMap fun fitting => ?_
  cases fitting with
  | none => exact .fail rfl
  | some a =>
    exact (charge _ _ _).bindMap fun b =>
      (intLiteral value (.ofScalar a) a).bindMap fun e => .pure rfl

theorem natural (o : Operand) :
    p.Repeats (MapsSpent p.numbers.expr) (env.natural budget location o)
      ((p.env env).natural budget location (p.operandOf o)) := by
  cases o with
  | typed e => exact .pure rfl
  | number value => exact naturalNumber value
  | null => exact .fail rfl

/-! ### Conversions -/

/-- **The graph of conversions looks the same after the past.** -/
theorem castGraph {G : CastGraph} (hG : (BuiltinTypes.ofBackend cookie).Sole G) (S : StructStore) :
    G.Renumbers S (p.store S) p.struct fun _ => True where
  same t u _ _ := embeds.same t u
  castsTo t _ := by
    have hscalars : ∀ b ∈ (BuiltinTypes.ofBackend cookie).all,
        (Ty.ofScalar b).same (p.store S) (t.renumber p.struct) = (Ty.ofScalar b).same S t :=
      fun b _ => embeds.same (.ofScalar b) t
    have hfind := BuiltinTypes.find_renumber hscalars
    rw [hG.castsTo_eq, hG.castsTo_eq, hfind, Ty.flags_renumber, List.map_append,
      Cast.decays_renumber]
    split <;> rfl
  source _ _ _ _ := trivial
  transform t _ c hc r implicit := by
    rw [hG.castsTo_eq, List.mem_append] at hc
    have hcases : c ∈ (BuiltinTypes.ofBackend cookie).casts.casts ∨ c ∈ Cast.decays t := by
      refine hc.imp (fun hfind => (BuiltinTypes.mem_casts_of_find hfind).1) fun hdecay => ?_
      split at hdecay
      · exact hdecay
      · cases hdecay
    exact BuiltinTypes.transform_renumber hcases r implicit

theorem castGraph_context (c : LookupContext) : (p.context c).castGraph = c.castGraph := by
  rw [LookupContext.castGraph, LookupContext.castGraph, scopes_context, List.map_map]
  rfl

theorem castNode (e : TypedExpr) (step : ChainStep) :
    p.Repeats (Maps p.numbers.expr) (Env.castNode e step)
      (Env.castNode (p.numbers.expr e) (step.renumber p.struct)) := by
  have hid : (p.numbers.expr e).id = p.value e.id := p.numbers.id_expr e
  unfold Env.castNode
  rw [hid]
  exact Repeats.drawUnless fun v => .pure rfl

theorem castNodes (e : TypedExpr) (steps : List ChainStep) :
    p.Repeats (Maps p.numbers.expr) (steps.foldlM Env.castNode e)
      ((steps.map (ChainStep.renumber p.struct)).foldlM Env.castNode (p.numbers.expr e)) := by
  induction steps generalizing e with
  | nil => exact .pure rfl
  | cons step rest ih =>
    rw [List.map_cons, List.foldlM_cons, List.foldlM_cons]
    exact (castNode e step).bindMap ih

/-- **A conversion after the past.** -/
theorem convert (hG : (BuiltinTypes.ofBackend cookie).Sole env.context.castGraph)
    (destination : Ty) (implicit : Bool) (e : TypedExpr) :
    p.Repeats (MapsSpent p.numbers.expr) (env.convert budget destination implicit location e)
      ((p.env env).convert budget (destination.renumber p.struct) implicit location
        (p.numbers.expr e)) := by
  have htype : (p.numbers.expr e).type = e.type.renumber p.struct := p.numbers.type_expr e
  unfold Env.convert
  dsimp only
  rw [htype, p.numbers.range_expr, show (p.env env).context = p.context env.context from rfl,
    castGraph_context, show (p.env env).structs = p.store env.structs from rfl]
  have hresolve := CastQuery.resolve_renumber (castGraph (p := p) hG env.structs)
    (q := ⟨e.type, e.range, destination, implicit, budget.remaining⟩) trivial trivial
  refine (Repeats.lift (hresolve.mapError ?_)).bind ?_
  · rintro d _ rfl
    rfl
  · rintro chain _ rfl
    exact (charge _ _ _).bindMap fun b => (castNodes e chain.steps).bindMap fun e => .pure rfl

theorem literalScalar? (value : Nat) (t : Ty) :
    Env.literalScalar? value (t.renumber p.struct) = Env.literalScalar? value t := by
  rw [Env.literalScalar?, Env.literalScalar?, Ty.asScalar?_renumber]

/-- **An operand as a value of a given type**, after the past. -/
theorem coerce (hG : (BuiltinTypes.ofBackend cookie).Sole env.context.castGraph)
    (destination : Ty) (implicit : Bool) (o : Operand) :
    p.Repeats (MapsSpent p.numbers.expr) (env.coerce budget destination implicit location o)
      ((p.env env).coerce budget (destination.renumber p.struct) implicit location
        (p.operandOf o)) := by
  cases o with
  | typed e => exact convert hG destination implicit e
  | number value =>
    simp only [Env.coerce, operandOf]
    rw [literalScalar?]
    refine (Repeats.liftInternal _).bindMap fun literal => ?_
    cases literal with
    | some a =>
      exact (charge _ _ _).bindMap fun b =>
        (intLiteral value destination a).bindMap fun e => .pure rfl
    | none => exact (naturalNumber value).spend fun e b => convert hG destination implicit e
  | null =>
    simp only [Env.coerce, operandOf]
    rw [Ty.isPointer_renumber]
    split
    · exact Repeats.freshValue.bindMap fun v => .pure rfl
    · exact .fail rfl

theorem settle (hG : (BuiltinTypes.ofBackend cookie).Sole env.context.castGraph)
    (hint : Option Ty) (o : Operand) :
    p.Repeats (MapsSpent p.numbers.expr) (env.settle budget hint location o)
      ((p.env env).settle budget (hint.map (Ty.renumber p.struct)) location (p.operandOf o)) := by
  cases hint with
  | some t => exact coerce hG t true o
  | none => exact natural o

theorem unqualified_expr (e : TypedExpr) :
    (p.numbers.expr e).type.unqualified = e.type.unqualified.renumber p.struct := by
  rw [p.numbers.type_expr, Ty.renumber_unqualified]
  rfl

theorem plain (hG : (BuiltinTypes.ofBackend cookie).Sole env.context.castGraph) (o : Operand) :
    p.Repeats (MapsSpent p.numbers.expr) (env.plain budget location o)
      ((p.env env).plain budget location (p.operandOf o)) := by
  refine (natural o).spend fun e b => ?_
  dsimp only
  rw [unqualified_expr]
  exact convert hG e.type.unqualified true e

/-! ### Trying one overload -/

theorem coerceAll (hG : (BuiltinTypes.ofBackend cookie).Sole env.context.castGraph)
    (operands : List Operand) (parameters : List Ty) :
    p.Repeats (MapsSpent (List.map p.numbers.expr))
      (env.coerceAll location budget operands parameters)
      ((p.env env).coerceAll location budget (operands.map p.operandOf)
        (parameters.map (Ty.renumber p.struct))) := by
  induction operands generalizing budget parameters with
  | nil => exact .pure rfl
  | cons o os ih =>
    cases parameters with
    | nil => exact .pure rfl
    | cons t ts =>
      exact (coerce hG t true o).spend fun e b => (ih ts).spend fun es b => .pure rfl

theorem operandRanges (operator : String) (arguments : List TypedExpr) (parameters : List Ty) :
    (p.env env).operandRanges operator (arguments.map p.numbers.expr)
        (parameters.map (Ty.renumber p.struct)) =
      env.operandRanges operator arguments parameters := by
  induction arguments generalizing parameters with
  | nil => rfl
  | cons e es ih =>
    cases parameters with
    | nil => rfl
    | cons t ts =>
      simp only [List.map_cons, Env.operandRanges]
      rw [p.numbers.range_expr, Ty.fullRange_renumber, ih,
        show (t.renumber p.struct).text (p.env env).structs = t.text env.structs from embeds.text t]

theorem operatorRange (operator : String) (op : BuiltinOperator) (result : Ty)
    (arguments : List TypedExpr) (parameters : List Ty) :
    (p.env env).operatorRange operator op (result.renumber p.struct)
        (arguments.map p.numbers.expr) (parameters.map (Ty.renumber p.struct)) =
      env.operatorRange operator op result arguments parameters := by
  unfold Env.operatorRange
  rw [Ty.asScalar?_renumber, operandRanges,
    show (result.renumber p.struct).text (p.env env).structs = result.text env.structs from
      embeds.text result]

theorem operatorNode (operator : String) (op : BuiltinOperator) (arguments : List TypedExpr) :
    p.Repeats (fun node node' => ∀ i, node' (p.numbers.info i) = p.numbers.expr (node i))
      (liftM (Env.operatorNode operator op arguments) : Analysis (ValueInfo → TypedExpr))
      (liftM (Env.operatorNode operator op (arguments.map p.numbers.expr)) :
        Analysis (ValueInfo → TypedExpr)) := by
  cases op with
  | binary op =>
    rcases arguments with _ | ⟨l, _ | ⟨r, _ | ⟨e, es⟩⟩⟩
    case cons.cons.nil => exact .pure fun _ => rfl
    all_goals exact .broken
  | logicalNot =>
    rcases arguments with _ | ⟨e, _ | ⟨e', es⟩⟩
    case cons.nil => exact .pure fun _ => rfl
    all_goals exact .broken

/-- **An overload is applied** after the past. -/
theorem apply (o : Overload) (parameters : List Ty) (result : Ty) (arguments : List TypedExpr) :
    p.Repeats (Maps fun x => (p.numbers.expr x.1, x.2)) (env.apply o parameters result arguments)
      ((p.env env).apply (o.renumber p.struct) (parameters.map (Ty.renumber p.struct))
        (result.renumber p.struct) (arguments.map p.numbers.expr)) := by
  unfold Env.apply
  rw [show (o.renumber p.struct).kind = o.kind from rfl,
    show (o.renumber p.struct).name = o.name from rfl]
  cases o.kind with
  | user symbol =>
    rw [Ty.fullRange_renumber]
    refine (Repeats.liftInternal _).bindMap fun range => ?_
    simp only [Ty.isVoid_renumber]
    refine Repeats.drawUnless fun v => .pure ?_
    rw [Maps, Renaming.expr, Renaming.exprs_eq_map]
    rfl
  | builtin op =>
    dsimp only
    rw [operatorRange]
    refine (Repeats.liftInternal _).bindMap fun x => ?_
    refine (operatorNode o.name op arguments).bind fun node node' hnode => ?_
    simp only [Ty.isVoid_renumber]
    refine Repeats.drawUnless fun v => .pure ?_
    rw [Maps, ← hnode]
    rfl

/-- **One overload is tried** after the past. -/
theorem candidate (hG : (BuiltinTypes.ofBackend cookie).Sole env.context.castGraph) (o : Overload)
    (parameters : List Ty) (result : Ty) (operands : List Operand) (hint : Option Ty) :
    p.Repeats (Maps p.candidateOf)
      (env.candidate budget o parameters result operands hint location)
      ((p.env env).candidate budget (o.renumber p.struct) (parameters.map (Ty.renumber p.struct))
        (result.renumber p.struct) (operands.map p.operandOf) (hint.map (Ty.renumber p.struct))
        location) := by
  refine (coerceAll hG operands parameters).spend fun arguments b => ?_
  refine (apply o parameters result arguments).bindMap fun applied => ?_
  cases hint with
  | none => exact .pure rfl
  | some t => exact (convert hG t true applied.1).spend fun e b => .pure rfl

/-! ### Choosing -/

theorem signature (S : StructStore) (o : Overload) :
    (o.renumber p.struct).signature (p.store S) =
      (o.signature S).map fun x => (x.1.map (Ty.renumber p.struct), x.2.renumber p.struct) := by
  unfold Overload.signature Overload.renumber
  dsimp only
  rw [embeds.text]
  cases o.type with
  | function f as r => simp [Ty.renumber, Ty.asFunction?, Ty.renumberAll_eq_map, Except.map]
  | _ => rfl

theorem attempted {α β : Type} {f : α → β} {x : Analysis α} {y : Analysis β}
    (h : p.Repeats (Maps f) x y) :
    p.Repeats (fun a b => b = (a.map f).mapError (Diagnostic.renumber p.struct))
      x.attempt y.attempt := by
  intro s hs
  have hxy := h s hs
  unfold Analysis.attempt
  generalize x s = a, y (p.fresh s) = b at hxy
  cases hxy with
  | ok hab =>
    obtain ⟨hmaps, hfresh, hpos⟩ := hab
    exact .ok ⟨congrArg _ hmaps, hfresh, hpos⟩
  | fail hd => exact .ok ⟨congrArg _ hd, rfl, hs⟩
  | internal i j => exact .internal i j

theorem isAmbiguousCast_renumber (ρ : StructId → StructId) (c : Cause) :
    (c.renumber ρ).isAmbiguousCast = c.isAmbiguousCast := by
  cases c with
  | cast e => cases e <;> rfl
  | _ => rfl

/-- **All overloads are tried** after the past. -/
theorem candidates (hG : (BuiltinTypes.ofBackend cookie).Sole env.context.castGraph)
    (operands : List Operand) (hint : Option Ty) (os : List Overload) :
    p.Repeats
      (Maps fun x => (x.1.map p.candidateOf, x.2.map (Diagnostic.renumber p.struct)))
      (env.candidates budget operands hint location os)
      ((p.env env).candidates budget (operands.map p.operandOf) (hint.map (Ty.renumber p.struct))
        location (os.map (.renumber p.struct))) := by
  induction os with
  | nil => exact .pure rfl
  | cons o rest ih =>
    have hsignature : p.Repeats
        (Maps fun x => (x.1.map (Ty.renumber p.struct), x.2.renumber p.struct))
        (liftM (o.signature env.structs) : Analysis (List Ty × Ty))
        (liftM ((o.renumber p.struct).signature (p.env env).structs) : Analysis (List Ty × Ty)) := by
      rw [show (p.env env).structs = p.store env.structs from rfl, signature]
      cases o.signature env.structs with
      | ok x => exact .pure rfl
      | error e => exact .broken
    rw [List.map_cons, Env.candidates, Env.candidates]
    refine hsignature.bindMap fun x => ?_
    obtain ⟨parameters, result⟩ := x
    dsimp only
    rw [List.length_map, List.length_map]
    split
    · exact ih
    · refine (attempted (candidate hG o parameters result operands hint)).bind ?_
      rintro tried _ rfl
      cases tried with
      | ok c => exact ih.bindMap fun x => .pure rfl
      | error d =>
        simp only [Except.map, Except.mapError]
        rw [show (d.renumber p.struct).cause = d.cause.renumber p.struct from rfl,
          isAmbiguousCast_renumber]
        split
        · exact .fail rfl
        · exact ih.bindMap fun x => .pure rfl

theorem cheapest (viable : List Candidate) :
    Env.cheapest (viable.map p.candidateOf) = (Env.cheapest viable).map p.candidateOf := by
  rw [Env.cheapest, Env.cheapest, List.filter_map]
  congr 1
  refine List.filter_congr fun c _ => ?_
  rw [Function.comp_apply, List.all_map]
  rfl

theorem overloads (name : String) :
    p.Repeats (Maps (List.map (.renumber p.struct))) (env.overloads name location)
      ((p.env env).overloads name location) := by
  unfold Env.overloads
  rw [show (p.env env).context = p.context env.context from rfl, object?]
  cases env.context.object? name with
  | none => exact .fail rfl
  | some x =>
    cases x with
    | function f => exact .pure rfl
    | «variable» v => exact .fail rfl

theorem describeAll (operands : List Operand) :
    (p.env env).describeAll (operands.map p.operandOf) = env.describeAll operands := by
  unfold Env.describeAll
  rw [List.map_map]
  congr 1
  refine List.map_congr_left fun o _ => ?_
  cases o with
  | typed e =>
    show (p.numbers.expr e).type.text (p.store env.structs) = e.type.text env.structs
    rw [p.numbers.type_expr]
    exact embeds.text e.type
  | number value => rfl
  | null => rfl

/-- **An overload is chosen** after the past as without it. -/
theorem select (hG : (BuiltinTypes.ofBackend cookie).Sole env.context.castGraph) (name : String)
    (os : List Overload) (operands : List Operand) (hint : Option Ty) :
    p.Repeats (MapsSpent p.numbers.expr) (env.select budget name os operands hint location)
      ((p.env env).select budget name (os.map (.renumber p.struct)) (operands.map p.operandOf)
        (hint.map (Ty.renumber p.struct)) location) := by
  unfold Env.select
  rw [describeAll]
  refine (candidates hG operands hint os).bindMap fun x => ?_
  obtain ⟨viable, failures⟩ := x
  dsimp only
  cases viable with
  | nil =>
    rcases failures with _ | ⟨d, _ | ⟨d', ds⟩⟩
    · exact .fail rfl
    · exact .fail rfl
    · exact .fail rfl
  | cons c cs =>
    have hcheapest := cheapest (p := p) (c :: cs)
    rw [List.map_cons] at hcheapest ⊢
    dsimp only
    rw [hcheapest]
    rcases Env.cheapest (c :: cs) with _ | ⟨w, _ | ⟨w', ws⟩⟩
    · exact .broken
    · refine (charge _ _ _).bindMap fun b => ?_
      rw [show (p.candidateOf w).undefined = w.undefined from rfl]
      cases w.undefined with
      | none => exact .pure rfl
      | some u => exact .fail rfl
    · rw [List.map_cons, List.map_cons]
      dsimp only [List.length_cons]
      rw [List.length_map]
      exact .fail rfl

end Past

end RangeTyping
