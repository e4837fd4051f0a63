import RangeTyping.Analysis.Functions
import RangeTyping.Analysis.Structs

/-!
# Opening successful computations

A computation that ended well consists of steps that ended well.  The lemmas of this file take such
a computation apart, one step at a time: `Outcome.bind_ok` and `Analysis.bind_ok` open a sequence,
the others say what a single step that ended well was, among them a query that is answered
(`CastQuery.resolve_ok`) and the registrations in a scope.

`collect_ok` does the same for a whole run of `collect` that found nothing wrong: it is a chain of
successful steps, one for each item (`Collected`).  `collect_induction` carries an invariant through
any run.  For the rounds in which structs are defined there is an induction of its own
(`DeclaredStruct.defineAll_induction`), over what one attempt does (`DeclaredStruct.define_ok`).
-/

namespace RangeTyping

/-! ### Outcomes -/

namespace Outcome

theorem bind_ok {ε α β : Type} {x : Except ε α} {f : α → Except ε β} {b : β}
    (h : (x >>= f) = .ok b) : ∃ a, x = .ok a ∧ f a = .ok b := by
  cases x with
  | error e => cases h
  | ok a => exact ⟨a, rfl, h⟩

/-- A sequence fails in its first part or in its second. -/
theorem bind_error {ε α β : Type} {x : Except ε α} {f : α → Except ε β} {e : ε}
    (h : (x >>= f) = .error e) : x = .error e ∨ ∃ a, x = .ok a ∧ f a = .error e := by
  cases x with
  | error e' =>
    cases h
    exact .inl rfl
  | ok a => exact .inr ⟨a, rfl, h⟩

theorem map_ok {ε α β : Type} {x : Except ε α} {g : α → β} {b : β}
    (h : (g <$> x) = .ok b) : ∃ a, x = .ok a ∧ g a = b := by
  cases x with
  | error e => cases h
  | ok a =>
    cases h
    exact ⟨a, rfl, rfl⟩

theorem ofInternal_ok {ε α : Type} {x : Except InternalError α} {a : α}
    (h : (ofInternal x : Outcome ε α) = .ok a) : x = .ok a := by
  cases x with
  | error e => cases h
  | ok b =>
    cases h
    rfl

theorem ofInternal_ne_error {ε α : Type} {x : Except InternalError α} {e : ε} :
    (ofInternal x : Outcome ε α) ≠ .error (.error e) := by
  cases x <;> nofun

theorem mapError_ok {ε δ α : Type} {f : ε → δ} {x : Outcome ε α} {a : α}
    (h : x.mapError f = .ok a) : x = .ok a := by
  match x, h with
  | .ok b, h =>
    cases h
    rfl
  | .error (.internal e), h => cases h
  | .error (.error e), h => cases h

/-- The error of a computation that has no result. -/
def error? {ε α : Type} : Except ε α → Option ε
  | .error e => some e
  | .ok _ => none

theorem eq_error_of_error? {ε α : Type} {x : Except ε α} {e : ε} (h : error? x = some e) :
    x = .error e := by
  cases x with
  | error e' =>
    cases h
    rfl
  | ok a => cases h

end Outcome

/-! ### Queries -/

/-- A query that is answered asks for nothing, or its conversions were found, paid for and taken. -/
theorem CastQuery.resolve_ok {S : StructStore} {G : CastGraph} {q : CastQuery} {chain : Chain}
    (h : q.resolve S G = .ok chain) :
    (q.source.same S q.destination = true ∧ chain = .identity q.range) ∨
      q.source.same S q.destination = false ∧ ∃ casts steps, q.casts S G = .ok casts ∧
        totalWeight casts ≤ q.limit ∧ q.steps q.range casts = .ok steps ∧
        chain = ⟨steps, totalWeight casts, (steps.getLast?.map (·.range)).getD q.range⟩ := by
  unfold resolve at h
  split at h
  · rename_i hsame
    cases h
    exact .inl ⟨hsame, rfl⟩
  · rename_i hdiffer
    obtain ⟨casts, hcasts, h⟩ := Outcome.bind_ok h
    dsimp only at h
    split at h
    · cases h
    · rename_i hle
      obtain ⟨steps, hsteps, h⟩ := Outcome.bind_ok h
      cases h
      exact .inr ⟨Bool.eq_false_iff.2 hdiffer, casts, steps, hcasts, Nat.not_lt.1 hle, hsteps, rfl⟩

/-! ### Registering -/

namespace Scope

variable {s s' : Scope}

theorem addType_ok {name : String} {type : Ty} (h : s.addType name type = .ok s') :
    s.type? name = none ∧ s' = { s with types := s.types ++ [(name, type)] } := by
  unfold addType at h
  split at h
  · cases h
  · rename_i hfree
    cases h
    exact ⟨hfree, rfl⟩

theorem addVariable_ok {v : Variable} (h : s.addVariable v = .ok s') :
    s.object? v.name = none ∧ s' = { s with objects := s.objects ++ [(v.name, .variable v)] } := by
  unfold addVariable at h
  split at h
  · cases h
  · rename_i hfree
    cases h
    exact ⟨hfree, rfl⟩

/-- A name that is reserved stands for functions, or for nothing yet. -/
theorem reserve_ok {name : String} (h : s.reserve name = .ok s') :
    (∃ f, s.object? name = some (.function f) ∧ s' = s) ∨ s.object? name = none ∧
      s' = { s with objects := s.objects ++ [(name, .function ⟨name, []⟩)] } := by
  unfold reserve at h
  split at h
  · cases h
  · rename_i f hf
    cases h
    exact .inl ⟨f, hf, rfl⟩
  · rename_i hfree
    cases h
    exact .inr ⟨hfree, rfl⟩

theorem attach_ok {S : StructStore} {o : Overload} (h : attach S s o = .ok s') :
    ∃ f, s.object? o.name = some (.function f) ∧ s' = { s with
      objects := replace o.name (.function { f with overloads := f.overloads ++ [o] }) s.objects } := by
  unfold attach at h
  split at h
  · rename_i f hf
    obtain ⟨signature, -, h⟩ := Outcome.bind_ok h
    obtain ⟨taken, -, h⟩ := Outcome.bind_ok h
    cases taken with
    | true => cases h
    | false =>
      cases h
      exact ⟨f, hf, rfl⟩
  · cases h

end Scope

/-- A type is entered in the innermost scope, and in the table of type ids if it has a cookie. -/
theorem LookupContext.addType_ok {c c' : LookupContext} {name : String} {type : Ty}
    (h : c.addType name type = .ok c') : ∃ scope, c.current.addType name type = .ok scope ∧
      ((type.cookie? = none ∧ c' = { c with current := scope }) ∨ ∃ cookie,
        type.cookie? = some cookie ∧
        c' = { c with current := scope, typeIds := c.typeIds.insert cookie name type }) := by
  unfold addType at h
  split at h
  · cases h
  · rename_i scope hscope
    split at h
    · rename_i hnone
      cases h
      exact ⟨scope, hscope, .inl ⟨hnone, rfl⟩⟩
    · rename_i cookie hsome
      split at h
      · cases h
      · cases h
        exact ⟨scope, hscope, .inr ⟨cookie, hsome, rfl⟩⟩

namespace Signature

variable {S : StructStore} {nothing : Ty} {c c' : LookupContext} {f : Source.FunctionDef}
  {sig : Signature}

theorem reserve_ok {g : Source.FunctionDef} (h : reserve c f = .ok (g, c')) :
    g = f ∧ c.reserve f.name.text = .ok c' := by
  unfold reserve at h
  split at h
  · rename_i context hcontext
    cases h
    exact ⟨rfl, hcontext⟩
  · cases h

theorem read_ok (h : read S nothing c f = .ok sig) : ∃ parameters result,
    types c (f.arguments.map (·.type)) = .ok parameters ∧
      (f.returns = none ∧ result = nothing ∨
        ∃ t, f.returns = some t ∧ c.resolveType t = .ok result) ∧
      sig = ⟨f, parameters, result,
        "_P" ++ sized f.name.text ++ (Ty.arrow parameters result).symbol S⟩ := by
  obtain ⟨parameters, hparameters, h⟩ := Outcome.bind_ok h
  cases hreturns : f.returns with
  | none =>
    rw [hreturns] at h
    cases h
    exact ⟨parameters, nothing, hparameters, .inl ⟨rfl, rfl⟩, rfl⟩
  | some t =>
    rw [hreturns] at h
    obtain ⟨result, hresult, h⟩ := Outcome.bind_ok h
    cases h
    exact ⟨parameters, result, hparameters, .inr ⟨t, rfl, hresult⟩, rfl⟩

theorem register_ok (h : register S nothing c f = .ok (sig, c')) :
    read S nothing c f = .ok sig ∧ c.attach S sig.overload = .ok c' := by
  unfold register at h
  split at h
  · cases h
  · rename_i hread
    obtain ⟨context, hattach, h⟩ := Outcome.bind_ok h
    cases h
    exact ⟨hread, Outcome.mapError_ok hattach⟩

end Signature

/-! ### Steps of an analysis -/

namespace Analysis

variable {α β : Type} {s s' : Fresh}

theorem bind_ok {x : Analysis α} {f : α → Analysis β} {b : β} (h : (x >>= f) s = .ok (b, s')) :
    ∃ a t, x s = .ok (a, t) ∧ f a t = .ok (b, s') := by
  obtain ⟨⟨a, t⟩, hx, hf⟩ := Outcome.bind_ok h
  exact ⟨a, t, hx, hf⟩

theorem bind_of_ok {x : Analysis α} {f : α → Analysis β} {a : α} (h : x s = .ok (a, s')) :
    (x >>= f) s = f a s' := by
  simp only [bind, StateT.bind, h, Except.bind]

theorem bind_of_error {x : Analysis α} {f : α → Analysis β} {e : Failure Diagnostic}
    (h : x s = .error e) : (x >>= f) s = .error e := by
  simp only [bind, StateT.bind, h, Except.bind]

theorem pure_ok {a b : α} (h : (pure a : Analysis α) s = .ok (b, s')) : a = b ∧ s = s' := by
  cases h
  exact ⟨rfl, rfl⟩

theorem fail_ok {cause : Cause} {location : Location} {a : α}
    (h : (fail cause location : Analysis α) s = .ok (a, s')) : False := by
  cases h

theorem broken_ok {e : InternalError} {a : α} (h : (broken e : Analysis α) s = .ok (a, s')) :
    False := by
  cases h

/-- A lifted outcome draws nothing. -/
theorem lift_ok {x : Outcome Diagnostic α} {a : α} (h : (liftM x : Analysis α) s = .ok (a, s')) :
    x = .ok a ∧ s = s' := by
  obtain ⟨b, hx, hb⟩ := Outcome.bind_ok h
  cases hb
  exact ⟨hx, rfl⟩

/-- A lifted computation that can only break an invariant draws nothing. -/
theorem liftInternal_ok {x : Except InternalError α} {a : α}
    (h : (liftM x : Analysis α) s = .ok (a, s')) : x = .ok a ∧ s = s' := by
  obtain ⟨b, hx, hb⟩ := Outcome.bind_ok h
  cases hb
  exact ⟨Outcome.ofInternal_ok hx, rfl⟩

theorem freshValue_ok {v : ValueId} (h : freshValue s = .ok (v, s')) :
    v = ⟨s.nextValue⟩ ∧ s' = { s with nextValue := s.nextValue + 1 } := by
  cases h
  exact ⟨rfl, rfl⟩

theorem freshPoint_ok {p : PointId} (h : freshPoint s = .ok (p, s')) :
    p = ⟨s.nextPoint⟩ ∧ s' = { s with nextPoint := s.nextPoint + 1 } := by
  cases h
  exact ⟨rfl, rfl⟩

/-- An identity that is drawn unless it is known already. -/
theorem drawUnless_ok {c : Prop} [Decidable c] {i : ValueId} {f : ValueId → Analysis β} {b : β}
    (h : (if c then (pure i >>= f) else (freshValue >>= f)) s = .ok (b, s')) :
    ∃ id t, (c ∧ id = i ∧ t = s ∨ ¬c ∧ freshValue s = .ok (id, t)) ∧ f id t = .ok (b, s') := by
  by_cases hc : c
  · rw [if_pos hc] at h
    exact ⟨i, s, .inl ⟨hc, rfl, rfl⟩, h⟩
  · rw [if_neg hc] at h
    obtain ⟨id, t, hid, h⟩ := bind_ok h
    exact ⟨id, t, .inr ⟨hc, hid⟩, h⟩

/-- An attempt that ended in a result was the step itself; one that ended in a diagnostic drew
nothing. -/
theorem attempt_ok {x : Analysis α} {r : Except Diagnostic α} (h : x.attempt s = .ok (r, s')) :
    (∃ a, r = .ok a ∧ x s = .ok (a, s')) ∨ (∃ d, r = .error d ∧ s' = s) := by
  unfold attempt at h
  match hx : x s with
  | .ok (a, t) =>
    rw [hx] at h
    cases h
    exact .inl ⟨a, rfl, rfl⟩
  | .error (.error d) =>
    rw [hx] at h
    cases h
    exact .inr ⟨d, rfl, rfl⟩
  | .error (.internal e) =>
    rw [hx] at h
    cases h

end Analysis

namespace Budget

variable {b c : Budget} {w : Weight} {location : Location} {s s' : Fresh}

/-- What is charged is spent, and the limit allows it. -/
theorem charge_ok (h : b.charge w location s = .ok (c, s')) :
    c = ⟨b.limit, addWeight b.spent w⟩ ∧ addWeight b.spent w ≤ b.limit ∧ s = s' := by
  unfold charge at h
  split at h
  · exact (Analysis.fail_ok h).elim
  · rename_i hle
    cases h
    exact ⟨rfl, Nat.not_lt.1 hle, rfl⟩

theorem charge_of_le (h : addWeight b.spent w ≤ b.limit) :
    b.charge w location s = .ok (⟨b.limit, addWeight b.spent w⟩, s) := by
  unfold charge
  rw [if_neg (Nat.not_lt.2 h)]
  rfl

end Budget

/-! ### Types and variables -/

namespace Env

variable {env env' : Env} {location : Location} {s s' : Fresh}

theorem resolveType_ok {type : Source.TypeExpr} {t : Ty}
    (h : env.resolveType type s = .ok (t, s')) :
    env.context.resolveType type = .ok t ∧ s = s' := by
  unfold Env.resolveType at h
  split at h
  · rename_i u hu
    cases h
    exact ⟨hu, rfl⟩
  · cases h

/-- The type of a declaration is the one that is written. -/
theorem declaredType_ok {name : Source.Name} {type : Source.TypeExpr} {t : Ty}
    (h : env.declaredType name location type s = .ok (t, s')) :
    env.resolveType type s = .ok (t, s') := by
  obtain ⟨u, s₁, hresolve, h⟩ := Analysis.bind_ok h
  dsimp only at h
  split at h
  · obtain ⟨_, _, hfail, -⟩ := Analysis.bind_ok h
    exact (Analysis.fail_ok hfail).elim
  · obtain ⟨rfl, rfl⟩ := Analysis.pure_ok h
    exact hresolve

/-- **A declared variable** has an identity that was just drawn, and is added to the innermost
scope. -/
theorem declare_ok {name : String} {type : Ty} {isMutable : Bool} {range : Option ValueRange}
    {v : Variable} (h : env.declare name type isMutable range location s = .ok ((v, env'), s')) :
    type.isVoid = false ∧ ∃ i context, Analysis.freshValue s = .ok (i, s') ∧
      v = ⟨name, type.unqualified.addFlags (if isMutable then .refMut else .ref), i, range,
        location⟩ ∧
      env.context.addVariable v = .ok context ∧ env' = { env with context } := by
  unfold Env.declare at h
  dsimp only at h
  split at h
  · obtain ⟨_, _, hfail, -⟩ := Analysis.bind_ok h
    exact (Analysis.fail_ok hfail).elim
  rename_i hvoid
  rw [Bool.or_eq_true, not_or] at hvoid
  obtain ⟨i, t, hi, h⟩ := Analysis.bind_ok h
  generalize hcontext : env.context.addVariable _ = result at h
  cases result with
  | error e => exact (Analysis.fail_ok h).elim
  | ok context =>
    obtain ⟨h, rfl⟩ := Analysis.pure_ok h
    cases h
    exact ⟨Bool.eq_false_iff.2 hvoid.1, i, context, hi, rfl, hcontext, rfl⟩

/-- A variable definition declares the variable, with the full range of its type if it may change and
with the range of its value otherwise. -/
theorem defineVariable_ok {name : Source.Name} {isMutable : Bool} {value : TypedExpr}
    {st : TypedStmt}
    (h : env.defineVariable name isMutable location value s = .ok ((st, env'), s')) :
    ∃ v range, (if isMutable = true then value.type.fullRange = .ok range else range = value.range) ∧
      env.declare name.text value.type isMutable range location s = .ok ((v, env'), s') ∧
      st = .define v value := by
  obtain ⟨range, hrange, h⟩ : ∃ range,
      (if isMutable = true then value.type.fullRange = .ok range else range = value.range) ∧
      (env.declare name.text value.type isMutable range location >>= fun x =>
        (pure (.define x.1 value, x.2) : Analysis (TypedStmt × Env))) s = .ok ((st, env'), s') := by
    unfold Env.defineVariable at h
    cases isMutable with
    | true =>
      obtain ⟨range, t, hlift, h⟩ := Analysis.bind_ok h
      obtain ⟨hfull, rfl⟩ := Analysis.liftInternal_ok hlift
      exact ⟨range, hfull, h⟩
    | false => exact ⟨value.range, rfl, h⟩
  obtain ⟨⟨v, env₁⟩, s₂, hdeclare, h⟩ := Analysis.bind_ok h
  cases h
  exact ⟨v, range, hrange, hdeclare, rfl⟩

end Env

/-! ### Runs over a list of items -/

/-- A chain of successful steps that takes the state `s` through all items to the state `t`, with
their results. -/
inductive Collected {σ α β : Type} (step : σ → α → Outcome Diagnostic (β × σ)) :
    σ → List α → List β → σ → Prop where
  | nil (s : σ) : Collected step s [] [] s
  | cons {s s' t : σ} {a : α} {b : β} {as : List α} {bs : List β} (h : step s a = .ok (b, s'))
      (rest : Collected step s' as bs t) : Collected step s (a :: as) (b :: bs) t

/-- **What every successful step keeps** holds after a run, whatever else was wrong. -/
theorem collect_induction {σ α β : Type} {step : σ → α → Outcome Diagnostic (β × σ)}
    {I : List β → σ → Prop} {as : List α} {s t : σ} {bs : List β} {ds : List Diagnostic}
    (h : collect step s as = .ok (bs, ds, t)) (hstart : I [] s)
    (hstep : ∀ bs s a b s', a ∈ as → I bs s → step s a = .ok (b, s') → I (bs ++ [b]) s') :
    I bs t := by
  induction as generalizing s bs ds I with
  | nil =>
    cases h
    exact hstart
  | cons a as ih =>
    have hrest : ∀ bs s a' b s', a' ∈ as → I bs s → step s a' = .ok (b, s') → I (bs ++ [b]) s' :=
      fun bs s a' b s' ha' => hstep bs s a' b s' (List.mem_cons_of_mem a ha')
    rw [collect] at h
    split at h
    · cases h
    · obtain ⟨⟨results, diagnostics, t'⟩, hcollect, h⟩ := Outcome.bind_ok h
      cases h
      exact ih hcollect hstart hrest
    · rename_i b s' hs
      obtain ⟨⟨results, diagnostics, t'⟩, hcollect, h⟩ := Outcome.bind_ok h
      cases h
      -- for the rest, the invariant is about what comes after `b`
      exact ih (I := fun bs => I (b :: bs)) hcollect
        (hstep [] s a b s' (List.mem_cons_self ..) hstart hs) fun bs => hrest (b :: bs)

/-- **A run that found nothing wrong is a chain of successful steps.** -/
theorem collect_ok {σ α β : Type} {step : σ → α → Outcome Diagnostic (β × σ)} {as : List α}
    {s t : σ} {bs : List β} (h : collect step s as = .ok (bs, [], t)) :
    Collected step s as bs t := by
  induction as generalizing s bs with
  | nil =>
    cases h
    exact .nil _
  | cons a as ih =>
    rw [collect] at h
    split at h
    · cases h
    · obtain ⟨⟨results, diagnostics, t'⟩, -, h⟩ := Outcome.bind_ok h
      cases h
    · rename_i b s' hstep
      obtain ⟨⟨results, diagnostics, t'⟩, hrest, h⟩ := Outcome.bind_ok h
      cases h
      exact .cons hstep (ih hrest)

/-! ### Attempts to define structs -/

namespace StructStore

variable {S : StructStore} {type : Ty} {i : StructId}

/-- A struct without a layout gets the one that its members have. -/
theorem define_of_none (hi : type.asStruct? = some i) (hnone : S.layout? i = none)
    (members : List (String × Ty)) : S.define type members =
      match Layout.ofMembers S (S.displayName i) members with
      | .ok layout => (.ok (), S.setLayout i layout)
      | .error e => (.error e, S) := by
  rw [define, hi]
  exact if_neg (by simp [isComplete, hnone])

/-- A struct with a layout keeps it. -/
theorem define_of_some {l : Layout} (hi : type.asStruct? = some i) (hl : S.layout? i = some l)
    (members : List (String × Ty)) :
    S.define type members = (.fail (.structAlreadyDefined (S.displayName i)), S) := by
  rw [define, hi]
  dsimp only
  rw [if_pos (by simp [isComplete, hl])]

/-- **What a definition does**: it gives a struct without a layout the one of its members, or it fails
and changes nothing.  Only the members of a struct without a layout can make it stop. -/
theorem define_cases (S : StructStore) (type : Ty) (members : List (String × Ty)) :
    (∃ i l, type.asStruct? = some i ∧ S.layout? i = none ∧
      Layout.ofMembers S (S.displayName i) members = .ok l ∧
      S.define type members = (.ok (), S.setLayout i l)) ∨
    (∃ i e, type.asStruct? = some i ∧ S.layout? i = none ∧
      Layout.ofMembers S (S.displayName i) members = .error (.internal e) ∧
      S.define type members = (.error (.internal e), S)) ∨
    ∃ e, S.define type members = (.fail e, S) := by
  cases hi : type.asStruct? with
  | none =>
    rw [define, hi]
    exact .inr (.inr ⟨_, rfl⟩)
  | some i =>
    cases hl : S.layout? i with
    | some l => exact .inr (.inr ⟨_, define_of_some hi hl members⟩)
    | none =>
      rw [define_of_none hi hl]
      cases hlayout : Layout.ofMembers S (S.displayName i) members with
      | ok l => exact .inl ⟨i, l, rfl, hl, hlayout, rfl⟩
      | error failure =>
        cases failure with
        | internal e => exact .inr (.inl ⟨i, e, rfl, hl, hlayout, rfl⟩)
        | error e => exact .inr (.inr ⟨e, rfl⟩)

end StructStore

namespace DeclaredStruct

variable {c : LookupContext} {S T F : StructStore} {d : DeclaredStruct}
  {rest pending : List DeclaredStruct} {errors : List Diagnostic}

/-- The number of the struct. -/
def id? (d : DeclaredStruct) : Option StructId := d.type.asStruct?

/-- An attempt at a struct without a layout whose members can be read. -/
theorem define_of_members {i : StructId} {ms : List (String × Ty)} (hi : d.id? = some i)
    (hms : members c d.definition.members = .ok ms) (hnone : S.layout? i = none) :
    define c S d =
      match Layout.ofMembers S (S.displayName i) ms with
      | .ok l => .ok (.defined, S.setLayout i l)
      | .error (.error (.incompleteMember struct member type)) =>
        .ok (.deferred ⟨.type (.incompleteMember struct member type), d.definition.node.location⟩, S)
      | .error (.error e) => .ok (.refused ⟨.type e, d.definition.node.location⟩, S)
      | .error (.internal e) => .error e := by
  rw [define, hms]
  dsimp only
  rw [StructStore.define_of_none hi hnone]
  cases Layout.ofMembers S (S.displayName i) ms with
  | ok l => rfl
  | error e =>
    cases e with
    | internal e => rfl
    | error e => cases e <;> rfl

/-- **What an attempt does**: the struct gets the layout of its members, or the store stays as it
is. -/
theorem define_ok {attempt : Attempt} (h : define c S d = .ok (attempt, T)) :
    (attempt = .defined ∧ ∃ i ms l, d.id? = some i ∧ members c d.definition.members = .ok ms ∧
      S.layout? i = none ∧ Layout.ofMembers S (S.displayName i) ms = .ok l ∧
      T = S.setLayout i l) ∨
    attempt ≠ .defined ∧ T = S := by
  unfold define at h
  split at h
  · cases h
    exact .inr ⟨nofun, rfl⟩
  rename_i ms hms
  rcases S.define_cases d.type ms with
    ⟨i, l, hi, hnone, hl, hdefine⟩ | ⟨i, e, -, -, -, hdefine⟩ | ⟨e, hdefine⟩
  · rw [hdefine] at h
    cases h
    exact .inl ⟨rfl, i, ms, l, hi, hms, hnone, hl, rfl⟩
  · rw [hdefine] at h
    cases h
  · rw [hdefine] at h
    cases e <;> cases h <;> exact .inr ⟨nofun, rfl⟩

/-- **Where an attempt stops**: at the layout of a struct that has none. -/
theorem define_error {e : InternalError} (h : define c S d = .error e) :
    ∃ i ms, d.id? = some i ∧ members c d.definition.members = .ok ms ∧ S.layout? i = none ∧
      Layout.ofMembers S (S.displayName i) ms = .error (.internal e) := by
  unfold define at h
  split at h
  · cases h
  rename_i ms hms
  rcases S.define_cases d.type ms with
    ⟨i, l, -, -, -, hdefine⟩ | ⟨i, e, hi, hnone, hl, hdefine⟩ | ⟨e, hdefine⟩
  · rw [hdefine] at h
    cases h
  · rw [hdefine] at h
    cases h
    exact ⟨i, ms, hi, hms, hnone, hl⟩
  · rw [hdefine] at h
    cases e <;> cases h

/-- A round makes an attempt at the first struct and goes on with what it leaves. -/
theorem round_cons_ok {r : Round} (h : round c S (d :: rest) = .ok r) :
    ∃ attempt T r', define c S d = .ok (attempt, T) ∧ round c T rest = .ok r' ∧
      r = r'.cons d attempt := by
  obtain ⟨⟨attempt, T⟩, hdefine, h⟩ := Outcome.bind_ok h
  obtain ⟨r', hround, h⟩ := Outcome.bind_ok h
  cases h
  exact ⟨attempt, T, r', hdefine, hround, rfl⟩

/-- **Induction over rounds**: what is shown of the last round, and of a round whenever it holds of
those that follow, is shown of all rounds together. -/
theorem defineAll_induction
    {P : StructStore → List DeclaredStruct → StructStore → List Diagnostic → Prop}
    (again : ∀ {S F pending r errors}, round c S pending = .ok r →
      r.deferred.length < pending.length →
      defineAll c r.structs (r.deferred.map (·.1)) = .ok (F, errors) →
      P r.structs (r.deferred.map (·.1)) F errors → P S pending F (r.refused ++ errors))
    (last : ∀ {S pending r}, round c S pending = .ok r → ¬ r.deferred.length < pending.length →
      P S pending r.structs (r.refused ++ r.deferred.map (·.2)))
    (h : defineAll c S pending = .ok (F, errors)) : P S pending F errors := by
  fun_induction defineAll c S pending generalizing F errors with
  | case1 S pending e hround => cases h
  | case2 S pending r hround hlt ih =>
    obtain ⟨⟨F', errors'⟩, hrest, h⟩ := Outcome.bind_ok h
    cases h
    exact again hround hlt hrest (ih hrest)
  | case3 S pending r hround hlt =>
    cases h
    exact last hround hlt

end DeclaredStruct

/-- The structs of a module are declared one after another and then defined. -/
theorem Source.Module.exists_of_declareStructs {m : Source.Module} {S S' : StructStore}
    {c c' : LookupContext} {declared : List DeclaredStruct} {errors : List Diagnostic}
    (h : m.declareStructs S c = .ok (declared, errors, S', c')) :
    ∃ refused S₁ blamed, collect DeclaredStruct.declare (S, c) m.structs =
        .ok (declared, refused, S₁, c') ∧
      DeclaredStruct.defineAll c' S₁ declared = .ok (S', blamed) ∧ errors = refused ++ blamed := by
  obtain ⟨⟨declared₁, refused, S₁, c₁⟩, hcollect, h⟩ := Outcome.bind_ok h
  obtain ⟨⟨S₂, blamed⟩, hdefine, h⟩ := Outcome.bind_ok h
  cases h
  exact ⟨refused, S₁, blamed, hcollect, hdefine, rfl⟩

end RangeTyping
