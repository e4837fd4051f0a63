import Mathlib
import RangeTyping.Proofs.Analysis.Conversion

/-!
# Chosen overloads make good expressions

Overload resolution tries every overload on the same operands and keeps the cheapest.  Whatever is
drawn for an overload that loses is never used again, so what is left of all the trials is one
expression: it is well made, and it sends the events of the operands, in between and after them
new ones.  This is `Env.Proper.select`; the steps up to it are one overload applied to arguments
(`Env.Proper.apply`) and one overload tried (`Env.Proper.candidate`).
-/

namespace RangeTyping

/-- A well-made expression whose events are those in `es` and new ones, in some order. -/
structure Setting.Consumes (X : Setting) (vs : List Variable) (s s' : Fresh) (es : List Event)
    (e : TypedExpr) : Prop where
  made : X.Made vs e
  grown : ∃ extra, e.events.Perm (es ++ extra) ∧ s.Drew s' extra

namespace Setting

variable {X : Setting} {vs : List Variable} {e e' : TypedExpr} {s s' s'' : Fresh} {es : List Event}

/-- All events were drawn, if those of the operands were. -/
theorem Consumes.drew (h : X.Consumes vs s' s'' es e) (hes : s.Drew s' es) :
    s.Drew s'' e.events := by
  obtain ⟨extra, hperm, hd⟩ := h.grown
  exact (hes.append hd).perm hperm.symm

theorem Consumes.trans (h : X.Consumes vs s s' es e) (h' : X.Extends vs s' s'' e.events e') :
    X.Consumes vs s s'' es e' := by
  obtain ⟨a, ha, hda⟩ := h.grown
  obtain ⟨b, hb, hdb⟩ := h'.grown
  refine ⟨h'.made, a ++ b, ?_, hda.append hdb⟩
  rw [hb, ← List.append_assoc]
  exact ha.append_right b

theorem Consumes.mono {a b : Fresh} (h : X.Consumes vs s s' es e) (ha : a.Grew s)
    (hb : s'.Grew b) : X.Consumes vs a b es e := by
  obtain ⟨extra, hperm, hd⟩ := h.grown
  exact ⟨h.made, extra, hperm, hd.mono ha hb⟩

end Setting

namespace Env

variable {X : Setting} {vs : List Variable} {s s' : Fresh} {env : Env} {budget budget' : Budget}
  {location : Location} {e : TypedExpr} {o : Overload} {parameters : List Ty} {result : Ty}
  {arguments : List TypedExpr} {operands : List Operand} {hint : Option Ty}

/-! ### Arguments -/

/-- **The operands as arguments** have the types of the parameters. -/
theorem Proper.coerceAll (hp : env.Proper X vs s) (hos : ∀ o ∈ operands, o.Made X vs)
    (hps : ∀ t ∈ parameters, X.Plain t) (hlen : parameters.length = operands.length)
    (h : env.coerceAll location budget operands parameters s = .ok ((arguments, budget'), s')) :
    (∀ e ∈ arguments, X.Made vs e) ∧ arguments.map TypedExpr.type = parameters ∧
      ∃ extra, (TypedExpr.eventsAll arguments).Perm (operands.flatMap Operand.events ++ extra) ∧
        s.Drew s' extra := by
  induction operands generalizing parameters arguments budget s with
  | nil =>
    cases List.length_eq_zero_iff.1 hlen
    cases h
    exact ⟨nofun, rfl, [], .refl _, .nil (.refl _)⟩
  | cons o os ih =>
    cases parameters with
    | nil => cases hlen
    | cons t ts =>
      obtain ⟨⟨e, b⟩, s₁, he, h⟩ := Analysis.bind_ok h
      obtain ⟨⟨rest, b'⟩, s₂, hrest, h⟩ := Analysis.bind_ok h
      cases h
      obtain ⟨hext, htype⟩ := hp.coerce (hos o (List.mem_cons_self ..)) (hps t (List.mem_cons_self ..))
        he
      obtain ⟨hmade, htypes, extra, hperm, hdrew⟩ := ih (hp.mono hext.grew)
        (fun o' ho' => hos o' (List.mem_cons_of_mem _ ho'))
        (fun t' ht' => hps t' (List.mem_cons_of_mem _ ht')) (Nat.succ.inj hlen) hrest
      obtain ⟨own, hown, hdown⟩ := hext.grown
      refine ⟨?_, by rw [List.map_cons, htype, htypes], own ++ extra, ?_, hdown.append hdrew⟩
      · intro e' he'
        rcases List.mem_cons.1 he' with rfl | he'
        · exact hext.made
        · exact hmade e' he'
      · -- what is new for the first argument moves behind the events of the other operands
        rw [TypedExpr.eventsAll, hown, List.flatMap_cons, List.append_assoc, List.append_assoc]
        refine List.Perm.append_left _ ((hperm.append_left own).trans ?_)
        rw [← List.append_assoc, ← List.append_assoc]
        exact List.perm_append_comm.append_right extra

/-- Arguments with known ranges are taken as they are. -/
theorem operandRanges_ok {operator : String} {ranges known : List ValueRange}
    (hlen : arguments.length = parameters.length)
    (hranges : arguments.map TypedExpr.range = ranges.map some)
    (h : env.operandRanges operator arguments parameters = .ok known) : known = ranges := by
  induction arguments generalizing parameters ranges known with
  | nil =>
    cases h
    exact (List.map_eq_nil_iff.1 hranges.symm).symm
  | cons e es ih =>
    cases parameters with
    | nil => cases hlen
    | cons t ts =>
      cases ranges with
      | nil => cases hranges
      | cons r rs =>
        rw [List.map_cons, List.map_cons, List.cons.injEq] at hranges
        rw [operandRanges, hranges.1] at h
        obtain ⟨_, hknown, h⟩ := Outcome.bind_ok h
        cases hknown
        obtain ⟨rest, hrest, h⟩ := Outcome.bind_ok h
        cases h
        rw [ih (Nat.succ.inj hlen) hranges.2 hrest]

/-! ### Growth -/

theorem grew_castNodes {steps : List ChainStep} {e' : TypedExpr}
    (h : steps.foldlM castNode e s = .ok (e', s')) : s.Grew s' := by
  induction steps generalizing e s with
  | nil =>
    obtain ⟨-, rfl⟩ := Analysis.pure_ok h
    exact .refl s
  | cons step rest ih =>
    rw [List.foldlM_cons] at h
    obtain ⟨e₁, t, h₁, hrest⟩ := Analysis.bind_ok h
    obtain ⟨id, t', hid, h₁⟩ := Analysis.drawUnless_ok h₁
    cases h₁
    rcases hid with ⟨-, -, rfl⟩ | ⟨-, hid⟩
    · exact ih hrest
    · exact (Fresh.Grew.freshValue hid).trans (ih hrest)

theorem grew_convert {destination : Ty} {implicit : Bool} {e' : TypedExpr}
    (h : env.convert budget destination implicit location e s = .ok ((e', budget'), s')) :
    s.Grew s' := by
  obtain ⟨chain, t, hlift, h⟩ := Analysis.bind_ok h
  obtain ⟨-, rfl⟩ := Analysis.lift_ok hlift
  obtain ⟨b, t, hcharge, h⟩ := Analysis.bind_ok h
  obtain ⟨-, -, rfl⟩ := Budget.charge_ok hcharge
  obtain ⟨e₁, t, hsteps, h⟩ := Analysis.bind_ok h
  cases h
  exact grew_castNodes hsteps

/-! ### Applying an overload -/

/-- What the application of an overload is. -/
theorem apply_ok {undefined : Option UndefinedBehavior}
    (h : env.apply o parameters result arguments s = .ok ((e, undefined), s')) :
    ∃ (node : ValueInfo → TypedExpr) (range : Option ValueRange) (id : ValueId),
      e = node ⟨id, result, range⟩ ∧
      (result.isVoid = true ∧ id = .unread ∧ s' = s ∨
        ¬result.isVoid = true ∧ Analysis.freshValue s = .ok (id, s')) ∧
      match o.kind with
      | .user symbol => node = (TypedExpr.call · symbol arguments) ∧ result.fullRange = .ok range ∧
          undefined = none
      | .builtin op => ∃ r, range = some r ∧
          env.operatorRange o.name op result arguments parameters = .ok (r, undefined) ∧
          operatorNode o.name op arguments = .ok node := by
  unfold apply at h
  cases hkind : o.kind with
  | user symbol =>
    rw [hkind] at h
    obtain ⟨range, t, hlift, h⟩ := Analysis.bind_ok h
    obtain ⟨hrange, rfl⟩ := Analysis.liftInternal_ok hlift
    obtain ⟨id, t, hid, h⟩ := Analysis.drawUnless_ok h
    cases h
    exact ⟨_, range, id, rfl, hid, rfl, hrange, rfl⟩
  | builtin op =>
    rw [hkind] at h
    obtain ⟨⟨r, u⟩, t, hlift, h⟩ := Analysis.bind_ok h
    obtain ⟨hrange, rfl⟩ := Analysis.liftInternal_ok hlift
    obtain ⟨node, t, hlift', h⟩ := Analysis.bind_ok h
    obtain ⟨hnode, rfl⟩ := Analysis.liftInternal_ok hlift'
    obtain ⟨id, t, hid, h⟩ := Analysis.drawUnless_ok h
    cases h
    exact ⟨node, some r, id, rfl, hid, r, rfl, hrange, hnode⟩

theorem grew_apply {undefined : Option UndefinedBehavior}
    (h : env.apply o parameters result arguments s = .ok ((e, undefined), s')) : s.Grew s' := by
  obtain ⟨-, -, id, -, ⟨-, -, rfl⟩ | ⟨-, hid⟩, -⟩ := apply_ok h
  · exact .refl _
  · exact .freshValue hid

/-- The range of an operator's result, where nothing is undefined. -/
theorem operatorRange_ok {op : BuiltinOperator} {operator : String} {r : ValueRange} {a : Scalar}
    (ranges : List ValueRange) (hresult : result = .ofScalar a)
    (hlen : arguments.length = parameters.length)
    (hranges : arguments.map TypedExpr.range = ranges.map some)
    (h : env.operatorRange operator op result arguments parameters = .ok (r, none)) :
    op.range a ranges = .ok r := by
  subst hresult
  obtain ⟨known, hknown, h⟩ := Outcome.bind_ok h
  rw [operandRanges_ok hlen hranges hknown] at h
  split at h
  · rename_i q hq
    cases h
    exact hq
  · cases h
  · cases h

/-- Values of scalars that have values have ranges. -/
theorem range_of_made {a : Scalar} (he : X.Made vs e) (ht : e.type = .ofScalar a)
    (ha : a.kind ≠ .void) : ∃ r, e.range = some r ∧ r.Of a := by
  have hadmits := he.admits
  rw [ht] at hadmits
  exact (Ty.admits_some rfl ha).1 hadmits

/-- A value of a scalar that has values can be read. -/
theorem read_of_made {a : Scalar} (he : X.Made vs e) (ht : e.type = .ofScalar a)
    (ha : a.kind ≠ .void) : e.id ≠ .unread := by
  refine he.live.read (.inl ?_)
  rw [ht]
  simpa [Ty.isVoid, Ty.ofScalar, Ty.asScalar?] using ha

/-- **A binary operation** on operands it accepts. -/
theorem made_binary {op : BinaryOperation} {a : Scalar} {id : ValueId} {l r : TypedExpr}
    {range p q : ValueRange} (hop : op.Accepts X.types a) (hl : X.Made vs l) (hr : X.Made vs r)
    (hlt : l.type = .ofScalar a) (hrt : r.type = .ofScalar a) (hlr : l.range = some p)
    (hrr : r.range = some q) (h : op.range (op.resultScalar X.types a) p q = .ok range)
    (hid : id ≠ .unread) :
    X.Made vs (.binary ⟨id, .ofScalar (op.resultScalar X.types a), some range⟩ op l r) := by
  have hp : p.Of a := Setting.range_of_obeys hl.obeys hlt hop.ne_void hlr
  have hq : q.Of a := Setting.range_of_obeys hr.obeys hrt hop.ne_void hrr
  have hsized := BuiltinTypes.sized_of_mem hop.result_mem_all hop.result_ne_void
  refine ⟨⟨⟨?_, ?_, ⟨a, hop, hlt, hrt, rfl⟩, ?_, ?_, ?_⟩, hl.obeys, hr.obeys⟩,
    .of_flags rfl fun _ => hid⟩
  · exact (Setting.plain_ofScalar hop.result_mem_all).known
  · refine (Ty.admits_some rfl hop.result_ne_void).2 ⟨range, rfl, ?_⟩
    exact (BinaryOperation.range_ok hsized (hop.fitsResult hp hq) h).1
  · exact ⟨_, p, q, range, rfl, hlr, hrr, h, rfl⟩
  · exact read_of_made hl hlt hop.ne_void
  · exact read_of_made hr hrt hop.ne_void

/-- **A negation** of a truth value. -/
theorem made_logicalNot {id : ValueId} {range p : ValueRange} (he : X.Made vs e)
    (ht : e.type = X.types.boolTy) (her : e.range = some p) (h : p.logicalNot = .ok range)
    (hid : id ≠ .unread) :
    X.Made vs (.logicalNot ⟨id, X.types.boolTy, some range⟩ e) := by
  have hvoid : X.types.bool.kind ≠ .void := ScalarKind.noConfusion
  have hof : p.Of X.types.bool := Setting.range_of_obeys he.obeys ht hvoid her
  refine ⟨⟨⟨(X.plain_boolTy).known, ?_, ⟨rfl, ht⟩, ⟨p, range, her, h, rfl⟩, ?_⟩, he.obeys⟩,
    .of_flags rfl fun _ => hid⟩
  · exact (Ty.admits_some rfl hvoid).2 ⟨range, rfl, (ValueRange.logicalNot_ok rfl hof h).1⟩
  · exact read_of_made he ht hvoid

/-- **A call** of a function of the module. -/
theorem made_call {symbol : String} {id : ValueId} {range : Option ValueRange}
    (hargs : ∀ e ∈ arguments, X.Made vs e)
    (hcall : X.callable symbol (arguments.map TypedExpr.type) result)
    (hrange : result.fullRange = .ok range) (hid : result.isVoid = false → id ≠ .unread) :
    X.Made vs (.call ⟨id, result, range⟩ symbol arguments) := by
  have hresult : X.Plain result := (X.plain_of_callable _ _ _ hcall).2
  refine ⟨⟨⟨hresult.known, hresult.known.admits_fullRange hrange, hcall, hrange, ?_⟩,
    TypedExpr.obeysAll_iff.2 fun e he => (hargs e he).obeys⟩, .of_flags hresult.flags hid⟩
  intro e he hvoid
  exact (hargs e he).live.read (.inl hvoid)

/-- **An overload applied to arguments of its parameter types** is well made. -/
theorem Proper.apply (hp : env.Proper X vs s) (ho : X.Offers o)
    (hsig : o.type = .arrow parameters result) (hargs : ∀ e ∈ arguments, X.Made vs e)
    (htypes : arguments.map TypedExpr.type = parameters)
    (h : env.apply o parameters result arguments s = .ok ((e, none), s')) :
    X.Extends vs s s' (TypedExpr.eventsAll arguments) e := by
  obtain ⟨node, range, id, rfl, hid, hkind⟩ := apply_ok h
  have hread : result.isVoid = false → id ≠ .unread :=
    Fresh.ne_unread_of_drawUnless hp.positive hid
  have hlen : arguments.length = parameters.length := by rw [← htypes, List.length_map]
  unfold Setting.Offers at ho
  split at ho
  · -- a function of the module
    rename_i symbol hk
    rw [hk] at hkind
    obtain ⟨rfl, hrange, -⟩ := hkind
    obtain ⟨as, r, htype, hcall⟩ := ho
    rw [hsig] at htype
    cases htype
    rw [← htypes] at hcall
    exact ⟨made_call hargs hcall hrange hread, _, rfl, .valueUnless hid rfl rfl⟩
  · -- an operation on two operands
    rename_i op hk
    rw [hk] at hkind
    obtain ⟨q, rfl, hrange, hnode⟩ := hkind
    obtain ⟨a, hop, htype⟩ := ho
    rw [hsig] at htype
    cases htype
    obtain ⟨l, r, rfl, hlt, hrt⟩ : ∃ l r, arguments = [l, r] ∧ l.type = .ofScalar a ∧
        r.type = .ofScalar a := by
      obtain ⟨l, r, rfl⟩ := List.length_eq_two.1 hlen
      simp only [List.map_cons, List.map_nil, List.cons.injEq, and_true] at htypes
      exact ⟨l, r, rfl, htypes⟩
    cases hnode
    have hl := hargs l (by simp)
    have hr := hargs r (by simp)
    obtain ⟨lr, hlr, -⟩ := range_of_made hl hlt hop.ne_void
    obtain ⟨rr, hrr, -⟩ := range_of_made hr hrt hop.ne_void
    have hq := operatorRange_ok [lr, rr] rfl hlen (by simp [hlr, hrr]) hrange
    have hvoid : (Ty.ofScalar (op.resultScalar X.types a)).isVoid = false := by
      simpa [Ty.isVoid, Ty.ofScalar, Ty.asScalar?] using hop.result_ne_void
    refine ⟨made_binary hop hl hr hlt hrt hlr hrr hq (hread hvoid),
      [.binary id op l.holder r.holder (.ofScalar (op.resultScalar X.types a))], ?_,
      .valueUnless hid rfl rfl⟩
    simp only [TypedExpr.events, TypedExpr.eventsAll, List.append_nil]
  · -- a negation
    rename_i hk
    rw [hk] at hkind
    obtain ⟨q, rfl, hrange, hnode⟩ := hkind
    rw [hsig] at ho
    cases ho
    obtain ⟨a, rfl, hat⟩ : ∃ a, arguments = [a] ∧ a.type = X.types.boolTy := by
      obtain ⟨a, rfl⟩ := List.length_eq_one_iff.1 hlen
      simp only [List.map_cons, List.map_nil, List.cons.injEq, and_true] at htypes
      exact ⟨a, rfl, htypes⟩
    cases hnode
    have ha := hargs a (by simp)
    obtain ⟨ar, har, -⟩ := range_of_made ha hat ScalarKind.noConfusion
    have hq := operatorRange_ok [ar] rfl hlen (by simp [har]) hrange
    refine ⟨made_logicalNot ha hat har (Outcome.ofInternal_ok hq) (hread rfl),
      [.logicalNot id a.holder], ?_, .valueUnless hid rfl rfl⟩
    simp only [TypedExpr.events, TypedExpr.eventsAll, List.append_nil]

/-! ### Trying and choosing -/

/-- The signature of an offered overload, and that its types are plain. -/
theorem signature_of_offers (ho : X.Offers o)
    (h : o.signature env.structs = .ok (parameters, result)) :
    o.type = .arrow parameters result ∧ (∀ t ∈ parameters, X.Plain t) ∧ X.Plain result := by
  have hfunction : o.type.asFunction? = some (parameters, result) := by
    unfold Overload.signature at h
    split at h
    · rename_i signature hs
      cases h
      exact hs
    · cases h
  unfold Setting.Offers at ho
  split at ho
  · obtain ⟨as, r, htype, hcall⟩ := ho
    rw [htype] at hfunction ⊢
    cases hfunction
    obtain ⟨has, hr⟩ := X.plain_of_callable _ _ _ hcall
    exact ⟨rfl, has, hr⟩
  · obtain ⟨a, hop, htype⟩ := ho
    rw [htype] at hfunction ⊢
    cases hfunction
    have ha := Setting.plain_ofScalar hop.mem_all
    exact ⟨rfl, by simpa using ha, Setting.plain_ofScalar hop.result_mem_all⟩
  · rw [ho] at hfunction ⊢
    cases hfunction
    exact ⟨rfl, by simpa using X.plain_boolTy, X.plain_boolTy⟩

/-- **An overload that is tried** draws identities; if nothing in it is undefined, it makes a good
expression of the operands. -/
theorem Proper.candidate {c : Candidate} (hp : env.Proper X vs s) (ho : X.Offers o)
    (hsig : o.signature env.structs = .ok (parameters, result))
    (hos : ∀ o ∈ operands, o.Made X vs) (hlen : parameters.length = operands.length)
    (hhint : ∀ t, hint = some t → X.Plain t)
    (h : env.candidate budget o parameters result operands hint location s = .ok (c, s')) :
    s.Grew s' ∧ (c.undefined = none →
      X.Consumes vs s s' (operands.flatMap Operand.events) c.expression) := by
  obtain ⟨htype, hps, hresult⟩ := signature_of_offers ho hsig
  obtain ⟨⟨arguments, b⟩, s₁, hcoerce, h⟩ := Analysis.bind_ok h
  obtain ⟨⟨applied, undefined⟩, s₂, happly, h⟩ := Analysis.bind_ok h
  obtain ⟨hargs, htypes, extra, hperm, hdrew⟩ := hp.coerceAll hos hps hlen hcoerce
  -- undefined behaviour does not end the trial: it is the selection that refuses such a winner
  have happlied : undefined = none →
      X.Consumes vs s s₂ (operands.flatMap Operand.events) applied := by
    rintro rfl
    have hext := (hp.mono hdrew.grew).apply ho htype hargs htypes happly
    obtain ⟨own, hown, hdown⟩ := hext.grown
    refine ⟨hext.made, extra ++ own, ?_, hdrew.append hdown⟩
    rw [hown, ← List.append_assoc]
    exact hperm.append_right own
  have hgrew := hdrew.grew.trans (grew_apply happly)
  cases hint with
  | none =>
    cases h
    exact ⟨hgrew, happlied⟩
  | some t =>
    obtain ⟨⟨e, b'⟩, s₃, hconvert, h⟩ := Analysis.bind_ok h
    cases h
    refine ⟨hgrew.trans (grew_convert hconvert), fun hundefined => ?_⟩
    have hmade := happlied hundefined
    exact hmade.trans ((hp.mono hgrew).convert hmade.made (hhint t rfl) hconvert).1

/-- Every candidate comes of an overload that was tried on the way. -/
theorem Proper.candidates {overloads : List Overload} {viable : List Candidate}
    {failures : List Diagnostic} (hp : env.Proper X vs s) (ho : ∀ o ∈ overloads, X.Offers o)
    (hos : ∀ o ∈ operands, o.Made X vs) (hhint : ∀ t, hint = some t → X.Plain t)
    (h : env.candidates budget operands hint location overloads s = .ok ((viable, failures), s')) :
    s.Grew s' ∧ ∀ c ∈ viable, c.undefined = none →
      X.Consumes vs s s' (operands.flatMap Operand.events) c.expression := by
  induction overloads generalizing s viable failures with
  | nil =>
    cases h
    exact ⟨.refl _, fun c hc => absurd hc List.not_mem_nil⟩
  | cons o rest ih =>
    have hrest : ∀ o ∈ rest, X.Offers o := fun o' ho' => ho o' (List.mem_cons_of_mem _ ho')
    obtain ⟨⟨parameters, result⟩, t, hlift, h⟩ := Analysis.bind_ok h
    obtain ⟨hsig, rfl⟩ := Analysis.liftInternal_ok hlift
    dsimp only at h
    split at h
    · exact ih hp hrest h
    · rename_i hlen
      have hlen : parameters.length = operands.length := by simpa using hlen
      obtain ⟨tried, s₁, htried, hnext⟩ := Analysis.bind_ok h
      rcases Analysis.attempt_ok htried with ⟨c, rfl, hc⟩ | ⟨d, rfl, rfl⟩
      · -- the overload can be used
        obtain ⟨⟨viable', failures'⟩, s₂, hviable, hnext⟩ := Analysis.bind_ok hnext
        cases hnext
        obtain ⟨hgrew, hcons⟩ :=
          hp.candidate (ho o (List.mem_cons_self ..)) hsig hos hlen hhint hc
        obtain ⟨hgrew', hothers⟩ := ih (hp.mono hgrew) hrest hviable
        refine ⟨hgrew.trans hgrew', fun c' hc' hundefined => ?_⟩
        rcases List.mem_cons.1 hc' with rfl | hc'
        · exact (hcons hundefined).mono (.refl _) hgrew'
        · exact (hothers c' hc' hundefined).mono hgrew (.refl _)
      · -- an ambiguous conversion ends the search, any other failure is kept and the next one tried
        dsimp only at hnext
        split at hnext
        · exact (Analysis.fail_ok hnext).elim
        · obtain ⟨⟨viable', failures'⟩, s₂, hviable, hnext⟩ := Analysis.bind_ok hnext
          cases hnext
          exact ih hp hrest hviable

/-- **The chosen overload** makes a good expression of the operands. -/
theorem Proper.select {name : String} {overloads : List Overload} (hp : env.Proper X vs s)
    (ho : ∀ o ∈ overloads, X.Offers o) (hos : ∀ o ∈ operands, o.Made X vs)
    (hhint : ∀ t, hint = some t → X.Plain t)
    (h : env.select budget name overloads operands hint location s = .ok ((e, budget'), s')) :
    X.Consumes vs s s' (operands.flatMap Operand.events) e := by
  obtain ⟨⟨viable, failures⟩, s₁, hviable, h⟩ := Analysis.bind_ok h
  obtain ⟨-, hcons⟩ := hp.candidates ho hos hhint hviable
  dsimp only at h
  split at h
  · exact (Analysis.fail_ok h).elim
  · exact (Analysis.fail_ok h).elim
  · cases hcheapest : cheapest viable with
    | nil =>
      rw [hcheapest] at h
      exact (Analysis.broken_ok h).elim
    | cons winner others =>
      rw [hcheapest] at h
      cases others with
      | cons _ _ => exact (Analysis.fail_ok h).elim
      -- a single winner is a candidate, and those were looked at above
      | nil =>
        have hwinner : winner ∈ cheapest viable := hcheapest ▸ List.mem_cons_self ..
        obtain ⟨b, s₂, hcharge, h⟩ := Analysis.bind_ok h
        obtain ⟨-, -, rfl⟩ := Budget.charge_ok hcharge
        cases hundefined : winner.undefined with
        | some u =>
          rw [hundefined] at h
          exact (Analysis.fail_ok h).elim
        | none =>
          rw [hundefined] at h
          cases h
          exact hcons winner (List.mem_filter.1 hwinner).1 hundefined

end Env

end RangeTyping
