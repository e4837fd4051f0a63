import Mathlib
import RangeTyping.Proofs.Analysis.Unambiguous
import RangeTyping.Proofs.Intact.Body
import RangeTyping.Proofs.Renaming.Conversion

/-!
# Overloads in two runs

On the same budget, trying one overload goes the same way in both runs (`Env.Parallel.candidate`).
The order in which overloads are tried may differ, and with it the identities from which a trial
starts; but the verdict on an overload, and the weight at which it can be used, do not depend on
these (`Env.Parallel.verdict_eq`).

A run that has more to spend may find more overloads usable, but only at weights that the other
could not pay (`Env.verdict_lower`).  The cheapest overload is found from the verdicts alone, so a
choice that the first run makes is made by the second as well (`Env.Parallel.select`).
-/

namespace RangeTyping

/-! ### Several expressions -/

theorem Renaming.exprs_eq_map (r : Renaming) (es : List TypedExpr) :
    r.exprs es = es.map r.expr := by
  induction es with
  | nil => rfl
  | cons e es ih => rw [exprs, ih, List.map_cons]

namespace Link

variable {L L' : Link} {s t : Fresh} {es es' : List TypedExpr}

theorem Same.cons {e e' : TypedExpr} (he : L.Same Renaming.expr e e')
    (hes : L.Same Renaming.exprs es es') : L.Same Renaming.exprs (e :: es) (e' :: es') := by
  intro r hr
  rw [Renaming.exprs, ← he r hr, ← hes r hr]

/-- Expressions that are the same one by one. -/
theorem Same.forall₂ (h : L.Same Renaming.exprs es es') (hfits : L.Fits s t) :
    List.Forall₂ (L.Same Renaming.expr) es es' := by
  obtain ⟨r₀, hr₀, -⟩ := hfits.exists_follows
  have heq := h r₀ hr₀
  rw [Renaming.exprs_eq_map] at heq
  subst heq
  rw [List.forall₂_map_right_iff, List.forall₂_same]
  intro e he r hr
  have hmap := h r hr
  rw [Renaming.exprs_eq_map] at hmap
  exact List.map_inj_left.1 hmap e he

end Link

/-- Candidates that stand for each other. -/
structure Candidate.Matches (L : Link) (c c' : Candidate) : Prop where
  expression : L.Same Renaming.expr c.expression c'.expression
  weight : c'.weight = c.weight
  undefined : c'.undefined = c.undefined

namespace Overload

variable {ρ : StructId → StructId} {o : Overload}

theorem signature_renumber {parameters : List Ty} {result : Ty} (S : StructStore)
    (htype : o.type = .arrow parameters result) :
    (o.renumber ρ).signature S = .ok (parameters.map (Ty.renumber ρ), result.renumber ρ) := by
  rw [signature, renumber, htype]
  dsimp only
  rw [Ty.renumber_arrow]
  rfl

end Overload

namespace Env

variable {X Y : Setting} {L : Link} {vs ws : List Variable} {s s' t t' : Fresh} {env env' : Env}
  {budget : Budget} {location : Location} {o : Overload} {parameters : List Ty} {result : Ty}
  {arguments arguments' : List TypedExpr} {operands operands' : List Operand} {hint : Option Ty}

/-! ### Trying one overload -/

namespace Parallel

/-- **The operands become the same arguments in both runs.** -/
theorem coerceAll (h : env.Parallel X Y L vs ws s t env')
    (hos : List.Forall₂ (Operand.Matches L) operands operands')
    (hmade : ∀ o ∈ operands, o.Made X vs) (hmade' : ∀ o ∈ operands', o.Made Y ws)
    (hps : ∀ t ∈ parameters, X.Plain t) :
    L.Agrees (Link.Spends fun L' => L'.Same Renaming.exprs)
      (env.coerceAll location budget operands parameters s)
      (env'.coerceAll location budget operands' (parameters.map (Ty.renumber L.struct)) t) := by
  induction operands generalizing operands' parameters budget s t L with
  | nil =>
    cases hos
    exact .pure h.fits ⟨fun _ _ => rfl, rfl⟩
  | cons o os ih =>
    obtain ⟨o', os', ho, hrest, rfl⟩ := List.forall₂_cons_left_iff.1 hos
    cases parameters with
    | nil => exact .pure h.fits ⟨fun _ _ => rfl, rfl⟩
    | cons u us =>
      rw [List.forall_mem_cons] at hmade hmade' hps
      refine (h.coerce ho hmade.1 hps.1).spend fun e e' b s₁ t₁ L₁ hx hy hL₁ hfits₁ hsame => ?_
      have hleft := h.left.coerce hmade.1 hps.1 hx
      have hright := h.right.coerce hmade'.1 (h.renumbers.plain hps.1) hy
      have h₁ := h.advance hL₁ hfits₁ hleft.1.grew hright.1.grew
      rw [← hL₁.struct]
      refine (ih h₁ (hrest.imp fun _ _ hmatch => hmatch.mono hL₁) hmade.2 hmade'.2 hps.2).spend
        fun es es' b s₂ t₂ L₂ _ _ hL₂ hfits₂ hes => ?_
      exact .pure hfits₂ ⟨(hsame.mono hL₂).cons hes, rfl⟩

end Parallel

/-- The range rule of an operator sees the same ranges in both runs. -/
theorem operatorRange_congr {operator : String} {op : BuiltinOperator} {ranges : List ValueRange}
    (ρ : StructId → StructId) (hlen : arguments.length = parameters.length)
    (hranges : arguments.map TypedExpr.range = ranges.map some)
    (hranges' : arguments'.map TypedExpr.range = arguments.map TypedExpr.range) (a : Scalar) :
    env'.operatorRange operator op (.ofScalar a) arguments' (parameters.map (Ty.renumber ρ)) =
      env.operatorRange operator op (.ofScalar a) arguments parameters := by
  have hlen' : arguments'.length = (parameters.map (Ty.renumber ρ)).length := by
    rw [List.length_map, ← hlen, ← List.length_map (f := TypedExpr.range), hranges',
      List.length_map]
  simp only [operatorRange, operandRanges_eq hlen hranges,
    operandRanges_eq hlen' (hranges'.trans hranges)]
  rfl

theorem agrees_operatorNode {operator : String} {op : BuiltinOperator} (hfits : L.Fits s t)
    (hsame : List.Forall₂ (L.Same Renaming.expr) arguments arguments') :
    L.Agrees (fun L' node node' => ∀ r : Renaming, r.Follows L' → ∀ i,
        node' (r.info i) = r.expr (node i))
      ((liftM (operatorNode operator op arguments) : Analysis (ValueInfo → TypedExpr)) s)
      ((liftM (operatorNode operator op arguments') : Analysis (ValueInfo → TypedExpr)) t) := by
  cases op with
  | binary op =>
    rcases hsame with _ | ⟨hl, _ | ⟨hr, _ | ⟨hthird, hrest⟩⟩⟩
    case cons.cons.nil =>
      refine .ok ⟨L, .refl L, hfits, fun r hr' i => ?_⟩
      rw [Renaming.expr, ← hl r hr', ← hr r hr']
    all_goals exact .internal _ _
  | logicalNot =>
    rcases hsame with _ | ⟨he, _ | ⟨hsecond, hrest⟩⟩
    case cons.nil =>
      refine .ok ⟨L, .refl L, hfits, fun r hr i => ?_⟩
      rw [Renaming.expr, ← he r hr]
    all_goals exact .internal _ _

/-- The arguments of a builtin operator have ranges, and its result is a scalar. -/
theorem ranges_of_offers {op : BuiltinOperator} (ho : X.Offers o) (hk : o.kind = .builtin op)
    (hsig : o.type = .arrow parameters result) (hargs : ∀ e ∈ arguments, X.Made vs e)
    (htypes : arguments.map TypedExpr.type = parameters) :
    (∃ ranges : List ValueRange, arguments.map TypedExpr.range = ranges.map some) ∧
      ∃ a, result = .ofScalar a := by
  have hranges : (∀ u ∈ parameters, ∃ a, u = .ofScalar a ∧ a.kind ≠ .void) →
      ∃ ranges : List ValueRange, arguments.map TypedExpr.range = ranges.map some := by
    intro hscalar
    have hsome : ∀ e ∈ arguments, ∃ r, e.range = some r := by
      intro e he
      obtain ⟨a, ha, hvoid⟩ := hscalar e.type (htypes ▸ List.mem_map_of_mem he)
      obtain ⟨r, hr, -⟩ := range_of_made (hargs e he) ha hvoid
      exact ⟨r, hr⟩
    choose f hf using hsome
    exact ⟨arguments.pmap f fun _ he => he, by simp [List.map_pmap, ← hf]⟩
  unfold Setting.Offers at ho
  rw [hk] at ho
  cases op with
  | binary op =>
    obtain ⟨a, hop, htype⟩ := ho
    rw [hsig] at htype
    cases htype
    have hscalar : ∃ b, Ty.ofScalar a = .ofScalar b ∧ b.kind ≠ .void := ⟨a, rfl, hop.ne_void⟩
    exact ⟨hranges (by simpa using hscalar), _, rfl⟩
  | logicalNot =>
    have htype : o.type = .arrow [X.types.boolTy] X.types.boolTy := ho
    rw [hsig] at htype
    cases htype
    have hscalar : ∃ b, X.types.boolTy = .ofScalar b ∧ b.kind ≠ .void :=
      ⟨X.types.bool, rfl, ScalarKind.noConfusion⟩
    exact ⟨hranges (by simpa using hscalar), _, rfl⟩

namespace Parallel

/-- **An overload is applied in the same way in both runs.** -/
theorem apply (h : env.Parallel X Y L vs ws s t env') (ho : X.Offers o)
    (hsig : o.type = .arrow parameters result) (hargs : ∀ e ∈ arguments, X.Made vs e)
    (htypes : arguments.map TypedExpr.type = parameters)
    (hsame : L.Same Renaming.exprs arguments arguments') :
    L.Agrees (fun L' x y => L'.Same Renaming.expr x.1 y.1 ∧ y.2 = x.2)
      (env.apply o parameters result arguments s)
      (env'.apply (o.renumber L.struct) (parameters.map (Ty.renumber L.struct))
        (result.renumber L.struct) arguments' t) := by
  have hkind : (o.renumber L.struct).kind = o.kind := rfl
  have hname : (o.renumber L.struct).name = o.name := rfl
  unfold Env.apply
  rw [hkind, hname]
  cases hk : o.kind with
  | user symbol =>
    rw [Ty.fullRange_renumber]
    refine (Link.Agrees.liftInternal h.fits).bind fun range _ s₁ t₁ L₁ _ _ hL₁ hfits₁ heq => ?_
    subst heq
    refine Link.Agrees.drawUnless hfits₁ (by rw [Ty.isVoid_renumber]) L₁.same_unread
      fun v w s₂ t₂ L₂ hL₂ hfits₂ _ _ hvw => ?_
    refine .pure hfits₂ ⟨fun r hr => ?_, rfl⟩
    have hinfo := hvw.info (u := result) (by rw [(hL₁.trans hL₂).struct]) range
    rw [Renaming.expr, ← hinfo r hr, ← hsame.mono (hL₁.trans hL₂) r hr]
  | builtin op =>
    obtain ⟨⟨ranges, hranges⟩, a, rfl⟩ := ranges_of_offers ho hk hsig hargs htypes
    have hforall := hsame.forall₂ h.fits
    -- the arguments of both runs differ in numbers only
    have hranges' : arguments'.map TypedExpr.range = arguments.map TypedExpr.range := by
      rw [← List.forall₂_eq_eq_eq, List.forall₂_map_right_iff, List.forall₂_map_left_iff]
      exact hforall.flip.imp fun _ _ (hsame : L.Same Renaming.expr _ _) => hsame.range_eq h.fits
    have hlen : arguments.length = parameters.length := by rw [← htypes, List.length_map]
    dsimp only
    rw [Ty.renumber_ofScalar, operatorRange_congr L.struct hlen hranges hranges' a]
    refine (Link.Agrees.liftInternal h.fits).bind fun x _ s₁ t₁ L₁ _ _ hL₁ hfits₁ heq => ?_
    subst heq
    obtain ⟨range, undefined⟩ := x
    refine (agrees_operatorNode hfits₁ (hforall.imp fun _ _ hsame => hsame.mono hL₁)).bind
      fun node node' s₂ t₂ L₂ _ _ hL₂ hfits₂ hnode => ?_
    refine Link.Agrees.drawUnless hfits₂ Iff.rfl L₂.same_unread
      fun v w s₃ t₃ L₃ hL₃ hfits₃ _ _ hvw => ?_
    refine .pure hfits₃ ⟨fun r hr => ?_, rfl⟩
    have hinfo := hvw.info (Ty.renumber_ofScalar a).symm (some range)
    show node' ⟨w, .ofScalar a, some range⟩ = r.expr (node ⟨v, .ofScalar a, some range⟩)
    rw [hinfo r hr, hnode r (hL₃.follows hr)]

/-- **Trying an overload goes the same way in both runs.** -/
theorem candidate (h : env.Parallel X Y L vs ws s t env') (ho : X.Offers o)
    (hsig : o.signature env.structs = .ok (parameters, result))
    (hos : List.Forall₂ (Operand.Matches L) operands operands')
    (hmade : ∀ o ∈ operands, o.Made X vs) (hmade' : ∀ o ∈ operands', o.Made Y ws)
    (hlen : parameters.length = operands.length) (hh : PlainHint X hint) :
    L.Agrees Candidate.Matches
      (env.candidate budget o parameters result operands hint location s)
      (env'.candidate budget (o.renumber L.struct) (parameters.map (Ty.renumber L.struct))
        (result.renumber L.struct) operands' (hint.map (Ty.renumber L.struct)) location t) := by
  obtain ⟨htype, hps, hresult⟩ := signature_of_offers ho hsig
  have hps' : ∀ u ∈ parameters.map (Ty.renumber L.struct), Y.Plain u := by
    rw [List.forall_mem_map]
    exact fun u hu => h.renumbers.plain (hps u hu)
  have hlen' : (parameters.map (Ty.renumber L.struct)).length = operands'.length := by
    rw [List.length_map, hlen, hos.length_eq]
  refine (h.coerceAll hos hmade hmade' hps).spend
    fun arguments arguments' b s₁ t₁ L₁ hx hy hL₁ hfits₁ hsame => ?_
  obtain ⟨hargs, htypes, extra, -, hdrew⟩ := h.left.coerceAll hmade hps hlen hx
  obtain ⟨-, -, extra', -, hdrew'⟩ := h.right.coerceAll hmade' hps' hlen' hy
  have h₁ := h.advance hL₁ hfits₁ hdrew.grew hdrew'.grew
  rw [← hL₁.struct]
  refine (h₁.apply ho htype hargs htypes hsame).bind fun x y s₂ t₂ L₂ hx hy hL₂ hfits₂ hxy => ?_
  obtain ⟨applied, undefined⟩ := x
  obtain ⟨applied', undefined'⟩ := y
  obtain ⟨hsame : L₂.Same Renaming.expr applied applied', (rfl : undefined' = undefined)⟩ := hxy
  cases hint with
  | none => exact .pure hfits₂ ⟨hsame, rfl, rfl⟩
  | some u =>
    have h₂ := h₁.advance hL₂ hfits₂ (grew_apply hx) (grew_apply hy)
    have hknown : X.Known applied.type := by
      rw [type_apply hx]
      exact hresult.known
    rw [← hL₂.struct]
    refine (h₂.convert hsame hknown (hh u rfl)).spend fun e e' b s₃ t₃ L₃ _ _ _ hfits₃ hsame => ?_
    exact .pure hfits₃ ⟨hsame, rfl, rfl⟩

end Parallel

/-! ### Least weights -/

section Least

variable {α β : Type} {w : α → Weight} {l l' : List α}

/-- The members of least weight. -/
def least (w : α → Weight) (l : List α) : List α := l.filter fun a => l.all (w a ≤ w ·)

theorem least_perm (h : l.Perm l') : (least w l).Perm (least w l') := by
  have hall : (fun a => l.all (w a ≤ w ·)) = fun a => l'.all (w a ≤ w ·) := by
    funext a
    exact h.all_eq
  rw [least, least, ← hall]
  exact h.filter _

theorem least_map (f : β → α) (l : List β) :
    least w (l.map f) = (least (fun b => w (f b)) l).map f := by
  rw [least, least, List.filter_map]
  simp only [List.all_map, Function.comp_def]

theorem mem_least {a : α} : a ∈ least w l ↔ a ∈ l ∧ ∀ b ∈ l, w a ≤ w b := by
  rw [least, List.mem_filter, List.all_eq_true]
  simp only [decide_eq_true_eq]

theorem least_congr {v : α → Weight} (h : ∀ a ∈ l, v a = w a) : least v l = least w l := by
  refine List.filter_congr fun a ha => ?_
  rw [Bool.eq_iff_iff, List.all_eq_true, List.all_eq_true]
  exact forall₂_congr fun b hb => by rw [h a ha, h b hb]

/-- **More to choose from at higher weights** changes nothing about the choice. -/
theorem least_filter_congr {v : α → Weight} {p q : α → Bool} {a₀ : α} {bound : Weight}
    (hpq : ∀ a ∈ l, p a = true → q a = true ∧ v a = w a)
    (hqp : ∀ a ∈ l, q a = true → v a ≤ bound → p a = true)
    (ha₀ : a₀ ∈ l.filter p) (hbound : w a₀ ≤ bound) :
    least v (l.filter q) = least w (l.filter p) := by
  obtain ⟨hmem₀, hp₀⟩ := List.mem_filter.1 ha₀
  rw [least, least, List.filter_filter, List.filter_filter]
  refine List.filter_congr fun a ha => ?_
  rw [Bool.eq_iff_iff, Bool.and_eq_true, Bool.and_eq_true, List.all_eq_true, List.all_eq_true]
  simp only [List.mem_filter, decide_eq_true_eq, and_imp]
  constructor
  · rintro ⟨hleast, hqa⟩
    -- what is least is at most as heavy as `a₀`
    obtain ⟨hq₀, hv₀⟩ := hpq a₀ hmem₀ hp₀
    have hpa := hqp a ha hqa ((hleast a₀ hmem₀ hq₀).trans (hv₀ ▸ hbound))
    refine ⟨fun b hb hpb => ?_, hpa⟩
    obtain ⟨hqb, hvb⟩ := hpq b hb hpb
    rw [← (hpq a ha hpa).2, ← hvb]
    exact hleast b hb hqb
  · rintro ⟨hleast, hpa⟩
    obtain ⟨hqa, hva⟩ := hpq a ha hpa
    refine ⟨fun b hb hqb => ?_, hqa⟩
    rw [hva]
    by_cases hlow : v b ≤ bound
    · have hpb := hqp b hb hqb hlow
      rw [(hpq b hb hpb).2]
      exact hleast b hb hpb
    · exact (hleast a₀ hmem₀ hp₀).trans (hbound.trans (not_le.1 hlow).le)

/-- The cheapest candidates come of the overloads of least weight. -/
theorem forall₂_cheapest {R : α → Candidate → Prop} {viable : List Candidate}
    (h : List.Forall₂ (fun a c => R a c ∧ w a = c.weight) l viable) :
    List.Forall₂ (fun a c => R a c ∧ w a = c.weight) (least w l) (cheapest viable) := by
  have hweights : l.map w = viable.map Candidate.weight := by
    rw [← List.forall₂_eq_eq_eq, List.forall₂_map_right_iff, List.forall₂_map_left_iff]
    exact h.imp fun _ _ hR => hR.2
  refine List.rel_filter ?_ h
  intro a c hR
  have hall : l.all (w a ≤ w ·) = viable.all (c.weight ≤ ·.weight) := by
    have hmap := congrArg (fun ws => ws.all (c.weight ≤ ·)) hweights
    simpa only [List.all_map, Function.comp_def, hR.2] using hmap
  exact Bool.eq_iff_iff.1 hall

end Least

/-! ### Verdicts -/

/-- What a trial says about an overload. -/
inductive Verdict where
  | skipped
  | usable (weight : Weight)
  | refused
  | broken

namespace Verdict

/-- The verdict after the end of a trial. -/
def ofTrial : Outcome Diagnostic (Candidate × Fresh) → Verdict
  | .ok (c, _) => .usable c.weight
  | .error (.error _) => .refused
  | .error (.internal _) => .broken

/-- Whether the overload can be used. -/
def isUsable : Verdict → Bool
  | usable _ => true
  | _ => false

/-- The weight at which the overload can be used. -/
def weight : Verdict → Weight
  | usable w => w
  | _ => 0

theorem isUsable_iff {v : Verdict} : v.isUsable = true ↔ v = .usable v.weight := by
  cases v <;> simp [isUsable, weight]

theorem ofTrial_eq {x y : Outcome Diagnostic (Candidate × Fresh)}
    (h : L.Agrees Candidate.Matches x y) : ofTrial y = ofTrial x := by
  cases h with
  | ok h =>
    obtain ⟨_, _, _, hmatch⟩ := h
    exact congrArg usable hmatch.weight
  | fail h => rfl
  | internal i j => rfl

theorem of_ofTrial_eq_usable {x : Outcome Diagnostic (Candidate × Fresh)} {w : Weight}
    (h : ofTrial x = .usable w) : ∃ c s, x = .ok (c, s) ∧ c.weight = w := by
  cases x with
  | ok p => exact ⟨p.1, p.2, rfl, Verdict.usable.inj h⟩
  | error e => cases e <;> cases h

end Verdict

/-- The verdict on an overload that is tried now. -/
def verdict (env : Env) (budget : Budget) (operands : List Operand) (hint : Option Ty)
    (location : Location) (s : Fresh) (o : Overload) : Verdict :=
  match o.signature env.structs with
  | .ok (parameters, result) =>
    if parameters.length = operands.length then
      .ofTrial
        (env.candidate (.ofLimit budget.remaining) o parameters result operands hint location s)
    else .skipped
  | .error _ => .broken

theorem verdict_of_signature (hsig : o.signature env.structs = .ok (parameters, result)) :
    env.verdict budget operands hint location s o =
      if parameters.length = operands.length then
        .ofTrial (env.candidate (.ofLimit budget.remaining) o parameters result operands hint
          location s)
      else .skipped := by
  rw [verdict, hsig]

/-- What a usable overload was found by. -/
theorem candidate_of_verdict {w : Weight}
    (h : env.verdict budget operands hint location s o = .usable w) :
    ∃ parameters result c s', o.signature env.structs = .ok (parameters, result) ∧
      parameters.length = operands.length ∧ c.weight = w ∧
      env.candidate (.ofLimit budget.remaining) o parameters result operands hint location s =
        .ok (c, s') := by
  unfold verdict at h
  split at h
  · rename_i parameters result hsig
    split at h
    · rename_i hlen
      obtain ⟨c, s', hc, hw⟩ := Verdict.of_ofTrial_eq_usable h
      exact ⟨parameters, result, c, s', hsig, hlen, hw, hc⟩
    · cases h
  · cases h

theorem verdict_of_candidate {c : Candidate}
    (hsig : o.signature env.structs = .ok (parameters, result))
    (hlen : parameters.length = operands.length)
    (hc : env.candidate (.ofLimit budget.remaining) o parameters result operands hint location s =
      .ok (c, s')) : env.verdict budget operands hint location s o = .usable c.weight := by
  rw [verdict_of_signature hsig, if_pos hlen, hc]
  rfl

/-- What can be used can be used on a raised budget. -/
theorem verdict_raise {budget' : Budget} {w : Weight} (hb : budget.RaisedTo budget')
    (h : env.verdict budget operands hint location s o = .usable w) :
    env.verdict budget' operands hint location s o = .usable w := by
  obtain ⟨parameters, result, c, s', hsig, hlen, rfl, hc⟩ := candidate_of_verdict h
  exact verdict_of_candidate hsig hlen (candidate_raise hb.ofRemaining hc)

/-- What can be used on a raised budget can be used if the first one pays for it. -/
theorem verdict_lower {budget' : Budget} {w : Weight} (hb : budget.RaisedTo budget')
    (h : env.verdict budget' operands hint location s o = .usable w)
    (hpays : w ≤ budget.remaining) :
    env.verdict budget operands hint location s o = .usable w := by
  obtain ⟨parameters, result, c, s', hsig, hlen, rfl, hc⟩ := candidate_of_verdict h
  exact verdict_of_candidate hsig hlen (candidate_lower hb.ofRemaining hc hpays)

/-- What can be used can be paid for. -/
theorem weight_le_of_verdict {budget' : Budget} {w : Weight} (hb : budget.Within budget')
    (h : env.verdict budget operands hint location s o = .usable w) : w ≤ budget.remaining := by
  obtain ⟨parameters, result, c, s', hsig, hlen, rfl, hc⟩ := candidate_of_verdict h
  exact weight_le_of_candidate hb.ofRemaining.left hc

/-- **A raised budget leaves the overloads of least weight what they are**, if there are any. -/
theorem least_verdict_raise {budget' : Budget} {overloads : List Overload}
    (hb : budget.RaisedTo budget')
    (hmem : o ∈ overloads.filter fun o => (env.verdict budget operands hint location s o).isUsable) :
    least (fun o => (env.verdict budget' operands hint location s o).weight)
        (overloads.filter fun o => (env.verdict budget' operands hint location s o).isUsable) =
      least (fun o => (env.verdict budget operands hint location s o).weight)
        (overloads.filter fun o => (env.verdict budget operands hint location s o).isUsable) := by
  rcases hb with rfl | hb
  · rfl
  · have husable := Verdict.isUsable_iff.1 (List.mem_filter.1 hmem).2
    refine least_filter_congr (fun a _ ha => ?_) (fun a _ ha hle => ?_) hmem
      (weight_le_of_verdict hb husable)
    · rw [verdict_raise (.inr hb) (Verdict.isUsable_iff.1 ha)]
      exact ⟨rfl, rfl⟩
    · rw [verdict_lower (.inr hb) (Verdict.isUsable_iff.1 ha) hle]
      rfl

/-- **Both runs come to the same verdict** on the same budget. -/
theorem Parallel.verdict_eq (h : env.Parallel X Y L vs ws s t env') (ho : X.Offers o)
    (hos : List.Forall₂ (Operand.Matches L) operands operands')
    (hmade : ∀ o ∈ operands, o.Made X vs) (hmade' : ∀ o ∈ operands', o.Made Y ws)
    (hh : PlainHint X hint) :
    env'.verdict budget operands' (hint.map (Ty.renumber L.struct)) location t
        (o.renumber L.struct) = env.verdict budget operands hint location s o := by
  obtain ⟨⟨parameters, result⟩, hsig⟩ := signature_total ho env.structs
  have htype := (signature_of_offers ho hsig).1
  rw [verdict_of_signature hsig, verdict_of_signature (Overload.signature_renumber _ htype),
    List.length_map, ← hos.length_eq]
  by_cases hlen : parameters.length = operands.length
  · rw [if_pos hlen, if_pos hlen]
    exact Verdict.ofTrial_eq (h.candidate ho hsig hos hmade hmade' hlen hh)
  · rw [if_neg hlen, if_neg hlen]

/-- The candidate was found by a trial of the overload that began after `s` and ended before
`s'`. -/
def Tried (env : Env) (budget : Budget) (operands : List Operand) (hint : Option Ty)
    (location : Location) (s s' : Fresh) (o : Overload) (c : Candidate) : Prop :=
  ∃ parameters result u u', o.signature env.structs = .ok (parameters, result) ∧
    parameters.length = operands.length ∧ s.Grew u ∧ u'.Grew s' ∧
    env.candidate (.ofLimit budget.remaining) o parameters result operands hint location u =
      .ok (c, u')

theorem Tried.mono {s₁ s₁' : Fresh} {c : Candidate}
    (h : env.Tried budget operands hint location s s' o c) (hs : s₁.Grew s) (hs' : s'.Grew s₁') :
    env.Tried budget operands hint location s₁ s₁' o c := by
  obtain ⟨parameters, result, u, u', hsig, hlen, hu, hu', hc⟩ := h
  exact ⟨parameters, result, u, u', hsig, hlen, hs.trans hu, hu'.trans hs', hc⟩

/-- **What the verdicts make of the trials**: the usable overloads are found, in order. -/
structure Decided (env : Env) (budget : Budget) (operands : List Operand) (hint : Option Ty)
    (location : Location) (K : Overload → Verdict) (s : Fresh) (overloads : List Overload)
    (viable : List Candidate) (s' : Fresh) : Prop where
  grew : s.Grew s'
  tried : List.Forall₂ (fun o c => env.Tried budget operands hint location s s' o c ∧
    (K o).weight = c.weight) (overloads.filter fun o => (K o).isUsable) viable

namespace Decided

variable {K : Overload → Verdict} {rest : List Overload} {viable : List Candidate}

/-- An overload that is not used. -/
theorem skip (h : env.Decided budget operands hint location K s rest viable s')
    (hK : (K o).isUsable = false) :
    env.Decided budget operands hint location K s (o :: rest) viable s' := by
  refine ⟨h.grew, ?_⟩
  rw [List.filter_cons_of_neg (by simp [hK])]
  exact h.tried

/-- An overload that can be used. -/
theorem use {c : Candidate} {s₁ : Fresh} (hgrew : s.Grew s₁)
    (h : env.Decided budget operands hint location K s₁ rest viable s')
    (hsig : o.signature env.structs = .ok (parameters, result))
    (hlen : parameters.length = operands.length)
    (hc : env.candidate (.ofLimit budget.remaining) o parameters result operands hint location s =
      .ok (c, s₁)) (hK : K o = .usable c.weight) :
    env.Decided budget operands hint location K s (o :: rest) (c :: viable) s' := by
  refine ⟨hgrew.trans h.grew, ?_⟩
  rw [List.filter_cons_of_pos (by simp [hK, Verdict.isUsable])]
  refine .cons ⟨⟨parameters, result, s, s₁, hsig, hlen, .refl s, h.grew, hc⟩, ?_⟩ ?_
  · rw [hK]
    rfl
  · exact h.tried.imp fun _ _ htried => ⟨htried.1.mono hgrew (.refl _), htried.2⟩

end Decided

/-- **The trials are decided by the verdicts**, if these do not change while the trials go on. -/
theorem Proper.exists_decided {overloads : List Overload} {K : Overload → Verdict}
    (hp : env.Proper X vs s) (ho : ∀ o ∈ overloads, X.Offers o)
    (hmade : ∀ o ∈ operands, o.Made X vs) (hh : PlainHint X hint)
    (hK : ∀ o ∈ overloads, ∀ u, s.Grew u → env.verdict budget operands hint location u o = K o) :
    ∃ viable failures s', env.candidates budget operands hint location overloads s =
        .ok ((viable, failures), s') ∧
      env.Decided budget operands hint location K s overloads viable s' := by
  induction overloads generalizing s with
  | nil => exact ⟨[], [], s, rfl, .refl s, .nil⟩
  | cons o rest ih =>
    rw [List.forall_mem_cons] at ho hK
    obtain ⟨⟨parameters, result⟩, hsig⟩ := signature_total ho.1 env.structs
    have hverdict := hK.1 s (.refl s)
    rw [verdict_of_signature hsig] at hverdict
    have hlift : (liftM (o.signature env.structs) : Analysis _) s =
        .ok ((parameters, result), s) := by
      rw [hsig]
      rfl
    rw [Env.candidates, Analysis.bind_of_ok hlift]
    dsimp only
    by_cases hlen : parameters.length = operands.length
    · rw [if_pos hlen] at hverdict
      rw [if_neg (by simpa using hlen)]
      cases hc : env.candidate (.ofLimit budget.remaining) o parameters result operands hint
          location s with
      | ok p =>
        obtain ⟨c, s₁⟩ := p
        have hattempt : Analysis.attempt (env.candidate (.ofLimit budget.remaining) o parameters
            result operands hint location) s = .ok (.ok c, s₁) := by
          rw [Analysis.attempt, hc]
        rw [Analysis.bind_of_ok hattempt]
        rw [hc] at hverdict
        have hgrew := (hp.candidate ho.1 hsig hmade hlen hh hc).1
        obtain ⟨viable, failures, s', hrest, hdecided⟩ :=
          ih (hp.mono hgrew) ho.2 fun o ho u hu => hK.2 o ho u (hgrew.trans hu)
        refine ⟨c :: viable, failures, s', ?_, hdecided.use hgrew hsig hlen hc hverdict.symm⟩
        dsimp only
        rw [Analysis.bind_of_ok hrest]
        rfl
      | error e =>
        have hintact : Outcome.Intact (env.candidate (.ofLimit budget.remaining) o parameters
            result operands hint location s) := hp.intact_candidate ho.1 hsig hmade hlen hh
        have hunambiguous : Outcome.Unambiguous (env.candidate (.ofLimit budget.remaining) o
            parameters result operands hint location s) := unambiguous_candidate hp.sole
        rw [hc] at hintact hunambiguous hverdict
        -- it is a diagnostic, and not one that ends the search
        cases e with
        | internal e => exact hintact.elim
        | error d =>
          have hattempt : Analysis.attempt (env.candidate (.ofLimit budget.remaining) o parameters
              result operands hint location) s = .ok (.error d, s) := by
            rw [Analysis.attempt, hc]
          rw [Analysis.bind_of_ok hattempt]
          obtain ⟨viable, failures, s', hrest, hdecided⟩ := ih hp ho.2 hK.2
          refine ⟨viable, d :: failures, s', ?_, hdecided.skip (by rw [← hverdict]; rfl)⟩
          have hcause : d.cause.isAmbiguousCast = false := hunambiguous
          dsimp only
          rw [if_neg (by simp [hcause]), Analysis.bind_of_ok hrest]
          rfl
    · -- an overload of another arity is passed over
      rw [if_neg hlen] at hverdict
      rw [if_pos (by simpa using hlen)]
      obtain ⟨viable, failures, s', hrest, hdecided⟩ := ih hp ho.2 hK.2
      exact ⟨viable, failures, s', hrest, hdecided.skip (by rw [← hverdict]; rfl)⟩

/-! ### Choosing -/

/-- Overloads that are tried in another order. -/
theorem perm_least_usable {ρ : StructId → StructId} {overloads overloads' : List Overload}
    {K K' : Overload → Verdict} (hK : ∀ o ∈ overloads, K' (o.renumber ρ) = K o)
    (hperm : overloads'.Perm (overloads.map (.renumber ρ))) :
    (least (fun o => (K' o).weight) (overloads'.filter fun o => (K' o).isUsable)).Perm
      ((least (fun o => (K o).weight) (overloads.filter fun o => (K o).isUsable)).map
        (.renumber ρ)) := by
  refine (least_perm (hperm.filter _)).trans ?_
  rw [List.filter_map, least_map]
  refine .of_eq (congrArg _ ?_)
  have husable : (overloads.filter fun o => (K' (o.renumber ρ)).isUsable) =
      overloads.filter fun o => (K o).isUsable :=
    List.filter_congr fun o ho => by rw [hK o ho]
  exact (congrArg _ husable).trans
    (least_congr fun o ho => by rw [hK o (List.mem_filter.1 ho).1])

/-- **A choice that was made**: there is one candidate of least weight, and it is paid for. -/
theorem select_ok {name : String} {overloads : List Overload} {viable : List Candidate}
    {failures : List Diagnostic} {e : TypedExpr} {c : Budget} {s'' : Fresh}
    (hcandidates : env.candidates budget operands hint location overloads s =
      .ok ((viable, failures), s'))
    (h : env.select budget name overloads operands hint location s = .ok ((e, c), s'')) :
    ∃ winner, cheapest viable = [winner] ∧ winner.expression = e ∧ winner.undefined = none ∧
      addWeight budget.spent winner.weight ≤ budget.limit ∧
      c = ⟨budget.limit, addWeight budget.spent winner.weight⟩ ∧ s'' = s' := by
  rw [select, Analysis.bind_of_ok hcandidates] at h
  cases viable with
  | nil =>
    match failures, h with
    | [], h => cases h
    | [_], h => cases h
    | _ :: _ :: _, h => cases h
  | cons first rest =>
    dsimp only at h
    generalize cheapest (first :: rest) = best at h
    match best, h with
    | [], h => cases h
    | _ :: _ :: _, h => cases h
    | [winner], h =>
      obtain ⟨b, s₁, hcharge, h⟩ := Analysis.bind_ok h
      obtain ⟨rfl, hle, rfl⟩ := Budget.charge_ok hcharge
      cases hundefined : winner.undefined with
      | some u =>
        rw [hundefined] at h
        cases h
      | none =>
        rw [hundefined] at h
        cases h
        exact ⟨winner, rfl, rfl, hundefined, hle, rfl, rfl⟩

/-- A single cheapest candidate that can be paid for is chosen. -/
theorem select_of_winner {name : String} {overloads : List Overload} {viable : List Candidate}
    {failures : List Diagnostic} {winner : Candidate}
    (hcandidates : env.candidates budget operands hint location overloads s =
      .ok ((viable, failures), s'))
    (hwinner : cheapest viable = [winner]) (hundefined : winner.undefined = none)
    (hpays : addWeight budget.spent winner.weight ≤ budget.limit) :
    env.select budget name overloads operands hint location s =
      .ok ((winner.expression, ⟨budget.limit, addWeight budget.spent winner.weight⟩), s') := by
  rw [select, Analysis.bind_of_ok hcandidates]
  cases viable with
  | nil => cases hwinner
  | cons c rest =>
    dsimp only
    rw [hwinner]
    dsimp only
    rw [Analysis.bind_of_ok (Budget.charge_of_le hpays)]
    rw [hundefined]
    rfl

namespace Parallel

variable {budget' : Budget}

/-- Candidates that come of the same overload match. -/
theorem matches_of_tried {c c' : Candidate} (h : env.Parallel X Y L vs ws s t env')
    (ho : X.Offers o) (hos : List.Forall₂ (Operand.Matches L) operands operands')
    (hmade : ∀ o ∈ operands, o.Made X vs) (hmade' : ∀ o ∈ operands', o.Made Y ws)
    (hh : PlainHint X hint) (hb : budget.RaisedTo budget')
    (hc : env.Tried budget operands hint location s s' o c)
    (hc' : env'.Tried budget' operands' (hint.map (Ty.renumber L.struct)) location t t'
      (o.renumber L.struct) c') :
    ∃ L', L.Grows L' ∧ L'.Fits s' t' ∧ c.Matches L' c' := by
  obtain ⟨parameters, result, u, u', hsig, hlen, hu, hu', hc⟩ := hc
  obtain ⟨parameters', result', v, v', hsig', -, hv, hv', hc'⟩ := hc'
  rw [Overload.signature_renumber _ (signature_of_offers ho hsig).1] at hsig'
  cases hsig'
  have hlater := h.advance (.refl L) (h.fits.mono hu hv) hu hv
  obtain ⟨_, _, hright, L', hL', hfits, hmatch⟩ :=
    (hlater.candidate ho hsig hos hmade hmade' hlen hh).simulates _ _ hc
  cases hc'.symm.trans (candidate_raise hb.ofRemaining hright)
  exact ⟨L', hL', hfits.mono hu' hv', hmatch⟩

/-- **The choice of the first run is made by the second**, also if that has more to spend. -/
theorem select {name : String} {overloads overloads' : List Overload}
    (h : env.Parallel X Y L vs ws s t env') (ho : ∀ o ∈ overloads, X.Offers o)
    (ho' : ∀ o ∈ overloads', Y.Offers o)
    (hperm : overloads'.Perm (overloads.map (.renumber L.struct)))
    (hos : List.Forall₂ (Operand.Matches L) operands operands')
    (hmade : ∀ o ∈ operands, o.Made X vs) (hmade' : ∀ o ∈ operands', o.Made Y ws)
    (hh : PlainHint X hint) (hb : budget.RaisedTo budget') :
    L.Simulates Link.SameAfforded (env.select budget name overloads operands hint location s)
      (env'.select budget' name overloads' operands' (hint.map (Ty.renumber L.struct)) location
        t) := by
  -- on one budget, the verdicts of the first run at its start are those of both at any time
  have hverdict : ∀ (b : Budget), ∀ o ∈ overloads, ∀ u u', s.Grew u → t.Grew u' →
      env'.verdict b operands' (hint.map (Ty.renumber L.struct)) location u'
        (o.renumber L.struct) = env.verdict b operands hint location u o := by
    intro b o hmem u u' hu hu'
    have hlater := h.advance (.refl L) (h.fits.mono hu hu') hu hu'
    exact hlater.verdict_eq (ho o hmem) hos hmade hmade' hh
  obtain ⟨viable, failures, s', hx, hdecided⟩ := h.left.exists_decided
    (K := env.verdict budget operands hint location s) ho hmade hh fun o hmem u hu => by
      rw [← hverdict budget o hmem u t hu (.refl t), hverdict budget o hmem s t (.refl s) (.refl t)]
  obtain ⟨viable', failures', t', hy, hdecided'⟩ := h.right.exists_decided
    (K := env'.verdict budget' operands' (hint.map (Ty.renumber L.struct)) location t) ho' hmade'
    (h.plainHint hh) fun o' hmem' u' hu' => by
      obtain ⟨o, hmem, rfl⟩ := List.mem_map.1 (hperm.mem_iff.1 hmem')
      rw [hverdict budget' o hmem s u' (.refl s) hu',
        hverdict budget' o hmem s t (.refl s) (.refl t)]
  rintro ⟨e, c⟩ s'' hselect
  obtain ⟨winner, hwinner, rfl, hundefined, hpays, rfl, rfl⟩ := select_ok hx hselect
  -- one overload of least weight in the first run
  have hbest := forall₂_cheapest hdecided.tried
  rw [hwinner] at hbest
  obtain ⟨o, _, ⟨htried, hweight⟩, hnone, hleast⟩ := List.forall₂_cons_right_iff.1 hbest
  cases List.forall₂_nil_right_iff.1 hnone
  have hmem : o ∈ overloads.filter fun o =>
      (env.verdict budget operands hint location s o).isUsable :=
    (mem_least.1 (hleast ▸ List.mem_singleton_self o)).1
  -- it is the only one in the second run as well
  have hleast' := perm_least_usable
    (fun o ho => hverdict budget' o ho s t (.refl s) (.refl t)) hperm
  rw [least_verdict_raise hb hmem, hleast, List.map_singleton, List.perm_singleton] at hleast'
  have hbest' := forall₂_cheapest hdecided'.tried
  rw [hleast'] at hbest'
  obtain ⟨winner', rest', ⟨htried', -⟩, hrest', hwinner'⟩ := List.forall₂_cons_left_iff.1 hbest'
  cases List.forall₂_nil_left_iff.1 hrest'
  obtain ⟨L', hL', hfits, hmatch⟩ := h.matches_of_tried (ho o (List.mem_filter.1 hmem).1) hos hmade
    hmade' hh hb htried htried'
  have hpays' : addWeight budget'.spent winner'.weight ≤ budget'.limit := by
    rw [hb.spent, hmatch.weight]
    exact hpays.trans hb.limit
  refine ⟨_, t', select_of_winner hy hwinner' (hmatch.undefined.trans hundefined) hpays', L', hL',
    hfits, hmatch.expression, ?_⟩
  rw [hmatch.weight]
  exact hb.add hpays

end Parallel

end Env

end RangeTyping
