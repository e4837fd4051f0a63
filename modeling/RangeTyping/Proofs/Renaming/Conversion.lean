import Mathlib
import RangeTyping.Proofs.Budget.Metered
import RangeTyping.Proofs.Intact.Body
import RangeTyping.Proofs.Renaming.Cast

/-!
# Conversions in two runs

`Env.Parallel` describes the surroundings of two runs of one analysis: each belongs to its setting,
the structs of the one setting are those of the other renumbered, and whatever a name stands for in
the one it stands for in the other, up to the link between the runs.  Of a function name this means
the same overloads, in any order.  The second run may also have more to spend.

On the same budget, typing a literal and converting an expression go the same way in both runs
(`Env.Parallel.convert`, `Env.Parallel.coerce`).  Since both are metered, the second run can follow
the first on a raised budget too (`Env.Parallel.convert_raise` and those after it).
-/

namespace RangeTyping

/-! ### What names stand for -/

/-- The overload with its type renumbered. -/
def Overload.renumber (ρ : StructId → StructId) (o : Overload) : Overload :=
  { o with type := o.type.renumber ρ }

/-- Objects that stand for each other. -/
inductive Object.Matches (L : Link) : Object → Object → Prop where
  | «variable» {v w : Variable} (h : L.Same Renaming.variableOf v w) :
      Matches L (.variable v) (.variable w)
  | function {f g : OverloadSet} (h : g.overloads.Perm (f.overloads.map (.renumber L.struct))) :
      Matches L (.function f) (.function g)

theorem Object.Matches.mono {L L' : Link} {a b : Object} (h : a.Matches L b) (hL : L.Grows L') :
    a.Matches L' b := by
  cases h with
  | «variable» h => exact .variable (h.mono hL)
  | function h => exact .function (hL.struct ▸ h)

/-- **Contexts in which names stand for the same.** -/
structure LookupContext.Matches (L : Link) (c d : LookupContext) : Prop where
  type : ∀ name, d.type? name = (c.type? name).map (Ty.renumber L.struct)
  object : ∀ name, Option.Rel (Object.Matches L) (c.object? name) (d.object? name)
  taken : ∀ name, (d.current.object? name).isSome = (c.current.object? name).isSome
  casts : d.castGraph = c.castGraph

namespace LookupContext.Matches

variable {L L' : Link} {c d : LookupContext}

theorem mono (h : c.Matches L d) (hL : L.Grows L') : c.Matches L' d where
  type name := hL.struct ▸ h.type name
  object name := by
    have hname := h.object name
    generalize c.object? name = a, d.object? name = b at hname
    cases hname with
    | some hobject => exact .some (hobject.mono hL)
    | none => exact .none
  taken := h.taken
  casts := h.casts

/-- In a new scope no name is taken. -/
theorem push (h : c.Matches L d) : c.push.Matches L d.push where
  type := h.type
  object := h.object
  taken _ := rfl
  casts := by
    have htables : d.scopes.map Scope.casts = c.scopes.map Scope.casts :=
      congrArg CastGraph.tables h.casts
    show CastGraph.mk ([] :: d.scopes.map Scope.casts) true =
      CastGraph.mk ([] :: c.scopes.map Scope.casts) true
    rw [htables]

end LookupContext.Matches

/-! ### Surroundings -/

/-- Surroundings in which names stand for the same, and the second allow at least as much. -/
structure Env.Matches (L : Link) (env env' : Env) : Prop where
  options : env.options.RaisedTo env'.options
  context : env.context.Matches L env'.context

theorem Env.Matches.mono {L L' : Link} {env env' : Env} (h : env.Matches L env')
    (hL : L.Grows L') : env.Matches L' env' := ⟨h.options, h.context.mono hL⟩

/-- **The surroundings of two runs of one analysis.** -/
structure Env.Parallel (X Y : Setting) (L : Link) (vs ws : List Variable) (s t : Fresh)
    (env env' : Env) : Prop where
  renumbers : X.Renumbers Y L.struct
  returnType : Y.returnType = X.returnType.renumber L.struct
  fits : L.Fits s t
  left : env.Proper X vs s
  right : env'.Proper Y ws t
  same : env.Matches L env'

namespace Env.Parallel

variable {X Y : Setting} {L L' : Link} {vs ws : List Variable} {s s' t t' : Fresh} {env env' : Env}

theorem types (h : env.Parallel X Y L vs ws s t env') : env'.types = env.types := by
  rw [h.left.types, h.right.types, h.renumbers.types]

/-- Later surroundings, possibly others. -/
theorem resume {vs' ws' : List Variable} {env₁ env₁' : Env} (h : env.Parallel X Y L vs ws s t env')
    (hL : L.Grows L') (hfits : L'.Fits s' t') (hleft : env₁.Proper X vs' s')
    (hright : env₁'.Proper Y ws' t') (hsame : env₁.Matches L' env₁') :
    env₁.Parallel X Y L' vs' ws' s' t' env₁' where
  renumbers := hL.struct ▸ h.renumbers
  returnType := hL.struct ▸ h.returnType
  fits := hfits
  left := hleft
  right := hright
  same := hsame

theorem advance (h : env.Parallel X Y L vs ws s t env') (hL : L.Grows L') (hfits : L'.Fits s' t')
    (hs : s.Grew s') (ht : t.Grew t') : env.Parallel X Y L' vs ws s' t' env' :=
  h.resume hL hfits (h.left.mono hs) (h.right.mono ht) (h.same.mono hL)

theorem enter (h : env.Parallel X Y L vs ws s t env') :
    env.enter.Parallel X Y L vs ws s t env'.enter :=
  h.resume (.refl L) h.fits h.left.enter h.right.enter ⟨h.same.options, h.same.context.push⟩

/-- A hint that is plain in the one run is so in the other. -/
theorem plainHint (h : env.Parallel X Y L vs ws s t env') {hint : Option Ty}
    (hh : Env.PlainHint X hint) : Env.PlainHint Y (hint.map (Ty.renumber L.struct)) := by
  intro u hu
  obtain ⟨v, hv, rfl⟩ := Option.map_eq_some_iff.1 hu
  exact h.renumbers.plain (hh v hv)

end Env.Parallel

/-! ### Expressions that are the same up to a link -/

namespace Link

variable {L L' : Link} {s t : Fresh} {e e' : TypedExpr}

theorem same_type (L : Link) (u : Ty) : L.Same Renaming.type u (u.renumber L.struct) := by
  intro r hr
  rw [Renaming.type, hr.struct]

theorem same_unread (L : Link) : L.Same Renaming.value .unread .unread := fun r _ => r.unread.symm

theorem Same.info {i j : ValueId} {u u' : Ty} (h : L.Same Renaming.value i j)
    (hu : u' = u.renumber L.struct) (range : Option ValueRange) :
    L.Same Renaming.info ⟨i, u, range⟩ ⟨j, u', range⟩ := by
  intro r hr
  rw [Renaming.info, h r hr, hu, L.same_type u r hr]

theorem Same.id (h : L.Same Renaming.expr e e') : L.Same Renaming.value e.id e'.id := by
  intro r hr
  rw [h r hr, Renaming.id_expr]

theorem Same.discard (h : L.Same Renaming.expr e e') :
    L.Same Renaming.expr e.discard e'.discard := by
  intro r hr
  rw [h r hr, r.expr_discard]

theorem Same.type_eq (h : L.Same Renaming.expr e e') (hfits : L.Fits s t) :
    e'.type = e.type.renumber L.struct := by
  obtain ⟨r, hr, -⟩ := hfits.exists_follows
  rw [h r hr, Renaming.type_expr, Renaming.type, hr.struct]

theorem Same.range_eq (h : L.Same Renaming.expr e e') (hfits : L.Fits s t) :
    e'.range = e.range := by
  obtain ⟨r, hr, -⟩ := hfits.exists_follows
  rw [h r hr, Renaming.range_expr]

/-- Results that are related, and as much left to spend. -/
def Spends {α β : Type} (R : Link → α → β → Prop) (L : Link) (x : α × Budget) (y : β × Budget) :
    Prop :=
  R L x.1 y.1 ∧ y.2 = x.2

/-- Steps that spend something go on with the same budget. -/
theorem Agrees.spend {α β γ ζ : Type} {R : Link → α → β → Prop} {Q : Link → γ → ζ → Prop}
    {x : Analysis (α × Budget)} {y : Analysis (β × Budget)} {f : α × Budget → Analysis γ}
    {g : β × Budget → Analysis ζ} (h : L.Agrees (Spends R) (x s) (y t))
    (hf : ∀ a b budget s' t' L', x s = .ok ((a, budget), s') → y t = .ok ((b, budget), t') →
      L.Grows L' → L'.Fits s' t' → R L' a b → L'.Agrees Q (f (a, budget) s') (g (b, budget) t')) :
    L.Agrees Q ((x >>= f) s) ((y >>= g) t) := by
  refine h.bind fun p q s' t' L' hx hy hL hfits hR => ?_
  obtain ⟨a, budget⟩ := p
  obtain ⟨b, budget'⟩ := q
  obtain ⟨hab, (rfl : budget' = budget)⟩ := hR
  exact hf a b budget' s' t' L' hx hy hL hfits hab

/-- Expressions that are the same, with as much left to spend. -/
abbrev SameSpent : Link → TypedExpr × Budget → TypedExpr × Budget → Prop :=
  Spends fun L => L.Same Renaming.expr

/-- Results that are related, and possibly more left to spend in the second run. -/
def Affords {α β : Type} (R : Link → α → β → Prop) (L : Link) (x : α × Budget) (y : β × Budget) :
    Prop :=
  R L x.1 y.1 ∧ x.2.RaisedTo y.2

/-- Steps that spend something go on with what is left. -/
theorem Simulates.afford {α β γ ζ : Type} {R : Link → α → β → Prop} {Q : Link → γ → ζ → Prop}
    {x : Analysis (α × Budget)} {y : Analysis (β × Budget)} {f : α × Budget → Analysis γ}
    {g : β × Budget → Analysis ζ} (h : L.Simulates (Affords R) (x s) (y t))
    (hf : ∀ a a' b b' s' t' L', x s = .ok ((a, b), s') → y t = .ok ((a', b'), t') → L.Grows L' →
      L'.Fits s' t' → b.RaisedTo b' → R L' a a' →
      L'.Simulates Q (f (a, b) s') (g (a', b') t')) :
    L.Simulates Q ((x >>= f) s) ((y >>= g) t) :=
  h.bind fun p q s' t' L' hx hy hL hfits hR =>
    hf p.1 q.1 p.2 q.2 s' t' L' hx hy hL hfits hR.2 hR.1

/-- **Metered steps that agree on one budget** go on doing so when the second run has more. -/
theorem Agrees.raise {α β : Type} {R : Link → α → β → Prop} {g : Budget → Analysis (β × Budget)}
    {x : Outcome Diagnostic ((α × Budget) × Fresh)} {b b' : Budget} (hg : Metered g)
    (h : L.Agrees (Spends R) x (g b t)) (hb : b.RaisedTo b') :
    L.Simulates (Affords R) x (g b' t) := by
  rintro ⟨a, c⟩ s' hx
  obtain ⟨⟨a', d⟩, t', hy, L', hL, hfits, hR, (rfl : d = c)⟩ := h.simulates _ _ hx
  obtain ⟨c', hc, hy'⟩ := hg.exists_raised hb hy
  exact ⟨(a', c'), t', hy', L', hL, hfits, hR, hc⟩

/-- Expressions that are the same, and possibly more left to spend in the second run. -/
abbrev SameAfforded : Link → TypedExpr × Budget → TypedExpr × Budget → Prop :=
  Affords fun L => L.Same Renaming.expr

end Link

/-- Operands that stand for each other. -/
inductive Operand.Matches (L : Link) : Operand → Operand → Prop where
  | typed {e e' : TypedExpr} (h : L.Same Renaming.expr e e') : Matches L (.typed e) (.typed e')
  | number (value : Nat) : Matches L (.number value) (.number value)
  | null : Matches L .null .null

theorem Operand.Matches.mono {L L' : Link} {o o' : Operand} (h : o.Matches L o')
    (hL : L.Grows L') : o.Matches L' o' := by
  cases h with
  | typed h => exact .typed (h.mono hL)
  | number value => exact .number value
  | null => exact .null

/-! ### Literals -/

namespace Env

variable {X Y : Setting} {L : Link} {vs ws : List Variable} {s t : Fresh} {env env' : Env}
  {budget : Budget} {location : Location} {e e' : TypedExpr}

theorem agrees_charge (hfits : L.Fits s t) (b : Budget) (w : Weight) (l : Location) :
    L.Agrees (fun _ b b' => b' = b) (b.charge w l s) (b.charge w l t) := by
  unfold Budget.charge
  split
  · exact .fail ..
  · exact .pure hfits rfl

theorem agrees_intLiteral (hfits : L.Fits s t) (value : Nat) (type : Ty) (a : Scalar) :
    L.Agrees (fun L' => L'.Same Renaming.expr) (intLiteral value type a s)
      (intLiteral value (type.renumber L.struct) a t) := by
  refine (Link.Agrees.freshValue hfits).bind fun i j s₁ t₁ L₁ _ _ hL₁ hfits₁ hij => ?_
  refine (Link.Agrees.liftInternal hfits₁).bind fun range _ s₂ t₂ L₂ _ _ hL₂ hfits₂ heq => ?_
  subst heq
  refine .pure hfits₂ fun r hr => ?_
  have hinfo := (hij.mono hL₂).info (u := type) (by rw [(hL₁.trans hL₂).struct]) (some range)
  rw [Renaming.expr, ← hinfo r hr]

namespace Parallel

theorem naturalNumber (h : env.Parallel X Y L vs ws s t env') (value : Nat) :
    L.Agrees Link.SameSpent (env.naturalNumber budget value location s)
      (env'.naturalNumber budget value location t) := by
  unfold Env.naturalNumber
  rw [h.types]
  refine (Link.Agrees.liftInternal h.fits).bind fun fitting _ s₁ t₁ L₁ _ _ hL₁ hfits₁ heq => ?_
  subst heq
  cases fitting with
  | none => exact .fail ..
  | some a =>
    refine (agrees_charge hfits₁ ..).bind fun b _ s₂ t₂ L₂ _ _ hL₂ hfits₂ heq => ?_
    subst heq
    refine (agrees_intLiteral hfits₂ value (.ofScalar a) a).bind
      fun e e' s₃ t₃ L₃ _ _ hL₃ hfits₃ hsame => ?_
    exact .pure hfits₃ ⟨hsame, rfl⟩

theorem natural (h : env.Parallel X Y L vs ws s t env') {o o' : Operand} (ho : o.Matches L o') :
    L.Agrees Link.SameSpent (env.natural budget location o s)
      (env'.natural budget location o' t) := by
  cases ho with
  | typed hsame => exact .pure h.fits ⟨hsame, rfl⟩
  | number value => exact h.naturalNumber value
  | null => exact Outcome.Agrees.fail trivial

end Parallel

/-! ### Conversion -/

theorem agrees_castNode {step : ChainStep} (hfits : L.Fits s t)
    (hsame : L.Same Renaming.expr e e') :
    L.Agrees (fun L' => L'.Same Renaming.expr) (castNode e step s)
      (castNode e' (step.renumber L.struct) t) := by
  refine Link.Agrees.drawUnless hfits Iff.rfl hsame.id fun v w s₁ t₁ L₁ hL₁ hfits₁ _ _ hvw => ?_
  refine .pure hfits₁ fun r hr => ?_
  have hinfo := hvw.info (u := step.cast.destination) (by rw [hL₁.struct]) step.range
  rw [Renaming.expr, ← hinfo r hr, ← hsame.mono hL₁ r hr]
  rfl

theorem agrees_castNodes (steps : List ChainStep) (hfits : L.Fits s t)
    (hsame : L.Same Renaming.expr e e') :
    L.Agrees (fun L' => L'.Same Renaming.expr) (steps.foldlM castNode e s)
      ((steps.map (ChainStep.renumber L.struct)).foldlM castNode e' t) := by
  induction steps generalizing e e' s t L with
  | nil => exact .pure hfits hsame
  | cons step rest ih =>
    rw [List.map_cons, List.foldlM_cons, List.foldlM_cons]
    refine (agrees_castNode hfits hsame).bind fun e₁ e₁' s₁ t₁ L₁ _ _ hL₁ hfits₁ hsame₁ => ?_
    rw [← hL₁.struct]
    exact ih hfits₁ hsame₁

namespace Parallel

variable {destination : Ty} {implicit : Bool} {hint : Option Ty}

/-- **A conversion goes the same way in both runs.** -/
theorem convert (h : env.Parallel X Y L vs ws s t env') (hsame : L.Same Renaming.expr e e')
    (he : X.Known e.type) (hd : X.Plain destination) :
    L.Agrees Link.SameSpent (env.convert budget destination implicit location e s)
      (env'.convert budget (destination.renumber L.struct) implicit location e' t) := by
  -- both queries are the same up to the numbers of structs
  have hresolve : Outcome.Agrees (fun d e => e = d.renumber L.struct)
      (fun c c' => c' = c.renumber L.struct)
      (CastQuery.resolve env.structs env.context.castGraph
        ⟨e.type, e.range, destination, implicit, budget.remaining⟩)
      (CastQuery.resolve env'.structs env'.context.castGraph
        ⟨e'.type, e'.range, destination.renumber L.struct, implicit, budget.remaining⟩) := by
    rw [h.left.structs, h.right.structs, h.same.context.casts, hsame.type_eq h.fits,
      hsame.range_eq h.fits]
    exact CastQuery.resolve_renumber (h.renumbers.castGraph h.left.carries) he hd.known
  refine (Link.Agrees.lift h.fits (hresolve.mapError (D := fun _ _ => True)
    fun _ _ _ => trivial)).bind fun chain chain' s₁ t₁ L₁ _ _ hL₁ hfits₁ heq => ?_
  subst heq
  refine (agrees_charge hfits₁ ..).bind fun b _ s₂ t₂ L₂ _ _ hL₂ hfits₂ heq => ?_
  subst heq
  have hL := hL₁.trans hL₂
  have hnodes := agrees_castNodes chain.steps hfits₂ (hsame.mono hL)
  rw [hL.struct] at hnodes
  refine hnodes.bind fun e₁ e₁' s₃ t₃ L₃ _ _ hL₃ hfits₃ hsame₁ => ?_
  exact .pure hfits₃ ⟨hsame₁, rfl⟩

/-- **An operand becomes a value of a given type in the same way in both runs.** -/
theorem coerce (h : env.Parallel X Y L vs ws s t env') {o o' : Operand} (ho : o.Matches L o')
    (hmade : o.Made X vs) (hd : X.Plain destination) :
    L.Agrees Link.SameSpent (env.coerce budget destination implicit location o s)
      (env'.coerce budget (destination.renumber L.struct) implicit location o' t) := by
  cases ho with
  | typed hsame => exact h.convert hsame (Setting.Made.known hmade) hd
  | number value =>
    have hliteral : literalScalar? value (destination.renumber L.struct) =
        literalScalar? value destination := by
      rw [literalScalar?, literalScalar?, Ty.asScalar?_renumber]
    simp only [Env.coerce]
    rw [hliteral]
    refine (Link.Agrees.liftInternal h.fits).bind fun literal _ s₁ t₁ L₁ hx hy hL₁ hfits₁ heq => ?_
    subst heq
    obtain ⟨-, rfl⟩ := Analysis.liftInternal_ok hx
    obtain ⟨-, rfl⟩ := Analysis.liftInternal_ok hy
    cases literal with
    | some a =>
      refine (agrees_charge hfits₁ ..).bind fun b _ s₂ t₂ L₂ _ _ hL₂ hfits₂ heq => ?_
      subst heq
      have hnode := agrees_intLiteral hfits₂ value destination a
      rw [(hL₁.trans hL₂).struct] at hnode
      refine hnode.bind fun e e' s₃ t₃ L₃ _ _ hL₃ hfits₃ hsame => ?_
      exact .pure hfits₃ ⟨hsame, rfl⟩
    | none =>
      have h₁ := h.advance hL₁ hfits₁ (.refl _) (.refl _)
      refine (h₁.naturalNumber value).spend fun e e' b s₂ t₂ L₂ hx hy hL₂ hfits₂ hsame => ?_
      have hleft := h₁.left.naturalNumber hx
      have h₂ := h₁.advance hL₂ hfits₂ hleft.grew (h₁.right.naturalNumber hy).grew
      rw [← (hL₁.trans hL₂).struct]
      exact h₂.convert hsame hleft.made.known hd
  | null =>
    simp only [Env.coerce]
    rw [Ty.isPointer_renumber]
    split
    · refine (Link.Agrees.freshValue h.fits).bind fun i j s₁ t₁ L₁ _ _ hL₁ hfits₁ hij => ?_
      refine .pure hfits₁ ⟨fun r hr => ?_, rfl⟩
      have hinfo := hij.info (u := destination) (by rw [hL₁.struct]) none
      rw [Renaming.expr, ← hinfo r hr]
    · exact .fail ..

theorem settle (h : env.Parallel X Y L vs ws s t env') {o o' : Operand} (ho : o.Matches L o')
    (hmade : o.Made X vs) (hh : PlainHint X hint) :
    L.Agrees Link.SameSpent (env.settle budget hint location o s)
      (env'.settle budget (hint.map (Ty.renumber L.struct)) location o' t) := by
  cases hint with
  | some u => exact h.coerce ho hmade (hh u rfl)
  | none => exact h.natural ho

theorem plain (h : env.Parallel X Y L vs ws s t env') {o o' : Operand} (ho : o.Matches L o')
    (hmade : o.Made X vs) (hmade' : o'.Made Y ws) :
    L.Agrees Link.SameSpent (env.plain budget location o s) (env'.plain budget location o' t) := by
  refine (h.natural ho).spend fun e e' b s₁ t₁ L₁ hx hy hL₁ hfits₁ hsame => ?_
  have hleft := h.left.natural hmade hx
  have h₁ := h.advance hL₁ hfits₁ hleft.grew (h.right.natural hmade' hy).grew
  have hknown := hleft.made.known
  have htype : e'.type.unqualified = e.type.unqualified.renumber L₁.struct := by
    rw [Ty.renumber_unqualified, ← hsame.type_eq hfits₁]
  dsimp only
  rw [htype]
  exact h₁.convert hsame hknown (Setting.plain_unqualified hknown)

/-! ### On a raised budget -/

variable {budget' : Budget}

theorem convert_raise (h : env.Parallel X Y L vs ws s t env') (hsame : L.Same Renaming.expr e e')
    (he : X.Known e.type) (hd : X.Plain destination) (hb : budget.RaisedTo budget') :
    L.Simulates Link.SameAfforded (env.convert budget destination implicit location e s)
      (env'.convert budget' (destination.renumber L.struct) implicit location e' t) :=
  Link.Agrees.raise (env'.metered_convert ..) (h.convert hsame he hd) hb

theorem coerce_raise (h : env.Parallel X Y L vs ws s t env') {o o' : Operand} (ho : o.Matches L o')
    (hmade : o.Made X vs) (hd : X.Plain destination) (hb : budget.RaisedTo budget') :
    L.Simulates Link.SameAfforded (env.coerce budget destination implicit location o s)
      (env'.coerce budget' (destination.renumber L.struct) implicit location o' t) :=
  Link.Agrees.raise (env'.metered_coerce ..) (h.coerce ho hmade hd) hb

theorem settle_raise (h : env.Parallel X Y L vs ws s t env') {o o' : Operand} (ho : o.Matches L o')
    (hmade : o.Made X vs) (hh : PlainHint X hint) (hb : budget.RaisedTo budget') :
    L.Simulates Link.SameAfforded (env.settle budget hint location o s)
      (env'.settle budget' (hint.map (Ty.renumber L.struct)) location o' t) :=
  Link.Agrees.raise (env'.metered_settle ..) (h.settle ho hmade hh) hb

theorem plain_raise (h : env.Parallel X Y L vs ws s t env') {o o' : Operand} (ho : o.Matches L o')
    (hmade : o.Made X vs) (hmade' : o'.Made Y ws) (hb : budget.RaisedTo budget') :
    L.Simulates Link.SameAfforded (env.plain budget location o s)
      (env'.plain budget' location o' t) :=
  Link.Agrees.raise (env'.metered_plain ..) (h.plain ho hmade hmade') hb

end Parallel

end Env

end RangeTyping
