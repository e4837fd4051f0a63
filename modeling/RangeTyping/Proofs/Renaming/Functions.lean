import Mathlib
import RangeTyping.Proofs.Intact.Module
import RangeTyping.Proofs.Renaming.Body

/-!
# Functions in two runs

A registered function is analysed in the same way in two runs whose contexts match
(`Signature.simulates_analyze`): if the first finds nothing wrong neither does the second, and the
typed functions are the same up to the identities that each run has drawn.

The functions of a module are analysed one after another, and each of them draws identities of its
own.  So the links between single functions make up one link (`Link.exists_renaming`), in whatever
order the second run takes the functions.
-/

namespace RangeTyping

/-- The signature with its types renumbered. -/
def Signature.renumber (ρ : StructId → StructId) (sig : Signature) : Signature :=
  { sig with
    parameters := sig.parameters.map (Ty.renumber ρ)
    result := sig.result.renumber ρ }

@[simp] theorem Signature.renumber_id (sig : Signature) : sig.renumber id = sig := by
  rw [renumber, List.map_congr_left fun t _ => Ty.renumber_id t, List.map_id', Ty.renumber_id]

theorem Setting.Renumbers.returning {X Y : Setting} {ρ : StructId → StructId} {u : Ty}
    (h : X.Renumbers Y ρ) (hu : X.Plain u) :
    (X.returning u hu).Renumbers (Y.returning (u.renumber ρ) (h.plain hu)) ρ :=
  ⟨h.cookie, h.injective, h.declared⟩

/-- Parameters that are the same, and surroundings in which names stand for the same. -/
def SameParameters (L : Link) (x y : List Parameter × Env) : Prop :=
  L.Same (fun r ps => ps.map r.parameter) x.1 y.1 ∧ x.2.Matches L y.2

namespace Signature

variable {X Y : Setting} {L : Link} {vs ws : List Variable} {s t : Fresh} {env env' : Env}
  {sig : Signature}

@[simp] theorem definition_renumber (ρ : StructId → StructId) (sig : Signature) :
    (sig.renumber ρ).definition = sig.definition := rfl

@[simp] theorem type_renumber (ρ : StructId → StructId) (sig : Signature) :
    (sig.renumber ρ).type = sig.type.renumber ρ := (Ty.renumber_arrow _ _).symm

/-- **The parameters of a function** are declared in both runs or in neither. -/
theorem agrees_parameterList {arguments : List Source.Argument} {types : List Ty}
    (h : env.Parallel X Y L vs ws s t env') (hts : ∀ u ∈ types, X.Plain u) :
    L.Agrees SameParameters (parameterList env arguments types s)
      (parameterList env' arguments (types.map (Ty.renumber L.struct)) t) := by
  induction arguments generalizing env env' vs ws s t L types with
  | nil => exact .pure h.fits ⟨fun _ _ => rfl, h.same⟩
  | cons a as ih =>
    cases types with
    | nil => exact .pure h.fits ⟨fun _ _ => rfl, h.same⟩
    | cons u us =>
      rw [List.forall_mem_cons] at hts
      rw [List.map_cons, parameterList, parameterList, Ty.fullRange_renumber]
      refine (Link.Agrees.liftInternal h.fits).bind fun range _ s₀ t₀ L₀ hx hy hL₀ hfits₀ heq => ?_
      subst heq
      obtain ⟨hrange, rfl⟩ := Analysis.liftInternal_ok hx
      obtain ⟨-, rfl⟩ := Analysis.liftInternal_ok hy
      have h₀ := h.advance hL₀ hfits₀ (.refl _) (.refl _)
      rw [← hL₀.struct]
      refine h₀.declare.bind fun x y s₁ t₁ L₁ hx hy hL₁ hfits₁ hxy => ?_
      obtain ⟨v, env₁⟩ := x
      obtain ⟨w, env₁'⟩ := y
      obtain ⟨hvw : L₁.Same Renaming.variableOf v w, hsame : env₁.Matches L₁ env₁'⟩ := hxy
      have hknown := hts.1.known
      have hknown' := (h₀.renumbers.plain hts.1).known
      have hrange' : (u.renumber L₀.struct).fullRange = .ok range := by
        rw [Ty.fullRange_renumber, hrange]
      obtain ⟨hleft, -⟩ := h₀.left.declare hknown (hknown.admits_fullRange hrange)
        (fun _ => hrange) hx
      obtain ⟨hright, -⟩ := h₀.right.declare hknown' (hknown'.admits_fullRange hrange')
        (fun _ => hrange') hy
      have h₁ := h₀.resume hL₁ hfits₁ hleft hright hsame
      rw [← hL₁.struct]
      refine (ih h₁ hts.2).bind fun x y s₂ t₂ L₂ _ _ hL₂ hfits₂ hxy => ?_
      refine .pure hfits₂ ⟨fun r hr => ?_, hxy.2⟩
      have hv := hvw.mono hL₂ r hr
      have htype := L₂.same_type u r hr
      rw [hL₂.struct] at htype
      show (⟨u.renumber L₁.struct, w.name, w.id⟩ : Parameter) :: y.1 =
        (⟨u, v.name, v.id⟩ :: x.1).map r.parameter
      have hrest : y.1 = x.1.map r.parameter := hxy.1 r hr
      rw [List.map_cons, hrest, hv, htype]
      rfl

/-- **A function is analysed in the same way in both runs.** -/
theorem simulates_analyze (h : env.Parallel X Y L [] [] s t env')
    (hps : ∀ u ∈ sig.parameters, X.Plain u) (hr : X.Plain sig.result)
    (hlen : sig.definition.arguments.length = sig.parameters.length) :
    L.Simulates (fun L' => L'.Same Renaming.function) (sig.analyze env s)
      ((sig.renumber L.struct).analyze env' t) := by
  have h₀ : Env.Parallel (X.returning sig.result hr)
      (Y.returning (sig.result.renumber L.struct) (h.renumbers.plain hr)) L [] [] s t
      { env with function := sig.definition.name.text, returnType := sig.result }
      { env' with
        function := sig.definition.name.text
        returnType := sig.result.renumber L.struct } :=
    { renumbers := h.renumbers.returning hr
      returnType := rfl
      fits := h.fits
      left := proper_returning hr h.left _
      right := proper_returning _ h.right _
      same := ⟨h.same.options, h.same.context⟩ }
  have hps' : ∀ u ∈ (sig.renumber L.struct).parameters, Y.Plain u := by
    rw [renumber, List.forall_mem_map]
    exact fun u hu => h.renumbers.plain (hps u hu)
  have hlen' : sig.definition.arguments.length = (sig.renumber L.struct).parameters.length := by
    rw [renumber, List.length_map, hlen]
  refine (agrees_parameterList h₀.enter hps).simulates.bind
    fun x y s₁ t₁ L₁ hx hy hL₁ hfits₁ hxy => ?_
  obtain ⟨parameters, inner⟩ := x
  obtain ⟨parameters', inner'⟩ := y
  obtain ⟨⟨vs, hleft, -⟩, -⟩ := parameterList_ok h₀.enter.left hps hlen hx
  obtain ⟨⟨ws, hright, -⟩, -⟩ := parameterList_ok h₀.enter.right hps' hlen' hy
  have h₁ := h₀.enter.resume hL₁ hfits₁ hleft hright hxy.2
  have hvoid : (sig.renumber L.struct).result.isVoid = sig.result.isVoid := Ty.isVoid_renumber _
  have hhint' : (if sig.result.isVoid = true then none else
      some (sig.renumber L.struct).result) =
      (if sig.result.isVoid = true then none else some sig.result).map (Ty.renumber L₁.struct) := by
    rw [hL₁.struct]
    split <;> rfl
  dsimp only
  rw [hvoid, hhint']
  refine (Env.Parallel.block sig.definition.body h₁ plainHint_expected h₁.expressionBudget).afford
    fun body body' b b' s₂ t₂ L₂ _ _ hL₂ hfits₂ _ hbody => ?_
  rw [Option.isSome_map, definition_renumber]
  by_cases hmissing : ((if sig.result.isVoid = true then none else some sig.result).isSome &&
      !sig.definition.body.hasResult && !sig.definition.body.endsWithReturn) = true
  · -- the first run fails, and nothing is said about the second
    rw [if_pos hmissing]
    intro f s₃ hfailed
    cases hfailed
  · rw [if_neg hmissing, if_neg hmissing]
    refine .pure hfits₂ fun r hr => ?_
    have hstruct : L.struct = r.struct := by rw [hr.struct, hL₂.struct, hL₁.struct]
    have hparameters : parameters' = parameters.map r.parameter := hxy.1 r (hL₂.follows hr)
    have hresult : (if sig.result.isVoid = true then body'.discard else body') =
        r.expr (if sig.result.isVoid = true then body.discard else body) := by
      split
      · exact hbody.discard r hr
      · exact hbody r hr
    dsimp only
    rw [hparameters, hresult, type_renumber, hstruct]
    rfl

end Signature

/-! ### Many functions -/

/-- A step of a run: what it was given and what came of it, and the supplies before and after. -/
structure Visit (α β : Type) where
  input : α
  start : Fresh
  output : β
  stop : Fresh

/-- **The steps of a run** from `s` to `t`, each of which begins after the ones before it ended. -/
structure Visits {α β : Type} (step : Fresh → α → Outcome Diagnostic (β × Fresh)) (s t : Fresh)
    (visits : List (Visit α β)) : Prop where
  grew : s.Grew t
  steps : ∀ x ∈ visits, step x.start x.input = .ok (x.output, x.stop)
  within : ∀ x ∈ visits, s.Grew x.start ∧ x.stop.Grew t
  apart : visits.Pairwise fun x y => x.stop.Grew y.start

/-- **A chain of steps that only draw identities is made of visits.** -/
theorem Collected.exists_visits {α β : Type} {step : Fresh → α → Outcome Diagnostic (β × Fresh)}
    {s t : Fresh} {as : List α} {bs : List β} (h : Collected step s as bs t)
    (hpos : 0 < s.nextValue)
    (hgrew : ∀ a ∈ as, ∀ u b u', 0 < u.nextValue → step u a = .ok (b, u') → u.Grew u') :
    ∃ visits, Visits step s t visits ∧ visits.map Visit.input = as ∧
      visits.map Visit.output = bs := by
  induction h with
  | nil s => exact ⟨[], ⟨.refl s, nofun, nofun, .nil⟩, rfl, rfl⟩
  | @cons s s' t a b as bs hstep rest ih =>
    rw [List.forall_mem_cons] at hgrew
    have hs := hgrew.1 s b s' hpos hstep
    obtain ⟨visits, hvisits, rfl, rfl⟩ := ih (lt_of_lt_of_le hpos hs.values) hgrew.2
    refine ⟨⟨a, s, b, s'⟩ :: visits, ⟨hs.trans hvisits.grew, ?_, ?_, ?_⟩, rfl, rfl⟩
    · rw [List.forall_mem_cons]
      exact ⟨hstep, hvisits.steps⟩
    · rw [List.forall_mem_cons]
      refine ⟨⟨.refl s, hvisits.grew⟩, fun x hx => ?_⟩
      exact ⟨hs.trans (hvisits.within x hx).1, (hvisits.within x hx).2⟩
    · rw [List.pairwise_cons]
      exact ⟨fun x hx => (hvisits.within x hx).1, hvisits.apart⟩

/-- A run that finds nothing wrong with any item ends well. -/
theorem exists_collect {α β : Type} {step : Fresh → α → Outcome Diagnostic (β × Fresh)}
    {as : List α} {s : Fresh} (hpos : 0 < s.nextValue)
    (h : ∀ a ∈ as, ∀ u, 0 < u.nextValue → ∃ b u', step u a = .ok (b, u') ∧ u.Grew u') :
    ∃ bs t, collect step s as = .ok (bs, [], t) := by
  induction as generalizing s with
  | nil => exact ⟨[], s, rfl⟩
  | cons a as ih =>
    rw [List.forall_mem_cons] at h
    obtain ⟨b, s', hstep, hs⟩ := h.1 s hpos
    obtain ⟨bs, t, hrest⟩ := ih (lt_of_lt_of_le hpos hs.values) h.2
    refine ⟨b :: bs, t, ?_⟩
    rw [collect, hstep]
    dsimp only
    rw [hrest]
    rfl

namespace Link

variable {α β γ ζ : Type} {ρ : StructId → StructId} {act : Renaming → β → ζ}

/-- Two visits whose results are the same up to a link of their own. -/
def SameVisit (ρ : StructId → StructId) (act : Renaming → β → ζ) (x : Visit α β) (y : Visit γ ζ) :
    Prop :=
  ∃ L : Link, (new ρ x.start y.start).Grows L ∧ L.Fits x.stop y.stop ∧ L.Same act x.output y.output

/-- **The links of single visits make up one renaming**, if the visits of either run do not
overlap. -/
theorem exists_renaming {s s' t t' : Fresh} {xs : List (Visit α β)} {ys : List (Visit γ ζ)}
    (h : List.Forall₂ (SameVisit ρ act) xs ys) (hs : 0 < s.nextValue) (ht : 0 < t.nextValue)
    (hsgrew : s.Grew s') (htgrew : t.Grew t')
    (hxs : ∀ x ∈ xs, s.Grew x.start ∧ x.stop.Grew s')
    (hys : ∀ y ∈ ys, t.Grew y.start ∧ y.stop.Grew t')
    (hx : xs.Pairwise fun x x' => x.stop.Grew x'.start ∨ x'.stop.Grew x.start)
    (hy : ys.Pairwise fun y y' => y.stop.Grew y'.start ∨ y'.stop.Grew y.start) :
    ∃ r : Renaming, r.struct = ρ ∧ Function.Injective r.value ∧ Function.Injective r.point ∧
      ys.map Visit.output = xs.map fun x => act r x.output := by
  -- each pair of visits with its link
  obtain ⟨zs, rfl, rfl, hzs⟩ : ∃ zs : List ((Visit α β × Visit γ ζ) × Link),
      zs.map (·.1.1) = xs ∧ zs.map (·.1.2) = ys ∧ ∀ z ∈ zs,
        (new ρ z.1.1.start z.1.2.start).Grows z.2 ∧ z.2.Fits z.1.1.stop z.1.2.stop ∧
          z.2.Same act z.1.1.output z.1.2.output := by
    clear hxs hys hx hy
    induction h with
    | nil => exact ⟨[], rfl, rfl, nofun⟩
    | cons hsame _ ih =>
      obtain ⟨L, hL⟩ := hsame
      obtain ⟨zs, rfl, rfl, hzs⟩ := ih
      exact ⟨⟨⟨_, _⟩, L⟩ :: zs, rfl, rfl, List.forall_mem_cons.2 ⟨hL, hzs⟩⟩
  rw [List.forall_mem_map] at hxs hys
  rw [List.pairwise_map] at hx hy
  let whole : Link := ⟨ρ, s, t, zs.flatMap (·.2.values), zs.flatMap (·.2.points)⟩
  have hvalues : Paired s.nextValue s'.nextValue t.nextValue t'.nextValue whole.values := by
    refine Paired.flatMap (·.1.1.start.nextValue) (·.1.1.stop.nextValue) (·.1.2.start.nextValue)
      (·.1.2.stop.nextValue) (fun z hz => ?_) (hx.imp fun h => h.imp (·.values) (·.values))
      (hy.imp fun h => h.imp (·.values) (·.values)) hsgrew.values htgrew.values fun z hz =>
        ⟨⟨(hxs z hz).1.values, (hxs z hz).2.values⟩, (hys z hz).1.values, (hys z hz).2.values⟩
    have hvalues := (hzs z hz).2.1.values
    rwa [(hzs z hz).1.left, (hzs z hz).1.right] at hvalues
  have hpoints : Paired s.nextPoint s'.nextPoint t.nextPoint t'.nextPoint whole.points := by
    refine Paired.flatMap (·.1.1.start.nextPoint) (·.1.1.stop.nextPoint) (·.1.2.start.nextPoint)
      (·.1.2.stop.nextPoint) (fun z hz => ?_) (hx.imp fun h => h.imp (·.points) (·.points))
      (hy.imp fun h => h.imp (·.points) (·.points)) hsgrew.points htgrew.points fun z hz =>
        ⟨⟨(hxs z hz).1.points, (hxs z hz).2.points⟩, (hys z hz).1.points, (hys z hz).2.points⟩
    have hpoints := (hzs z hz).2.1.points
    rwa [(hzs z hz).1.left, (hzs z hz).1.right] at hpoints
  have hfits : whole.Fits s' t' := ⟨hs, ht, hvalues, hpoints⟩
  obtain ⟨r, hr, hvalue, hpoint⟩ := hfits.exists_follows
  refine ⟨r, hr.struct, hvalue, hpoint, ?_⟩
  rw [List.map_map, List.map_map]
  refine List.map_congr_left fun z hz => ?_
  refine (hzs z hz).2.2 r ⟨hr.struct.trans (hzs z hz).1.struct.symm, fun p hp => ?_, fun p hp => ?_⟩
  · exact hr.value p (List.mem_flatMap.2 ⟨z, hz, hp⟩)
  · exact hr.point p (List.mem_flatMap.2 ⟨z, hz, hp⟩)

end Link

/-! ### Another order -/

/-- A permutation of the values of a function comes from one of the arguments. -/
theorem exists_perm_map_eq {α β : Type} {f : α → β} {l : List α} {l' : List β}
    (h : l'.Perm (l.map f)) : ∃ p : List α, p.Perm l ∧ p.map f = l' := by
  have hvalues : List.Forall₂ (fun b a => f a = b) (l.map f) l := by
    rw [List.forall₂_map_left_iff]
    exact List.forall₂_same.2 fun a _ => rfl
  obtain ⟨p, hp, hperm⟩ := List.perm_comp_forall₂ h hvalues
  refine ⟨p, hperm, ?_⟩
  rw [← List.forall₂_eq_eq_eq, List.forall₂_map_left_iff]
  exact hp.flip

/-- **The same results in another order**: each of the items `as` has its result in `bs`, and each
of `as'`, which are the same items, has in `bs'` what `f` makes of that result. -/
def Reordered {α β γ : Type} (f : β → γ) (as : List α) (bs : List β) (as' : List α) (bs' : List γ) :
    Prop :=
  ∃ ps ps' : List (α × β), ps'.Perm ps ∧ ps.map (·.1) = as ∧ ps.map (·.2) = bs ∧
    ps'.map (·.1) = as' ∧ ps'.map (fun p => f p.2) = bs'

theorem Reordered.map {α β γ ζ : Type} {f : β → γ} {as as' : List α} {bs : List β} {bs' : List γ}
    (h : Reordered f as bs as' bs') (g : α → ζ) :
    Reordered f (as.map g) bs (as'.map g) bs' := by
  obtain ⟨ps, ps', hperm, rfl, rfl, rfl, rfl⟩ := h
  exact ⟨ps.map fun p => (g p.1, p.2), ps'.map fun p => (g p.1, p.2), hperm.map _, by simp, by simp,
    by simp, by simp⟩

namespace Link

variable {α β γ ζ : Type} {ρ : StructId → StructId} {act : Renaming → β → ζ}
  {step : Fresh → α → Outcome Diagnostic (β × Fresh)}
  {step' : Fresh → γ → Outcome Diagnostic (ζ × Fresh)} {f : α → γ} {s s' t : Fresh}

/-- **A run is repeated**, its steps possibly in another order.  If each item is treated in the same
way in both runs, whatever was drawn before, then the second run ends well too, and its results are
those of the first renamed. -/
theorem exists_collect_visits {xs xs' : List (Visit α β)}
    (hsimulates : ∀ x ∈ xs, ∀ u v, 0 < u.nextValue → 0 < v.nextValue →
      (new ρ u v).Simulates (fun L => L.Same act) (step u x.input) (step' v (f x.input)))
    (hgrew : ∀ x ∈ xs, ∀ u b u', 0 < u.nextValue → step' u (f x.input) = .ok (b, u') → u.Grew u')
    (hperm : xs'.Perm xs) (hs : 0 < s.nextValue) (ht : 0 < t.nextValue)
    (hxs : Visits step s s' xs) :
    ∃ (t' : Fresh) (r : Renaming), r.struct = ρ ∧ Function.Injective r.value ∧
      Function.Injective r.point ∧ collect step' t (xs'.map fun x => f x.input) =
        .ok (xs'.map fun x => act r x.output, [], t') := by
  have hgrew' : ∀ c ∈ xs'.map (fun x => f x.input), ∀ u b u', 0 < u.nextValue →
      step' u c = .ok (b, u') → u.Grew u' := by
    rw [List.forall_mem_map]
    exact fun x hx => hgrew x (hperm.subset hx)
  -- what a visit of the first run came to, it comes to anywhere in the second
  have hagain : ∀ x ∈ xs', ∀ u, 0 < u.nextValue → ∃ b u', step' u (f x.input) = .ok (b, u') ∧
      SameVisit ρ act x (⟨f x.input, u, b, u'⟩ : Visit γ ζ) := by
    intro x hx u hu
    have hx := hperm.subset hx
    exact hsimulates x hx x.start u (lt_of_lt_of_le hs (hxs.within x hx).1.values) hu _ _
      (hxs.steps x hx)
  obtain ⟨bs', t', hrun'⟩ : ∃ bs' t', collect step' t (xs'.map fun x => f x.input) =
      .ok (bs', [], t') := by
    refine exists_collect ht ?_
    rw [List.forall_mem_map]
    intro x hx u hu
    obtain ⟨b, u', hb, -⟩ := hagain x hx u hu
    exact ⟨b, u', hb, hgrew x (hperm.subset hx) u b u' hu hb⟩
  obtain ⟨ys, hys, hinputs, rfl⟩ := (collect_ok hrun').exists_visits ht hgrew'
  have hsame : List.Forall₂ (SameVisit ρ act) xs' ys := by
    have haligned : List.Forall₂ (fun x y => f x.input = y.input) xs' ys := by
      rw [← List.forall₂_eq_eq_eq, List.forall₂_map_left_iff, List.forall₂_map_right_iff] at hinputs
      exact hinputs.flip.imp fun _ _ => Eq.symm
    rw [List.forall₂_iff_zip] at haligned ⊢
    refine ⟨haligned.1, fun {x y} hxy => ?_⟩
    obtain ⟨hx, hy⟩ := List.of_mem_zip hxy
    obtain ⟨b, u', hb, hvisit⟩ := hagain x hx y.start
      (lt_of_lt_of_le ht (hys.within y hy).1.values)
    have hstep := hys.steps y hy
    rw [← haligned.2 hxy, hb] at hstep
    cases hstep
    exact hvisit
  have hsymm : ∀ {x y : Visit α β}, x.stop.Grew y.start ∨ y.stop.Grew x.start →
      y.stop.Grew x.start ∨ x.stop.Grew y.start := Or.symm
  obtain ⟨r, hr, hvalue, hpoint, heq⟩ := exists_renaming hsame hs ht hxs.grew hys.grew
    (fun x hx => hxs.within x (hperm.subset hx)) hys.within
    ((hperm.pairwise_iff hsymm).2 (hxs.apart.imp .inl)) (hys.apart.imp .inl)
  exact ⟨t', r, hr, hvalue, hpoint, heq ▸ hrun'⟩

variable {as as' : List α} {bs : List β}

/-- **A run in the same order.** -/
theorem exists_collect_map {step' : Fresh → α → Outcome Diagnostic (ζ × Fresh)}
    (hsimulates : ∀ a ∈ as, ∀ u v, 0 < u.nextValue → 0 < v.nextValue →
      (new ρ u v).Simulates (fun L => L.Same act) (step u a) (step' v a))
    (hgrew : ∀ a ∈ as, ∀ u b u', 0 < u.nextValue → step u a = .ok (b, u') → u.Grew u')
    (hgrew' : ∀ a ∈ as, ∀ u b u', 0 < u.nextValue → step' u a = .ok (b, u') → u.Grew u')
    (hs : 0 < s.nextValue) (ht : 0 < t.nextValue) (hrun : collect step s as = .ok (bs, [], s')) :
    ∃ (t' : Fresh) (r : Renaming), r.struct = ρ ∧ Function.Injective r.value ∧
      Function.Injective r.point ∧ collect step' t as = .ok (bs.map (act r), [], t') := by
  obtain ⟨xs, hxs, rfl, rfl⟩ := (collect_ok hrun).exists_visits hs hgrew
  rw [List.forall_mem_map] at hsimulates hgrew'
  simp only [List.map_map]
  exact exists_collect_visits (f := id) hsimulates hgrew' (.refl xs) hs ht hxs

/-- **A run in another order.** -/
theorem exists_collect_perm
    (hsimulates : ∀ a ∈ as, ∀ u v, 0 < u.nextValue → 0 < v.nextValue →
      (new ρ u v).Simulates (fun L => L.Same act) (step u a) (step' v (f a)))
    (hgrew : ∀ a ∈ as, ∀ u b u', 0 < u.nextValue → step u a = .ok (b, u') → u.Grew u')
    (hgrew' : ∀ a ∈ as, ∀ u b u', 0 < u.nextValue → step' u (f a) = .ok (b, u') → u.Grew u')
    (hperm : as'.Perm as) (hs : 0 < s.nextValue) (ht : 0 < t.nextValue)
    (hrun : collect step s as = .ok (bs, [], s')) :
    ∃ (bs' : List ζ) (t' : Fresh) (r : Renaming),
      collect step' t (as'.map f) = .ok (bs', [], t') ∧ r.struct = ρ ∧
      Function.Injective r.value ∧ Function.Injective r.point ∧
      Reordered (act r) as bs as' bs' := by
  obtain ⟨xs, hxs, rfl, rfl⟩ := (collect_ok hrun).exists_visits hs hgrew
  rw [List.forall_mem_map] at hsimulates hgrew'
  obtain ⟨xs', hxs', rfl⟩ := exists_perm_map_eq hperm
  obtain ⟨t', r, hr, hvalue, hpoint, hrun'⟩ :=
    exists_collect_visits hsimulates hgrew' hxs' hs ht hxs
  rw [List.map_map]
  refine ⟨_, t', r, hrun', hr, hvalue, hpoint, xs.map fun x => (x.input, x.output),
    xs'.map fun x => (x.input, x.output), hxs'.map _, ?_, ?_, ?_, ?_⟩
  · rw [List.map_map]
    rfl
  · rw [List.map_map]
    rfl
  · rw [List.map_map]
    rfl
  · rw [List.map_map]
    rfl

end Link

end RangeTyping
