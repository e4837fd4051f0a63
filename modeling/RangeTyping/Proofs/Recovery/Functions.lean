import Mathlib
import RangeTyping.Proofs.Isolation.Session
import RangeTyping.Proofs.Order.Module

/-!
# What comes of each function

All that an analysis carries from one body to the next is the supply of identities, also where a body
is wrong.  `Signature.attemptAll` lists what comes of each function of a module, in order.

What comes of a body depends on the supply only in the identities that are drawn from it
(`LookupContext.Registered.sameOutcome`): its first error is always the same, and its typed function
is so up to a renaming.  So in two runs the same comes of the same functions, whatever came of those
between them (`LookupContext.Registered.forall₂_sameFunction`).
-/

namespace RangeTyping

/-- What is wrong, if anything is. -/
def complaint? {ε α : Type} : Except ε α → Option ε
  | .ok _ => none
  | .error e => some e

/-- **Analyses functions one after another**, with what comes of each. -/
def Signature.attemptAll (env : Env) :
    List Signature → Analysis (List (Signature × Except Diagnostic TypedFunction))
  | [] => return []
  | sig :: rest => do
    let outcome ← (sig.analyze env).attempt
    return (sig, outcome) :: (← attemptAll env rest)

/-- **The same comes of a function**: the same error, or the same typed function up to a renaming of
identities that is one to one. -/
inductive SameOutcome : Except Diagnostic TypedFunction → Except Diagnostic TypedFunction → Prop where
  | error (d : Diagnostic) : SameOutcome (.error d) (.error d)
  | ok (f : TypedFunction) (r : Renaming) (struct : r.struct = id)
      (value : Function.Injective r.value) (point : Function.Injective r.point) :
      SameOutcome (.ok f) (.ok (r.function f))

/-- The same function, of which the same comes. -/
def SameFunction (x y : Signature × Except Diagnostic TypedFunction) : Prop :=
  y.1 = x.1 ∧ SameOutcome x.2 y.2

/-! ### Attempts -/

namespace Analysis

variable {α : Type} {x : Analysis α} {s s' : Fresh}

theorem attempt_of_ok {a : α} (h : x s = .ok (a, s')) : x.attempt s = .ok (.ok a, s') := by
  rw [attempt, h]

theorem attempt_of_error {d : Diagnostic} (h : x s = .error (.error d)) :
    x.attempt s = .ok (.error d, s) := by
  rw [attempt, h]

theorem ok_of_attempt {a : α} (h : x.attempt s = .ok (.ok a, s')) : x s = .ok (a, s') := by
  rcases attempt_ok h with ⟨b, hb, hx⟩ | ⟨d, hd, -⟩
  · cases hb
    exact hx
  · cases hd

theorem error_of_attempt {d : Diagnostic} (h : x.attempt s = .ok (.error d, s')) :
    x s = .error (.error d) := by
  unfold attempt at h
  split at h
  · cases h
  · rename_i hx
    cases h
    exact hx
  · cases h

end Analysis

/-! ### Other supplies -/

theorem Overload.renumber_id (o : Overload) : o.renumber id = o := by
  rw [renumber, Ty.renumber_id]

theorem Diagnostic.renumber_id (d : Diagnostic) : d.renumber id = d := by
  obtain ⟨cause, location⟩ := d
  cases cause with
  | cast e => cases e <;> simp [renumber, Cause.renumber, CastError.renumber]
  | _ => simp [renumber, Cause.renumber]

namespace Past

/-- The past in which the supply came about, and nothing else. -/
def drawn (u : Fresh) : Past := ⟨#[], u.nextValue - 1, u.nextPoint, 0⟩

variable {u : Fresh}

theorem fresh_drawn (hu : 0 < u.nextValue) : (drawn u).fresh ⟨1, 0⟩ = u := by
  obtain ⟨values, points⟩ := u
  simp only [fresh, drawn, Fresh.mk.injEq]
  dsimp only at hu
  omega

@[simp] theorem struct_drawn : (drawn u).struct = id := by
  funext i
  exact Nat.zero_add i

theorem store_drawn (S : StructStore) : (drawn u).store S = S := by
  have hbody : (drawn u).body = id := by
    funext b
    obtain ⟨name, layout⟩ := b
    cases layout <;> simp [body, Layout.mapTypes]
  rw [store, hbody, Array.map_id]
  show StructStore.mk (#[] ++ S.bodies) = S
  rw [Array.empty_append]

end Past

namespace LookupContext.Registered

variable {cookie : Registration → Nat} {S : StructStore} {sigs : List Signature}
  {c : LookupContext} {options : Options} {sig : Signature} {u v : Fresh}

/-- Nothing in the context of a module was drawn from a supply. -/
theorem context_drawn (hc : c.Registered cookie S sigs) : (Past.drawn u).context c = c := by
  have htypes : (c.current.types.map fun e => (e.1, e.2.renumber (Past.drawn u).struct)) =
      c.current.types := by simp
  have hobjects : (c.current.objects.map fun e => (e.1, (Past.drawn u).object e.2)) =
      c.current.objects := by
    rw [List.map_congr_left (g := id) fun e he => ?_, List.map_id]
    -- outside bodies there are no variables, and functions have no identities
    obtain ⟨f, hf, -⟩ := hc.functions e.1 e.2 he
    obtain ⟨name, object⟩ := e
    obtain rfl : object = .function f := hf
    simp [Past.object, List.map_congr_left fun o _ => Overload.renumber_id o]
  have houter : c.outer.map (Past.drawn u).scope = c.outer := by
    rw [hc.outer]
    exact congrArg LookupContext.outer
      (Past.context_moduleContext (p := Past.drawn u))
  obtain ⟨⟨types, objects, casts⟩, outer, typeIds⟩ := c
  simp_all [Past.context, Past.scope]

/-- **The supply does not decide what comes of a body**: every supply is one from which nothing was
drawn, after a past. -/
theorem agrees_analyze (hc : c.Registered cookie S sigs) (options : Options) (sig : Signature)
    (hu : 0 < u.nextValue) :
    Outcome.Agrees (· = ·) (fun _ _ => True)
      (sig.analyze ⟨S, .ofBackend cookie, options, "", (BuiltinTypes.ofBackend cookie).voidTy, c⟩
        ⟨1, 0⟩)
      (sig.analyze ⟨S, .ofBackend cookie, options, "", (BuiltinTypes.ofBackend cookie).voidTy, c⟩
        u) := by
  have hone : 0 < (⟨1, 0⟩ : Fresh).nextValue := Nat.one_pos
  have hrepeats := Past.analyzeFunction (p := Past.drawn u) (hc.proper options "" hone).sole sig
    ⟨1, 0⟩ hone
  rw [Past.fresh_drawn hu, Past.struct_drawn, Signature.renumber_id, Past.env, Past.store_drawn,
    hc.context_drawn, Ty.renumber_voidTy] at hrepeats
  refine hrepeats.mono (fun d d' h => ?_) fun _ _ _ => trivial
  rw [h, Past.struct_drawn, Diagnostic.renumber_id]

/-- The first error of a body is the same from every supply. -/
theorem analyze_eq_error (hc : c.Registered cookie S sigs) (hu : 0 < u.nextValue)
    (hv : 0 < v.nextValue) {d : Diagnostic}
    (h : sig.analyze ⟨S, .ofBackend cookie, options, "", (BuiltinTypes.ofBackend cookie).voidTy, c⟩
      u = .error (.error d)) :
    sig.analyze ⟨S, .ofBackend cookie, options, "", (BuiltinTypes.ofBackend cookie).voidTy, c⟩ v =
      .error (.error d) := by
  -- both supplies compare with the one from which nothing was drawn
  have hatu := hc.agrees_analyze options sig hu
  have hatv := hc.agrees_analyze options sig hv
  rw [h] at hatu
  generalize sig.analyze _ ⟨1, 0⟩ = x at hatu hatv
  cases hatu with
  | fail hd =>
    subst hd
    generalize sig.analyze _ v = y at hatv ⊢
    cases hatv with
    | fail hd => rw [hd]

/-- Names stand for the same in the same context. -/
theorem matches_self (hc : c.Registered cookie S sigs) {L : Link} (hL : L.struct = id) :
    c.Matches L c where
  type name := by
    rw [hL, show Ty.renumber id = id from funext Ty.renumber_id, Option.map_id]
    rfl
  object name := by
    cases hobject : c.object? name with
    | none => exact .none
    | some object =>
      cases object with
      | «variable» w =>
        have hone : 0 < (⟨1, 0⟩ : Fresh).nextValue := Nat.one_pos
        exact absurd ((hc.proper .default "" hone).mem_scope hobject) List.not_mem_nil
      | function f =>
        refine .some (.function (List.Perm.of_eq ?_))
        rw [hL, List.map_congr_left fun o _ => Overload.renumber_id o, List.map_id']
  taken _ := rfl
  casts := rfl

/-- **The same comes of a function from every supply.** -/
theorem sameOutcome (hc : c.Registered cookie S sigs) (hsig : sig ∈ sigs) (hu : 0 < u.nextValue)
    (hv : 0 < v.nextValue) {o o' : Except Diagnostic TypedFunction} {u' v' : Fresh}
    (h : (sig.analyze ⟨S, .ofBackend cookie, options, "", (BuiltinTypes.ofBackend cookie).voidTy,
      c⟩).attempt u = .ok (o, u'))
    (h' : (sig.analyze ⟨S, .ofBackend cookie, options, "", (BuiltinTypes.ofBackend cookie).voidTy,
      c⟩).attempt v = .ok (o', v')) : SameOutcome o o' := by
  cases o with
  | error d =>
    have hd := hc.analyze_eq_error hu hv (Analysis.error_of_attempt h)
    rw [Analysis.attempt_of_error hd] at h'
    cases h'
    exact .error d
  | ok f =>
    have hsimulates := hc.simulates_analyze hc (renumbers_id c) Function.injective_id
      (fun L hL => hc.matches_self hL) (.refl options) hsig hu hv
    rw [Signature.renumber_id] at hsimulates
    obtain ⟨f', v'', hf', L, hL, hfits, hsame⟩ := hsimulates f u' (Analysis.ok_of_attempt h)
    -- what one run drew stands for what the other drew in its place
    obtain ⟨r, hr, hvalue, hpoint⟩ := hfits.exists_follows
    rw [Analysis.attempt_of_ok hf'] at h'
    cases h'
    rw [hsame r hr]
    exact .ok f r (hr.struct.trans hL.struct) hvalue hpoint

end LookupContext.Registered

/-! ### Runs over the functions of a module -/

namespace Signature

variable {env : Env} {sigs : List Signature} {s t : Fresh}
  {xs : List (Signature × Except Diagnostic TypedFunction)}

theorem attemptAll_cons {sig : Signature} (h : attemptAll env (sig :: sigs) s = .ok (xs, t)) :
    ∃ o u ys, (sig.analyze env).attempt s = .ok (o, u) ∧ attemptAll env sigs u = .ok (ys, t) ∧
      xs = (sig, o) :: ys := by
  obtain ⟨o, u, ho, h⟩ := Analysis.bind_ok h
  obtain ⟨ys, v, hys, h⟩ := Analysis.bind_ok h
  cases h
  exact ⟨o, u, ys, ho, hys, rfl⟩

theorem attemptAll_of_cons {sig : Signature} {o : Except Diagnostic TypedFunction} {u : Fresh}
    (ho : (sig.analyze env).attempt s = .ok (o, u)) (h : attemptAll env sigs u = .ok (xs, t)) :
    attemptAll env (sig :: sigs) s = .ok ((sig, o) :: xs, t) := by
  rw [attemptAll, Analysis.bind_of_ok ho, Analysis.bind_of_ok h]
  rfl

theorem map_fst_of_attemptAll (h : attemptAll env sigs s = .ok (xs, t)) : xs.map (·.1) = sigs := by
  induction sigs generalizing s xs with
  | nil =>
    cases h
    rfl
  | cons sig sigs ih =>
    obtain ⟨o, u, ys, -, hys, rfl⟩ := attemptAll_cons h
    rw [List.map_cons, ih hys]

/-- **What a run collects** is what comes of the functions, one by one. -/
theorem exists_attemptAll {fs : List TypedFunction} {ds : List Diagnostic}
    (h : collect (fun s (sig : Signature) => sig.analyze env s) s sigs = .ok (fs, ds, t)) :
    ∃ xs, attemptAll env sigs s = .ok (xs, t) ∧ fs = xs.filterMap (·.2.toOption) ∧
      ds = xs.filterMap (complaint? ·.2) := by
  induction sigs generalizing s fs ds with
  | nil =>
    cases h
    exact ⟨[], rfl, rfl, rfl⟩
  | cons sig sigs ih =>
    rw [collect] at h
    split at h
    · cases h
    · rename_i d hd
      obtain ⟨⟨fs', ds', t'⟩, hrest, h⟩ := Outcome.bind_ok h
      cases h
      obtain ⟨xs, hxs, rfl, rfl⟩ := ih hrest
      exact ⟨_, attemptAll_of_cons (Analysis.attempt_of_error hd) hxs, rfl, rfl⟩
    · rename_i f u hf
      obtain ⟨⟨fs', ds', t'⟩, hrest, h⟩ := Outcome.bind_ok h
      cases h
      obtain ⟨xs, hxs, rfl, rfl⟩ := ih hrest
      exact ⟨_, attemptAll_of_cons (Analysis.attempt_of_ok hf) hxs, rfl, rfl⟩

/-- Functions of which nothing is wrong. -/
theorem map_snd_of_complaints (h : xs.filterMap (complaint? ·.2) = []) :
    xs.map (·.2) = (xs.filterMap (·.2.toOption)).map .ok := by
  induction xs with
  | nil => rfl
  | cons x xs ih =>
    obtain ⟨sig, o⟩ := x
    cases o with
    | error d => cases h
    | ok f => exact congrArg (Except.ok f :: ·) (ih h)

/-- What came of a function when its turn came. -/
def Attempted (env : Env) (x : Signature × Except Diagnostic TypedFunction) : Prop :=
  ∃ u u', 0 < u.nextValue ∧ (x.1.analyze env).attempt u = .ok (x.2, u')

end Signature

namespace LookupContext.Registered

variable {cookie : Registration → Nat} {S : StructStore} {sigs sigs' : List Signature}
  {c : LookupContext} {options : Options} {s t : Fresh}
  {xs ys : List (Signature × Except Diagnostic TypedFunction)}

/-- **Every function has its turn**, whatever came of those before it. -/
theorem attempted (hc : c.Registered cookie S sigs) (hsub : ∀ sig ∈ sigs', sig ∈ sigs)
    (hpos : 0 < s.nextValue)
    (h : Signature.attemptAll ⟨S, .ofBackend cookie, options, "",
      (BuiltinTypes.ofBackend cookie).voidTy, c⟩ sigs' s = .ok (xs, t)) :
    ∀ x ∈ xs, Signature.Attempted ⟨S, .ofBackend cookie, options, "",
      (BuiltinTypes.ofBackend cookie).voidTy, c⟩ x := by
  induction sigs' generalizing s xs with
  | nil =>
    cases h
    exact fun x hx => absurd hx List.not_mem_nil
  | cons sig sigs' ih =>
    rw [List.forall_mem_cons] at hsub
    obtain ⟨o, u, ys, ho, hys, rfl⟩ := Signature.attemptAll_cons h
    have hu : 0 < u.nextValue := by
      rcases Analysis.attempt_ok ho with ⟨f, rfl, hf⟩ | ⟨d, rfl, rfl⟩
      · exact lt_of_lt_of_le hpos ((hc.implements hpos hsub.1 hf).2 "").grew.values
      · exact hpos
    rw [List.forall_mem_cons]
    exact ⟨⟨s, u, hpos, ho⟩, ih hsub.2 hu hys⟩

/-- **The same comes of the same functions** in two runs. -/
theorem forall₂_sameFunction (hc : c.Registered cookie S sigs)
    (hfst : ys.map (·.1) = xs.map (·.1)) (hmem : ∀ x ∈ xs, x.1 ∈ sigs)
    (hxs : ∀ x ∈ xs, Signature.Attempted ⟨S, .ofBackend cookie, options, "",
      (BuiltinTypes.ofBackend cookie).voidTy, c⟩ x)
    (hys : ∀ y ∈ ys, Signature.Attempted ⟨S, .ofBackend cookie, options, "",
      (BuiltinTypes.ofBackend cookie).voidTy, c⟩ y) : List.Forall₂ SameFunction xs ys := by
  induction xs generalizing ys with
  | nil =>
    rw [List.map_eq_nil_iff.1 hfst]
    exact .nil
  | cons x xs ih =>
    obtain ⟨y, ys, rfl, hy, hfst⟩ := List.map_eq_cons_iff.1 hfst
    rw [List.forall_mem_cons] at hmem hxs hys
    refine .cons ⟨hy, ?_⟩ (ih hfst hmem.2 hxs.2 hys.2)
    obtain ⟨u, u', hu, hattempt⟩ := hxs.1
    obtain ⟨v, v', hv, hattempt'⟩ := hys.1
    rw [hy] at hattempt'
    exact hc.sameOutcome hmem.1 hu hv hattempt hattempt'

/-- What comes of a function on its own. -/
theorem exists_alone (hc : c.Registered cookie S sigs) (options : Options) {sig : Signature}
    (hsig : sig ∈ sigs) (hpos : 0 < s.nextValue) :
    ∃ alone t, (sig.analyze ⟨S, .ofBackend cookie, options, "",
      (BuiltinTypes.ofBackend cookie).voidTy, c⟩).attempt s = .ok (alone, t) := by
  have hintact := Signature.intact_analyze (hc.proper options "" hpos) (hc.plain sig hsig).1
    (hc.plain sig hsig).2 (hc.arity sig hsig)
  unfold Analysis.attempt
  split
  · exact ⟨_, _, rfl⟩
  · exact ⟨_, _, rfl⟩
  · rename_i e he
    rw [he] at hintact
    exact hintact.elim

end LookupContext.Registered

end RangeTyping
