import Mathlib
import RangeTyping.Proofs.Recovery.Functions
import RangeTyping.Proofs.Structs.Overflow

/-!
# Recovery from errors is local

What is wrong with one function of a module does not change what comes of another.  Names and
signatures do not depend on bodies at all (`Source.Module.DifferInBody.exists_signatures`), and what
comes of a body does not depend on other bodies.

`Session.findings` lists what the stages of an analysis find, function by function.  The errors of a
module are those of its structs, of the names and signatures of its functions, and then, in the order
of the definitions, the first error of each body, and this is the one that the body has on its own
(`Session.recovers_locally`).
-/

namespace RangeTyping

/-! ### What is found -/

/-- All that is wrong with a module. -/
def Verdict.diagnostics (verdict : Verdict) : List Diagnostic := (complaint? verdict).getD []

/-- What the stages of an analysis find, and the surroundings in which bodies are analysed. -/
structure Findings where
  env : Env
  structErrors : List Diagnostic
  nameErrors : List Diagnostic
  signatureErrors : List Diagnostic
  /-- The functions that are registered, in order, and what comes of each. -/
  functions : List (Signature × Except Diagnostic TypedFunction)

/-- **What is found in a module**, stage by stage. -/
def Session.findings (s : Session) (options : Options) (m : Source.Module) :
    Outcome Diagnostic Findings := do
  let types := s.builtins.types
  let (_, structErrors, structs, context) ←
    m.declareStructs s.structs s.builtins.moduleContext
  let (reserved, nameErrors, context) ← collect Signature.reserve context m.functions
  let (signatures, signatureErrors, context) ←
    collect (Signature.register structs types.voidTy) context reserved
  let env : Env := ⟨structs, types, options, "", types.voidTy, context⟩
  let (functions, _) ← Signature.attemptAll env signatures s.fresh
  return ⟨env, structErrors, nameErrors, signatureErrors, functions⟩

/-- **The modules differ in the body of one function only**, which is `g` in the first and `g'` in the
second. -/
structure Source.Module.DifferInBody (g g' : Source.FunctionDef) (m m' : Source.Module) : Prop where
  body : g' = { g with body := g'.body }
  definitions : ∃ before after, m.definitions = before ++ .function g :: after ∧
    m' = { m with definitions := before ++ .function g' :: after }

/-- The signature of another definition with the same arguments and result. -/
def Signature.redefine (g : Source.FunctionDef) (sig : Signature) : Signature :=
  { sig with definition := g }

/-- **The same is found in two modules**, but for the body of one function.  Its place is taken by
`g'` where it is `g`, if `g` is registered at all. -/
structure Findings.SameBut (g g' : Source.FunctionDef) (R R' : Findings) : Prop where
  env : R'.env = R.env
  structErrors : R'.structErrors = R.structErrors
  nameErrors : R'.nameErrors = R.nameErrors
  signatureErrors : R'.signatureErrors = R.signatureErrors
  functions : List.Forall₂ SameFunction R.functions R'.functions ∨
    ∃ xs sig o ys xs' o' ys', sig.definition = g ∧
      R.functions = xs ++ (sig, o) :: ys ∧
      R'.functions = xs' ++ (sig.redefine g', o') :: ys' ∧
      List.Forall₂ SameFunction xs xs' ∧ List.Forall₂ SameFunction ys ys'

/-! ### Runs over a list of items -/

section Collect

variable {σ α β : Type} {step : σ → α → Outcome Diagnostic (β × σ)} {s t : σ} {as : List α}
  {bs : List β} {ds : List Diagnostic}

/-- What a run does not leave out stays in order. -/
theorem sublist_of_collect (origin : β → α) (h : collect step s as = .ok (bs, ds, t))
    (hstep : ∀ s a b s', step s a = .ok (b, s') → origin b = a) :
    (bs.map origin).Sublist as := by
  induction as generalizing s bs ds with
  | nil =>
    cases h
    exact .slnil
  | cons a as ih =>
    rw [collect] at h
    split at h
    · cases h
    · obtain ⟨⟨bs', ds', t'⟩, hrest, h⟩ := Outcome.bind_ok h
      cases h
      exact (ih hrest).cons a
    · rename_i b s' hs
      obtain ⟨⟨bs', ds', t'⟩, hrest, h⟩ := Outcome.bind_ok h
      cases h
      rw [List.map_cons, hstep s a b s' hs]
      exact (ih hrest).cons_cons a

/-- **One item of a run is replaced** by another that fares in the same way.  Either both are left
out, or what comes of the one stands where what comes of the other was. -/
theorem collect_replace {a a' : α} {xs ys : List α} {φ : β → β}
    (h : collect step s (xs ++ a :: ys) = .ok (bs, ds, t))
    (hstep : ∀ s, step s a' = (step s a).map fun x => (φ x.1, x.2)) :
    collect step s (xs ++ a' :: ys) = .ok (bs, ds, t) ∨
      ∃ bs₁ b bs₂ u u', bs = bs₁ ++ b :: bs₂ ∧ step u a = .ok (b, u') ∧
        collect step s (xs ++ a' :: ys) = .ok (bs₁ ++ φ b :: bs₂, ds, t) := by
  induction xs generalizing s bs ds with
  | nil =>
    rw [List.nil_append, collect] at h ⊢
    rw [hstep]
    cases ha : step s a with
    | error e =>
      rw [ha] at h
      exact .inl h
    | ok x =>
      obtain ⟨b, s'⟩ := x
      rw [ha] at h
      obtain ⟨⟨bs', ds', t'⟩, hrest, h⟩ := Outcome.bind_ok h
      cases h
      -- both items leave the same state to those after them
      refine .inr ⟨[], b, bs', s, s', rfl, ha, ?_⟩
      simp only [Except.map, hrest, bind, Except.bind]
      rfl
  | cons x xs ih =>
    rw [List.cons_append, collect] at h ⊢
    split at h
    · cases h
    · obtain ⟨⟨bs', ds', t'⟩, hrest, h⟩ := Outcome.bind_ok h
      cases h
      rcases ih hrest with hsame | ⟨bs₁, b, bs₂, u, u', rfl, hb, hother⟩
      · rw [hsame]
        exact .inl rfl
      · rw [hother]
        exact .inr ⟨bs₁, b, bs₂, u, u', rfl, hb, rfl⟩
    · obtain ⟨⟨bs', ds', t'⟩, hrest, h⟩ := Outcome.bind_ok h
      cases h
      rcases ih hrest with hsame | ⟨bs₁, b, bs₂, u, u', rfl, hb, hother⟩
      · rw [hsame]
        exact .inl rfl
      · rw [hother]
        exact .inr ⟨_ :: bs₁, b, bs₂, u, u', rfl, hb, rfl⟩

end Collect

/-! ### Names and signatures -/

namespace Signature

variable {g g' : Source.FunctionDef}

theorem eq_of_reserve {f : Source.FunctionDef} {c c' : LookupContext}
    (h : reserve c g = .ok (f, c')) : f = g := by
  unfold reserve at h
  split at h
  · cases h
    rfl
  · cases h

/-- **Names are reserved without a look at bodies.** -/
theorem reserve_of_body (h : g' = { g with body := g'.body }) (c : LookupContext) :
    reserve c g' = (reserve c g).map fun x => (g', x.2) := by
  rw [h]
  unfold reserve
  dsimp only
  cases c.reserve g.name.text <;> rfl

theorem read_of_body (h : g' = { g with body := g'.body }) (S : StructStore) (nothing : Ty)
    (c : LookupContext) : read S nothing c g' =
      (read S nothing c g).map (redefine g') := by
  rw [h]
  unfold read
  dsimp only
  cases types c (g.arguments.map (·.type)) with
  | error d => rfl
  | ok parameters =>
    cases g.returns with
    | none => rfl
    | some t =>
      simp only [bind, Except.bind]
      cases c.resolveType t <;> rfl

theorem definition_of_register {S : StructStore} {nothing : Ty} {c c' : LookupContext}
    {sig : Signature} (h : register S nothing c g = .ok (sig, c')) : sig.definition = g :=
  definition_of_read (register_ok h).1

/-- **Signatures are registered without a look at bodies.** -/
theorem register_of_body (h : g' = { g with body := g'.body }) (S : StructStore) (nothing : Ty)
    (c : LookupContext) : register S nothing c g' =
      (register S nothing c g).map fun x => (x.1.redefine g', x.2) := by
  unfold register
  rw [read_of_body h]
  cases hread : read S nothing c g with
  | error d => rfl
  | ok sig =>
    have hoverload : (sig.redefine g').overload = sig.overload := by
      unfold redefine overload
      rw [definition_of_read hread, h]
      rfl
    have hrefused : refused g' = refused g := by
      rw [h]
      rfl
    dsimp only [Except.map]
    rw [hoverload, hrefused]
    cases (c.attach S sig.overload).mapError (refused g) <;> rfl

end Signature

namespace Source.Module.DifferInBody

variable {g g' : Source.FunctionDef} {m m' : Source.Module}

theorem structs (h : DifferInBody g g' m m') : m'.structs = m.structs := by
  obtain ⟨before, after, hm, rfl⟩ := h.definitions
  simp [Source.Module.structs, hm]

theorem functions (h : DifferInBody g g' m m') :
    ∃ before after, m.functions = before ++ g :: after ∧ m'.functions = before ++ g' :: after := by
  obtain ⟨before, after, hm, rfl⟩ := h.definitions
  simp only [Source.Module.functions, hm, List.filterMap_append, List.filterMap_cons]
  exact ⟨_, _, rfl, rfl⟩

/-- **Structs are declared without a look at functions.** -/
theorem declareStructs (h : DifferInBody g g' m m') (S : StructStore) (c : LookupContext) :
    m'.declareStructs S c = m.declareStructs S c := by
  unfold Source.Module.declareStructs
  rw [h.structs]

/-- **Functions are registered without a look at bodies**: in the second module as in the first, with
`g'` in the place of `g`, if `g` is registered at all. -/
theorem exists_signatures (h : DifferInBody g g' m m') {S : StructStore} {nothing : Ty}
    {c c₁ c₂ : LookupContext} {reserved : List Source.FunctionDef} {sigs : List Signature}
    {ds es : List Diagnostic}
    (hreserve : collect Signature.reserve c m.functions = .ok (reserved, ds, c₁))
    (hregister : collect (Signature.register S nothing) c₁ reserved = .ok (sigs, es, c₂)) :
    ∃ reserved' sigs', collect Signature.reserve c m'.functions = .ok (reserved', ds, c₁) ∧
      collect (Signature.register S nothing) c₁ reserved' = .ok (sigs', es, c₂) ∧
      (sigs' = sigs ∨ ∃ before sig after, sig.definition = g ∧ sigs = before ++ sig :: after ∧
        sigs' = before ++ sig.redefine g' :: after) := by
  obtain ⟨before, after, hm, hm'⟩ := h.functions
  rw [hm] at hreserve
  rw [hm']
  rcases collect_replace (φ := fun _ => g') hreserve (Signature.reserve_of_body h.body) with
    hsame | ⟨before₁, f, after₁, u, u', rfl, hf, hreserve'⟩
  · -- the name of `g` is refused in both modules
    exact ⟨reserved, sigs, hsame, hregister, .inl rfl⟩
  · obtain rfl : f = g := Signature.eq_of_reserve hf
    rcases collect_replace hregister (Signature.register_of_body h.body S nothing) with
      hsame | ⟨before₂, sig, after₂, v, v', rfl, hsig, hregister'⟩
    · -- its signature is refused in both
      exact ⟨_, sigs, hreserve', hsame, .inl rfl⟩
    · exact ⟨_, _, hreserve', hregister',
        .inr ⟨before₂, sig, after₂, Signature.definition_of_register hsig, rfl, rfl⟩⟩

end Source.Module.DifferInBody

/-! ### Modules -/

namespace Session

variable {cookie : Registration → Nat} {s : Session} {options : Options} {m m' : Source.Module}
  {R R' : Findings}

/-- What is found is found stage by stage. -/
theorem findings_ok (h : s.findings options m = .ok R) :
    ∃ declared S c₁ reserved c₂ signatures c₃ fresh,
      m.declareStructs s.structs s.builtins.moduleContext =
        .ok (declared, R.structErrors, S, c₁) ∧
      collect Signature.reserve c₁ m.functions = .ok (reserved, R.nameErrors, c₂) ∧
      collect (Signature.register S s.builtins.types.voidTy) c₂ reserved =
        .ok (signatures, R.signatureErrors, c₃) ∧
      R.env = ⟨S, s.builtins.types, options, "", s.builtins.types.voidTy, c₃⟩ ∧
      Signature.attemptAll R.env signatures s.fresh = .ok (R.functions, fresh) := by
  obtain ⟨⟨declared, structErrors, S, c₁⟩, hstructs, h⟩ := Outcome.bind_ok h
  obtain ⟨⟨reserved, nameErrors, c₂⟩, hreserve, h⟩ := Outcome.bind_ok h
  obtain ⟨⟨signatures, signatureErrors, c₃⟩, hregister, h⟩ := Outcome.bind_ok h
  obtain ⟨⟨functions, fresh⟩, hbodies, h⟩ := Outcome.bind_ok h
  cases h
  exact ⟨declared, S, c₁, reserved, c₂, signatures, c₃, fresh, Outcome.ofInternal_ok hstructs,
    Outcome.ofInternal_ok hreserve, Outcome.ofInternal_ok hregister, rfl, hbodies⟩

/-- Where an analysis stops at the structs nothing is found. -/
theorem findings_of_error {e : InternalError}
    (h : m.declareStructs s.structs s.builtins.moduleContext = .error e) :
    s.findings options m = .error (.internal e) := by
  rw [findings, h]
  rfl

/-- **What is found makes up the answer.** -/
theorem exists_findings {verdict : Verdict} {s' : Session}
    (h : s.analyze options m = .ok (verdict, s')) :
    ∃ R, s.findings options m = .ok R ∧
      verdict.diagnostics = R.structErrors ++ (R.nameErrors ++ R.signatureErrors) ++
        R.functions.filterMap (complaint? ·.2) ∧
      ∀ typed, verdict = .ok typed → R.functions.map (·.2) = typed.functions.map .ok := by
  obtain ⟨declared, structErrors, S, c₁, signatures, functionErrors, c₃, functions, bodyErrors, fresh,
    hstructs, hfunctions, hbodies⟩ := exists_stages h
  have hanalyze := analyze_eq hstructs hfunctions hbodies
  obtain ⟨⟨reserved, nameErrors, c₂⟩, hreserve, hfunctions⟩ := Outcome.bind_ok hfunctions
  obtain ⟨⟨signatures', signatureErrors, c₃'⟩, hregister, hfunctions⟩ := Outcome.bind_ok hfunctions
  cases hfunctions
  obtain ⟨xs, hxs, rfl, rfl⟩ := Signature.exists_attemptAll hbodies
  have hfindings : s.findings options m = .ok ⟨⟨S, s.builtins.types, options, "",
      s.builtins.types.voidTy, c₃⟩, structErrors, nameErrors, signatureErrors, xs⟩ := by
    unfold findings
    simp only [hstructs, hreserve, hregister, hxs, liftM, monadLift, MonadLift.monadLift,
      Outcome.ofInternal, bind, Except.bind]
    rfl
  refine ⟨_, hfindings, ?_⟩
  rw [h] at hanalyze
  cases hdiagnostics : structErrors ++ (nameErrors ++ signatureErrors) ++
      xs.filterMap (complaint? ·.2) with
  | nil =>
    rw [hdiagnostics] at hanalyze
    cases hanalyze
    refine ⟨rfl, fun typed htyped => ?_⟩
    cases htyped
    exact Signature.map_snd_of_complaints (List.append_eq_nil_iff.1 hdiagnostics).2
  | cons d ds =>
    rw [hdiagnostics] at hanalyze
    cases hanalyze
    refine ⟨rfl, fun typed htyped => ?_⟩
    cases htyped

/-- The context in which the bodies of a module are analysed. -/
theorem Reached.registered (hs : Reached cookie s) {declared : List DeclaredStruct}
    {S : StructStore} {c₁ c₂ c₃ : LookupContext} {reserved : List Source.FunctionDef}
    {signatures : List Signature} {structErrors nameErrors signatureErrors : List Diagnostic}
    (hstructs : m.declareStructs s.structs s.builtins.moduleContext =
      .ok (declared, structErrors, S, c₁))
    (hreserve : collect Signature.reserve c₁ m.functions = .ok (reserved, nameErrors, c₂))
    (hregister : collect (Signature.register S s.builtins.types.voidTy) c₂ reserved =
      .ok (signatures, signatureErrors, c₃)) :
    s.builtins.types = .ofBackend cookie ∧ c₃.Registered cookie S signatures := by
  obtain ⟨hb, -⟩ := hs.invariant
  have htypes : s.builtins.types = .ofBackend cookie := by
    rw [hb]
    rfl
  rw [hb] at hstructs
  rw [htypes] at hregister
  have hfunctions : m.registerFunctions S (BuiltinTypes.ofBackend cookie).voidTy c₁ =
      .ok (signatures, nameErrors ++ signatureErrors, c₃) := by
    unfold Source.Module.registerFunctions
    simp only [hreserve, hregister, bind, Except.bind]
    rfl
  have hc₁ := (LookupContext.Registered.moduleContext cookie s.structs).declareStructs hstructs
  exact ⟨htypes, hc₁.registerFunctions rfl hfunctions⟩

/-- **The registered functions of a module**, and what comes of them on their own. -/
theorem Reached.exists_alone (hs : Reached cookie s) (h : s.findings options m = .ok R) :
    (R.functions.map (·.1.definition)).Sublist m.functions ∧
      ∀ x ∈ R.functions, ∃ alone t, (x.1.analyze R.env).attempt s.fresh = .ok (alone, t) ∧
        SameOutcome alone x.2 := by
  obtain ⟨-, hpos⟩ := hs.invariant
  obtain ⟨declared, S, c₁, reserved, c₂, signatures, c₃, fresh, hstructs, hreserve, hregister, henv,
    hbodies⟩ := findings_ok h
  obtain ⟨htypes, hc⟩ := hs.registered hstructs hreserve hregister
  have hfst := Signature.map_fst_of_attemptAll hbodies
  constructor
  · have hreserved := sublist_of_collect id hreserve fun _ _ _ _ hstep =>
      Signature.eq_of_reserve hstep
    have hregistered := sublist_of_collect (·.definition) hregister
      fun _ _ _ _ hstep => Signature.definition_of_register hstep
    rw [List.map_id] at hreserved
    rw [← hfst, List.map_map] at hregistered
    exact hregistered.trans hreserved
  · rw [htypes] at henv
    rw [henv] at hbodies ⊢
    intro x hx
    have hsig : x.1 ∈ signatures := hfst ▸ List.mem_map_of_mem hx
    -- what was analysed before has no influence on the function
    obtain ⟨u, u', hu, hattempt⟩ := hc.attempted (fun _ => id) hpos hbodies x hx
    obtain ⟨alone, t, halone⟩ := hc.exists_alone options hsig hpos
    exact ⟨alone, t, halone, hc.sameOutcome hsig hpos hu halone hattempt⟩

/-- **The same is found in two modules that differ in a body**, but for this body. -/
theorem Reached.sameBut (hs : Reached cookie s) {g g' : Source.FunctionDef}
    (hm : Source.Module.DifferInBody g g' m m') (h : s.findings options m = .ok R)
    (h' : s.findings options m' = .ok R') : R.SameBut g g' R' := by
  obtain ⟨-, hpos⟩ := hs.invariant
  obtain ⟨declared, S, c₁, reserved, c₂, sigs, c₃, fresh, hstructs, hreserve, hregister, henv,
    hbodies⟩ := findings_ok h
  obtain ⟨declared', S', c₁', reserved', c₂', sigs', c₃', fresh', hstructs', hreserve', hregister',
    henv', hbodies'⟩ := findings_ok h'
  obtain ⟨env, structErrors, nameErrors, signatureErrors, xs⟩ := R
  obtain ⟨env', structErrors', nameErrors', signatureErrors', ys⟩ := R'
  dsimp only at *
  -- the first two stages have the same outcome
  rw [hm.declareStructs, hstructs] at hstructs'
  cases hstructs'
  obtain ⟨reserved₂, sigs₂, hreserve₂, hregister₂, hsigs⟩ := hm.exists_signatures hreserve hregister
  rw [hreserve₂] at hreserve'
  cases hreserve'
  rw [hregister₂] at hregister'
  cases hregister'
  subst henv henv'
  refine ⟨rfl, rfl, rfl, rfl, ?_⟩
  dsimp only
  -- so bodies are analysed in the same context
  obtain ⟨htypes, hc⟩ := hs.registered hstructs hreserve hregister
  have hc' := (hs.registered ((hm.declareStructs ..).trans hstructs) hreserve₂ hregister₂).2
  rw [htypes] at hbodies hbodies'
  have hxs := hc.attempted (fun _ => id) hpos hbodies
  have hys := hc'.attempted (fun _ => id) hpos hbodies'
  have hfst := Signature.map_fst_of_attemptAll hbodies
  have hfst' := Signature.map_fst_of_attemptAll hbodies'
  have hmem : ∀ x ∈ xs, x.1 ∈ sigs := fun x hx => hfst ▸ List.mem_map_of_mem hx
  rcases hsigs with rfl | ⟨before, sig, after, hsig, rfl, rfl⟩
  · exact .inl (hc.forall₂_sameFunction (hfst'.trans hfst.symm) hmem hxs hys)
  · right
    obtain ⟨xs₁, _, rfl, hxs₁, hrest⟩ := List.map_eq_append_iff.1 hfst
    obtain ⟨⟨_, o⟩, xs₂, rfl, rfl, hxs₂⟩ := List.map_eq_cons_iff.1 hrest
    obtain ⟨ys₁, _, rfl, hys₁, hrest'⟩ := List.map_eq_append_iff.1 hfst'
    obtain ⟨⟨_, o'⟩, ys₂, rfl, hsig', hys₂⟩ := List.map_eq_cons_iff.1 hrest'
    dsimp only at hsig'
    subst hsig'
    rw [List.forall_mem_append, List.forall_mem_cons] at hmem hxs hys
    refine ⟨xs₁, _, o, xs₂, ys₁, o', ys₂, hsig, rfl, rfl, ?_, ?_⟩
    · exact hc.forall₂_sameFunction (hys₁.trans hxs₁.symm) hmem.1 hxs.1 hys.1
    · exact hc.forall₂_sameFunction (hys₂.trans hxs₂.symm) hmem.2.2 hxs.2.2 hys.2.2

/-- **Recovery from errors is local.**  What is wrong with a module is what is wrong with its structs,
then with the names and signatures of its functions, and then, in the order of the definitions, the
first error of each function that is registered.  What comes of such a function, be it an error or a
typed function, is what comes of it on its own, up to a renaming of identities.  If the body of one
function is changed nothing else is: the same structs, names and signatures are wrong, and the same
comes of every other function.  Only where the structs of a module overflow nothing is found. -/
theorem recovers_locally (hs : Reached cookie s) (options : Options) :
    (∀ m, (m.StructsFit cookie s.structs ∧ ∃ R verdict s', s.findings options m = .ok R ∧
      s.analyze options m = .ok (verdict, s') ∧
      verdict.diagnostics = R.structErrors ++ (R.nameErrors ++ R.signatureErrors) ++
        R.functions.filterMap (complaint? ·.2) ∧
      (∀ typed, verdict = .ok typed → R.functions.map (·.2) = typed.functions.map .ok) ∧
      (R.functions.map (·.1.definition)).Sublist m.functions ∧
      ∀ x ∈ R.functions, ∃ alone t, (x.1.analyze R.env).attempt s.fresh = .ok (alone, t) ∧
        SameOutcome alone x.2) ∨
      ¬ m.StructsFit cookie s.structs ∧ ∃ op, s.analyze options m = .error (.overflow op) ∧
        s.findings options m = .error (.internal (.overflow op))) ∧
    ∀ g g' m m' R R', Source.Module.DifferInBody g g' m m' → s.findings options m = .ok R →
      s.findings options m' = .ok R' → R.SameBut g g' R' := by
  refine ⟨fun m => ?_, fun g g' m m' R R' hm h h' => hs.sameBut hm h h'⟩
  have hcases := m.declareStructs_cases cookie s.structs
  rw [← hs.invariant.1] at hcases
  rcases hcases with ⟨hfit, declared, refused, S₁, c, errors, T, -, -, hok⟩ | ⟨hfit, op, hop⟩
  · obtain ⟨verdict, s', hanalyze, -⟩ := hs.exists_analyze options hok
    obtain ⟨R, hfindings, hdiagnostics, htyped⟩ := exists_findings hanalyze
    obtain ⟨hsublist, halone⟩ := hs.exists_alone hfindings
    exact .inl ⟨hfit, R, verdict, s', hfindings, hanalyze, hdiagnostics, htyped, hsublist, halone⟩
  · exact .inr ⟨hfit, op, analyze_of_error hop, findings_of_error hop⟩

/-- A function that takes a byte `x` and returns the variable of the given name. -/
def byteFunction (name result : String) : Source.FunctionDef :=
  let node : Source.Node := ⟨0, ⟨1, 1, "bytes"⟩⟩
  let byte : Source.TypeExpr := .simple node "U8"
  ⟨node, ⟨node, name⟩, [⟨node, ⟨node, "x"⟩, byte⟩], some byte,
    .value node [] (.identifier ⟨node, result⟩)⟩

/-- A module with three functions.  The first looks for a variable that does not exist, and the third
returns its argument. -/
def bytes (second : Source.FunctionDef) : Source.Module :=
  ⟨⟨0, ⟨1, 1, "bytes"⟩⟩, "bytes",
    [.function (byteFunction "first" "y"), .function second, .function (byteFunction "third" "x")]⟩

/-- The registered functions by name, and of which of them something is wrong. -/
def outline (R : Findings) : List (String × Bool) :=
  R.functions.map fun x => (x.1.definition.name.text, (complaint? x.2).isSome)

set_option maxRecDepth 10000 in
/-- Whether the second function is right or wrong, the first is wrong and the third is right. -/
theorem recovers_locally_bytes :
    Reached (fun _ => 0) (start fun _ => 0) ∧
      Source.Module.DifferInBody (byteFunction "second" "x") (byteFunction "second" "z")
        (bytes (byteFunction "second" "x")) (bytes (byteFunction "second" "z")) ∧
      ∃ R R', (start fun _ => 0).findings .default (bytes (byteFunction "second" "x")) = .ok R ∧
        (start fun _ => 0).findings .default (bytes (byteFunction "second" "z")) = .ok R' ∧
        outline R = [("first", true), ("second", false), ("third", false)] ∧
        outline R' = [("first", true), ("second", true), ("third", false)] ∧
        R.SameBut (byteFunction "second" "x") (byteFunction "second" "z") R' := by
  have hdiffer : Source.Module.DifferInBody (byteFunction "second" "x") (byteFunction "second" "z")
      (bytes (byteFunction "second" "x")) (bytes (byteFunction "second" "z")) :=
    ⟨rfl, [_], [_], rfl, rfl⟩
  have hreached : Reached (fun _ => 0) (start fun _ => 0) := .start
  obtain ⟨-, hlocal⟩ := recovers_locally hreached .default
  have houtline : ((start fun _ => 0).findings .default
      (bytes (byteFunction "second" "x"))).toOption.map outline =
        some [("first", true), ("second", false), ("third", false)] := by decide +kernel
  have houtline' : ((start fun _ => 0).findings .default
      (bytes (byteFunction "second" "z"))).toOption.map outline =
        some [("first", true), ("second", true), ("third", false)] := by decide +kernel
  match hR : (start fun _ => 0).findings .default (bytes (byteFunction "second" "x")),
    hR' : (start fun _ => 0).findings .default (bytes (byteFunction "second" "z")) with
  | .ok R, .ok R' =>
    rw [hR] at houtline
    rw [hR'] at houtline'
    exact ⟨hreached, hdiffer, R, R', rfl, rfl, Option.some.inj houtline, Option.some.inj houtline',
      hlocal _ _ _ _ R R' hdiffer hR hR'⟩
  | .error _, _ =>
    rw [hR] at houtline
    cases houtline
  | .ok _, .error _ =>
    rw [hR'] at houtline'
    cases houtline'

end Session

end RangeTyping
