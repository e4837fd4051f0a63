import Mathlib
import RangeTyping.Proofs.Analysis.Module
import RangeTyping.Proofs.Analysis.Names
import RangeTyping.Proofs.Intact.Body

/-!
# Modules whose structs are defined have an answer

Once the structs of a module are defined its analysis breaks no invariant, whatever the module, the
options and the modules before it are (`Session.Reached.exists_analyze`): the answer is a typed module
or a list of diagnostics that is not empty.  Each stage runs over a list of items and goes on after an
item that is wrong; so it has a result if no item breaks an invariant in any state that the stage
can be in (`collect_total`).
-/

namespace RangeTyping

/-! ### Structs and signatures -/

/-- Declaring a struct breaks no invariant: structs are not in the table of type ids. -/
theorem DeclaredStruct.intact_declare (s : StructStore × LookupContext)
    (definition : Source.StructDef) : (declare s definition).Intact := by
  refine .bind (.mapError _ ?_) fun _ _ => trivial
  unfold LookupContext.addType
  split <;> trivial

/-- **Structs can always be declared**, apart from those whose names are taken. -/
theorem DeclaredStruct.collect_declare_total (S : StructStore) (c : LookupContext)
    (defs : List Source.StructDef) : ∃ r, collect declare (S, c) defs = .ok r :=
  collect_total (I := fun _ => True) trivial (fun s d _ _ => intact_declare s d)
    fun _ _ _ _ _ _ _ => trivial

/-- **Functions can always be registered**, apart from those that are wrong: every signature finds
its name reserved. -/
theorem Source.Module.registerFunctions_total (m : Source.Module) (S : StructStore) (nothing : Ty)
    {c : LookupContext} (hc : c.current.objects = []) :
    ∃ r, m.registerFunctions S nothing c = .ok r := by
  obtain ⟨objects, hreserve, hlists⟩ := (LookupContext.Lists.of_nil hc).collect_reserve m.functions
  have hnames : ∀ f ∈ m.functions, f.name.text ∈ m.functions.map (·.name.text) := fun f hf =>
    List.mem_map_of_mem hf
  have hregister : ∃ r, collect (Signature.register S nothing) (c.withObjects objects) m.functions =
      .ok r := by
    -- all names stay reserved while the functions are registered
    refine collect_total (I := fun c => ∃ sigs, c.Lists (m.functions.map (·.name.text)) sigs)
      ⟨[], hlists⟩ ?_ ?_
    · rintro c f hf ⟨sigs, hsigs⟩
      rcases hsigs.register_cases S nothing (hnames f hf) with ⟨d, heq⟩ | ⟨sig, objects, heq, -⟩
      · rw [heq]
        trivial
      · rw [heq]
        trivial
    · rintro c f sig c' hf ⟨sigs, hsigs⟩ hstep
      rcases hsigs.register_cases S nothing (hnames f hf) with
        ⟨d, heq⟩ | ⟨sig', objects, heq, -, -, hlists'⟩
      · rw [heq] at hstep
        cases hstep
      · rw [heq] at hstep
        cases hstep
        exact ⟨_, hlists'⟩
  obtain ⟨r, hr⟩ := hregister
  unfold registerFunctions
  rw [hreserve]
  simp only [bind, Except.bind, hr]
  exact ⟨_, rfl⟩

/-! ### Bodies -/

namespace Signature

variable {X : Setting} {vs : List Variable} {s : Fresh} {env : Env} {sig : Signature}

theorem intact_parameterList {arguments : List Source.Argument} {types : List Ty}
    (hts : ∀ t ∈ types, X.Plain t) : Outcome.Intact (parameterList env arguments types s) := by
  induction arguments generalizing env s types with
  | nil => trivial
  | cons a as ih =>
    cases types with
    | nil => trivial
    | cons t ts =>
      rw [List.forall_mem_cons] at hts
      refine Analysis.intact_bind (Analysis.intact_liftInternal hts.1.known.fullRange_total)
        fun range _ _ => ?_
      refine Analysis.intact_bind (Env.intact_declare ..) fun v _ _ => ?_
      exact Analysis.intact_bind (ih hts.2) fun _ _ _ => trivial

/-- **Analysing a function breaks no invariant.** -/
theorem intact_analyze (hp : env.Proper X [] s) (hps : ∀ t ∈ sig.parameters, X.Plain t)
    (hr : X.Plain sig.result) (hlen : sig.definition.arguments.length = sig.parameters.length) :
    Outcome.Intact (sig.analyze env s) := by
  refine Analysis.intact_bind (intact_parameterList hps) fun p s₁ hparameters => ?_
  have henv := (proper_returning hr hp sig.definition.name.text).enter
  obtain ⟨⟨vs, hinner, -⟩, -⟩ := parameterList_ok henv hps hlen hparameters
  refine Analysis.intact_bind (hinner.intact_block sig.definition.body plainHint_expected)
    fun body s₂ _ => ?_
  dsimp only
  by_cases hmissing : ((if sig.result.isVoid = true then none else some sig.result).isSome &&
      !sig.definition.body.hasResult && !sig.definition.body.endsWithReturn) = true
  · rw [if_pos hmissing]
    trivial
  · rw [if_neg hmissing]
    trivial

end Signature

/-- **The bodies of registered functions can always be analysed**, apart from those that are
wrong. -/
theorem LookupContext.Registered.collect_analyze_total {cookie : Registration → Nat} {S : StructStore}
    {signatures : List Signature} {c : LookupContext} (hc : c.Registered cookie S signatures)
    (options : Options) {fresh : Fresh} (hpos : 0 < fresh.nextValue) :
    ∃ r, collect (fun fresh (sig : Signature) => sig.analyze ⟨S, .ofBackend cookie, options, "",
      (BuiltinTypes.ofBackend cookie).voidTy, c⟩ fresh) fresh signatures = .ok r := by
  refine collect_total (I := fun fresh => 0 < fresh.nextValue) hpos ?_ ?_
  · intro fresh sig hsig hpos
    obtain ⟨hps, hr⟩ := hc.plain sig hsig
    exact Signature.intact_analyze (hc.proper options "" hpos) hps hr (hc.arity sig hsig)
  · intro fresh sig f fresh' hsig hpos hf
    exact lt_of_lt_of_le hpos ((hc.implements hpos hsig hf).2 "").grew.values

/-! ### Modules -/

namespace Session

/-- An analysis, put together from its stages. -/
theorem analyze_eq {s : Session} {options : Options} {m : Source.Module}
    {declared : List DeclaredStruct} {structErrors functionErrors bodyErrors : List Diagnostic}
    {S : StructStore} {c₁ c₂ : LookupContext} {signatures : List Signature}
    {functions : List TypedFunction} {fresh : Fresh}
    (hstructs : m.declareStructs s.structs s.builtins.moduleContext =
      .ok (declared, structErrors, S, c₁))
    (hfunctions : m.registerFunctions S s.builtins.types.voidTy c₁ =
      .ok (signatures, functionErrors, c₂))
    (hbodies : collect (fun fresh (f : Signature) => f.analyze ⟨S, s.builtins.types, options, "",
      s.builtins.types.voidTy, c₂⟩ fresh) s.fresh signatures = .ok (functions, bodyErrors, fresh)) :
    s.analyze options m =
      match structErrors ++ functionErrors ++ bodyErrors with
      | [] => .ok (.ok ⟨s.nextModule, m.name, m.node.location, declared.map (·.typed), functions⟩,
          { s with structs := S, fresh, nextModule := s.nextModule + 1 })
      | diagnostics => .ok (.error diagnostics, { s with structs := S, fresh }) := by
  unfold analyze
  simp only [bind, Except.bind, hstructs, hfunctions, hbodies]
  rfl

/-- **A module whose structs are defined has an answer**: it is analysed to a typed module or to a
list of diagnostics that is not empty. -/
theorem Reached.exists_analyze {cookie : Registration → Nat} {s : Session} (hs : Reached cookie s)
    (options : Options) {m : Source.Module} {declared : List DeclaredStruct}
    {structErrors : List Diagnostic} {S : StructStore} {c₁ : LookupContext}
    (hstructs : m.declareStructs s.structs s.builtins.moduleContext =
      .ok (declared, structErrors, S, c₁)) :
    ∃ verdict s', s.analyze options m = .ok (verdict, s') ∧
      ∀ diagnostics, verdict = .error diagnostics → diagnostics ≠ [] := by
  obtain ⟨hb, hpos⟩ := hs.invariant
  have hstructs' := hstructs
  rw [hb] at hstructs'
  have hc₁ := (LookupContext.Registered.moduleContext cookie s.structs).declareStructs hstructs'
  have hobjects : c₁.current.objects = [] := by
    obtain ⟨refused, S₁, blamed, hcollect, -⟩ := Source.Module.exists_of_declareStructs hstructs'
    exact (DeclaredStruct.types_collect_declare hcollect).2
  obtain ⟨⟨signatures, functionErrors, c₂⟩, hfunctions⟩ :=
    m.registerFunctions_total S (BuiltinTypes.ofBackend cookie).voidTy hobjects
  have hc₂ := hc₁.registerFunctions rfl hfunctions
  obtain ⟨⟨functions, bodyErrors, fresh⟩, hbodies⟩ := hc₂.collect_analyze_total options hpos
  have htypes : s.builtins.types = .ofBackend cookie := by rw [hb]; rfl
  rw [← htypes] at hfunctions hbodies
  rw [analyze_eq hstructs hfunctions hbodies]
  split
  · exact ⟨_, _, rfl, nofun⟩
  · rename_i hne
    refine ⟨_, _, rfl, fun diagnostics hd hnil => ?_⟩
    cases hd
    exact hne hnil

/-- An analysis that stops at the structs gives the error of that stage. -/
theorem analyze_of_error {s : Session} {options : Options} {m : Source.Module} {e : InternalError}
    (h : m.declareStructs s.structs s.builtins.moduleContext = .error e) :
    s.analyze options m = .error e := by
  rw [analyze, h]
  rfl

end Session

end RangeTyping
