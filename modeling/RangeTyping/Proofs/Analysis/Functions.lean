import Mathlib
import RangeTyping.Proofs.Analysis.Module
import RangeTyping.Proofs.Order.Registration

/-!
# The functions of an analysed module, one by one

All bodies of a module are analysed in the same surroundings (`Session.surroundings`), which are
fixed once its structs and signatures are registered.  A module without errors has one typed function
for each function of the source, in the same order, and each of them is the result of an analysis in
these surroundings (`Session.Reached.exists_implemented`).  Whatever holds of every such analysis
holds of every function of the module.
-/

namespace RangeTyping

/-- The surroundings in which the bodies of a module are analysed. -/
def Session.surroundings (s : Session) (options : Options) (m : Source.Module) :
    Except InternalError Env := do
  let (_, _, structs, context) ← m.declareStructs s.structs s.builtins.moduleContext
  let (_, _, context) ← m.registerFunctions structs s.builtins.types.voidTy context
  return ⟨structs, s.builtins.types, options, "", s.builtins.types.voidTy, context⟩

/-- **The function is what an analysis of the signature gives**, in surroundings that belong to the
setting. -/
structure Signature.Implemented (X : Setting) (env : Env) (sig : Signature) (f : TypedFunction) :
    Prop where
  parameters : ∀ t ∈ sig.parameters, X.Plain t
  result : X.Plain sig.result
  arity : sig.definition.arguments.length = sig.parameters.length
  analyze : ∃ fresh fresh', env.Proper X [] fresh ∧ sig.analyze env fresh = .ok (f, fresh')

/-- Each registered signature and its function. -/
theorem LookupContext.Registered.implemented_all {cookie : Registration → Nat} {S : StructStore}
    {c : LookupContext} {signatures : List Signature} {options : Options}
    (hc : c.Registered cookie S signatures) {fresh fresh' : Fresh} {sigs : List Signature}
    {fs : List TypedFunction}
    (hrun : Collected (fun fresh (sig : Signature) => sig.analyze ⟨S, .ofBackend cookie, options, "",
      (BuiltinTypes.ofBackend cookie).voidTy, c⟩ fresh) fresh sigs fs fresh')
    (hfresh : 0 < fresh.nextValue) (hsigs : ∀ sig ∈ sigs, sig ∈ signatures) :
    List.Forall₂ (Signature.Implemented hc.setting ⟨S, .ofBackend cookie, options, "",
      (BuiltinTypes.ofBackend cookie).voidTy, c⟩) sigs fs := by
  induction hrun with
  | nil => exact .nil
  | @cons fresh fresh₁ fresh' sig f sigs fs hstep rest ih =>
    rw [List.forall_mem_cons] at hsigs
    obtain ⟨-, hdrew⟩ := hc.implements hfresh hsigs.1 hstep
    obtain ⟨hps, hr⟩ := hc.plain sig hsigs.1
    refine .cons ⟨hps, hr, hc.arity sig hsigs.1, fresh, fresh₁, hc.proper options "" hfresh, hstep⟩
      (ih (lt_of_lt_of_le hfresh (hdrew "").grew.values) hsigs.2)

/-- **Every function of an analysed module** is the result of an analysis in the surroundings of the
module. -/
theorem Session.Reached.exists_implemented {cookie : Registration → Nat} {s s' : Session}
    {options : Options} {m : Source.Module} {typed : TypedModule} (hs : Reached cookie s)
    (h : s.analyze options m = .ok (.ok typed, s')) :
    ∃ env X, s.surroundings options m = .ok env ∧ env.options = options ∧
      List.Forall₂ (fun d f => ∃ sig : Signature, sig.definition = d ∧ sig.Implemented X env f)
        m.functions typed.functions := by
  obtain ⟨hb, hpos⟩ := hs.invariant
  have htypes : s.builtins.types = .ofBackend cookie := by
    rw [hb]
    rfl
  obtain ⟨declared, c₁, signatures, c₂, hstructs, hfunctions, hbodies, -⟩ := Session.analyze_ok h
  have hsurroundings : s.surroundings options m =
      .ok ⟨s'.structs, s.builtins.types, options, "", s.builtins.types.voidTy, c₂⟩ := by
    unfold surroundings
    simp only [bind, Except.bind, hstructs, hfunctions]
    rfl
  -- the lemmas on registration speak of the builtins of the backend
  rw [htypes] at hfunctions hbodies hsurroundings
  rw [hb] at hstructs
  have hc₁ := (LookupContext.Registered.moduleContext cookie s.structs).declareStructs hstructs
  have hc₂ := hc₁.registerFunctions rfl hfunctions
  obtain ⟨hdefs, -⟩ := Source.Module.signatures_of_registerFunctions
    (Source.Module.objects_of_declareStructs hstructs) hfunctions
  refine ⟨_, hc₂.setting, hsurroundings, rfl, ?_⟩
  rw [← hdefs, List.forall₂_map_left_iff]
  refine (hc₂.implemented_all (collect_ok hbodies) hpos fun _ hsig => hsig).imp ?_
  exact fun sig f himplemented => ⟨sig, rfl, himplemented⟩

end RangeTyping
