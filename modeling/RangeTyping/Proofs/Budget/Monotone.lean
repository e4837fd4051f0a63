import Mathlib
import RangeTyping.Proofs.Order.Module

/-!
# A larger budget changes nothing

A module that is analysed without errors is so with any higher limits as well, and comes to the same
typed module up to the identities that the analysis draws (`Session.analyze_of_le_limits`).  In
particular no other overload and no other conversion is chosen, and none becomes ambiguous.

Structs and signatures do not depend on limits at all.  The bodies are analysed side by side: what
the first analysis pays for the second pays for too, and the overloads and conversions that only the
second could pay for cost more than those that were chosen (`Env.Parallel.select`).  The second
draws more identities on the way, one for each trial that only it can finish.
-/

namespace RangeTyping

/-! ### Options -/

/-- Limits that are weights. -/
structure Options.Bounded (o : Options) : Prop where
  expression : o.expressionLimit ≤ maxWeight
  initializer : ∀ l, o.initializerLimit = some l → l ≤ maxWeight

namespace Options

variable {o o' : Options}

theorem le_of_weight? {d : Document} {w : Weight} (h : weight? d = some w) : w ≤ maxWeight := by
  unfold weight? at h
  split at h
  · split at h
    · rename_i hv
      cases h
      exact Int.toNat_le.2 hv.2
    · cases h
  · cases h

theorem le_of_limit? {d : Document} {limit : Option Weight} (h : limit? d = some limit) :
    ∀ l, limit = some l → l ≤ maxWeight := by
  rintro l rfl
  unfold limit? at h
  split at h
  · cases h
  · obtain ⟨w, hw, heq⟩ := Option.map_eq_some_iff.1 h
    cases heq
    exact le_of_weight? hw

theorem bounded_default : default.Bounded := ⟨by decide, nofun⟩

theorem Bounded.readEntry {e : String × Document} (h : o.Bounded)
    (he : o.readEntry e = some o') : o'.Bounded := by
  unfold Options.readEntry at he
  split at he
  · obtain ⟨w, hw, rfl⟩ := Option.map_eq_some_iff.1 he
    exact ⟨le_of_weight? hw, h.initializer⟩
  · obtain ⟨l, hl, rfl⟩ := Option.map_eq_some_iff.1 he
    exact ⟨h.expression, le_of_limit? hl⟩
  · cases he

theorem Bounded.readEntries {entries : List (String × Document)} (h : o.Bounded)
    (he : entries.foldlM Options.readEntry o = some o') : o'.Bounded := by
  induction entries generalizing o with
  | nil =>
    cases he
    exact h
  | cons e rest ih =>
    rw [List.foldlM_cons] at he
    obtain ⟨o₁, he₁, he⟩ := Option.bind_eq_some_iff.1 he
    exact ih (h.readEntry he₁) he

/-- **The limits that are read from a document are weights.** -/
theorem bounded_of_ofDocument? {d : Document} (h : ofDocument? d = some o) : o.Bounded := by
  unfold ofDocument? at h
  split at h
  · exact bounded_default.readEntries h
  · cases h
    exact bounded_default
  · obtain ⟨w, hw, rfl⟩ := Option.map_eq_some_iff.1 h
    exact ⟨le_of_weight? hw, nofun⟩
  · obtain ⟨w, hw, h⟩ := Option.bind_eq_some_iff.1 h
    obtain ⟨l, hl, h⟩ := Option.bind_eq_some_iff.1 h
    cases h
    exact ⟨le_of_weight? hw, le_of_limit? hl⟩
  · cases h

/-- Limits none of which is lower. -/
theorem Bounded.within (hbounded : o'.Bounded)
    (hexpression : o.expressionLimit ≤ o'.expressionLimit)
    (hinitializer : ∀ l', o'.initializerLimit = some l' →
      ∃ l, o.initializerLimit = some l ∧ l ≤ l')
    (hsound : ∀ l, o.initializerLimit = some l → l ≤ maxWeight) : o.Within o' where
  expression := hexpression
  expression_bounded := hbounded.expression
  initializer := by
    cases h' : o'.initializerLimit with
    | some l' =>
      obtain ⟨l, hl, hle⟩ := hinitializer l' h'
      rw [hl]
      exact hle
    | none =>
      -- no limit is the highest one
      cases h : o.initializerLimit with
      | some l => exact hsound l h
      | none => exact le_rfl
  initializer_bounded := by
    cases h' : o'.initializerLimit with
    | some l' => exact hbounded.initializer l' h'
    | none => exact le_rfl

end Options

/-! ### Bodies -/

namespace LookupContext.Registered

variable {cookie : Registration → Nat} {S : StructStore} {sigs : List Signature}
  {c : LookupContext} {names : List String} {options options' : Options}

/-- **The functions of a module can be analysed with more to spend.** -/
theorem exists_bodies_of_raisedTo (hc : c.Registered cookie S sigs) (hlists : c.Lists names sigs)
    (hoptions : options.RaisedTo options') {s s' : Fresh} (hs : 0 < s.nextValue)
    {fs : List TypedFunction}
    (hrun : collect (fun fresh (sig : Signature) => sig.analyze ⟨S, .ofBackend cookie, options, "",
      (BuiltinTypes.ofBackend cookie).voidTy, c⟩ fresh) s sigs = .ok (fs, [], s')) :
    ∃ (t' : Fresh) (r : Renaming), r.struct = id ∧ Function.Injective r.value ∧
      Function.Injective r.point ∧
      collect (fun fresh (sig : Signature) => sig.analyze ⟨S, .ofBackend cookie, options', "",
        (BuiltinTypes.ofBackend cookie).voidTy, c⟩ fresh) s sigs =
          .ok (fs.map r.function, [], t') := by
  -- as long as structs keep their numbers, the context matches itself
  have hmatches : ∀ L : Link, L.struct = id → c.Matches L c := by
    intro L hL
    refine hc.matches_of_lists hc (hL ▸ renumbers_id c) hlists hlists (fun name => Iff.rfl) ?_
    rw [hL, List.map_congr_left fun sig _ => sig.renumber_id, List.map_id']
  refine Link.exists_collect_map (fun sig hsig u v hu hv => ?_)
    (fun sig hsig u f u' hu hf => ((hc.implements hu hsig hf).2 "").grew)
    (fun sig hsig u f u' hu hf => ((hc.implements hu hsig hf).2 "").grew) hs hs hrun
  have hsimulates := hc.simulates_analyze hc (renumbers_id c) Function.injective_id hmatches
    hoptions hsig hu hv
  rwa [Signature.renumber_id] at hsimulates

end LookupContext.Registered

/-! ### Modules -/

namespace Session

variable {cookie : Registration → Nat} {s s₁ : Session} {o o' : Options} {m : Source.Module}
  {typed : TypedModule}

/-- **A larger budget changes nothing.**  A module that is analysed without errors is so with every
higher limit on expressions and on initializers, where no limit is the highest of all.  The typed
module is the same up to a renaming of identities that is one to one: it has the same functions in
the same order, in whose bodies the same overloads and conversions are chosen, and the same structs
with the same layouts. -/
theorem analyze_of_le_limits (hs : Reached cookie s) (hbounded : o.Bounded) (hbounded' : o'.Bounded)
    (hexpression : o.expressionLimit ≤ o'.expressionLimit)
    (hinitializer : ∀ l', o'.initializerLimit = some l' →
      ∃ l, o.initializerLimit = some l ∧ l ≤ l')
    (h : s.analyze o m = .ok (.ok typed, s₁)) :
    ∃ (s₂ : Session) (r : Renaming), r.struct = id ∧ Function.Injective r.value ∧
      Function.Injective r.point ∧ s₂.structs = s₁.structs ∧
      s.analyze o' m =
        .ok (.ok { typed with functions := typed.functions.map r.function }, s₂) := by
  obtain ⟨hb, hpos⟩ := hs.invariant
  obtain ⟨declared, c, sigs, c₁, hdeclare, hregister, hbodies, htyped⟩ := analyze_ok h
  obtain ⟨hid, hname, hlocation⟩ := head_of_analyze h
  have hoptions := hbounded'.within hexpression hinitializer hbounded.initializer
  have htypes : s.builtins.types = .ofBackend cookie := by
    rw [hb]
    rfl
  have hdeclare₀ := hdeclare
  rw [hb] at hdeclare₀
  rw [htypes] at hregister hbodies
  have hc := (LookupContext.Registered.moduleContext cookie s.structs).declareStructs hdeclare₀
  have hc₁ := hc.registerFunctions rfl hregister
  obtain ⟨-, -, -, -, hlists⟩ := Source.Module.signatures_of_registerFunctions
    (Source.Module.objects_of_declareStructs hdeclare₀) hregister
  obtain ⟨fresh, r, hr, hvalue, hpoint, hbodies'⟩ :=
    hc₁.exists_bodies_of_raisedTo hlists (.inr hoptions) hpos hbodies
  rw [← htypes] at hregister hbodies'
  have hanalyze := analyze_eq hdeclare hregister hbodies'
  rw [← hname, ← hlocation, ← hid, ← htyped] at hanalyze
  refine ⟨_, r, hr, hvalue, hpoint, ?_, hanalyze⟩
  rfl

/-- With at most 8 to spend on an expression, `n < 10` can compare bytes and nothing else.  Without
limits there are more overloads to choose from. -/
theorem analyze_of_le_limits_weave :
    Reached (fun _ => 0) (start fun _ => 0) ∧
      ∃ o o' typed s₁ s₂ r, Options.ofDocument? (.list [.integer 8, .integer 0]) = some o ∧
        Options.ofDocument? (.list [.integer maxWeight]) = some o' ∧
        (start fun _ => 0).analyze o weave = .ok (.ok typed, s₁) ∧
        typed.functions.map (·.name) = ["pick", "pick"] ∧
        (start fun _ => 0).analyze o' weave =
          .ok (.ok { typed with functions := typed.functions.map (Renaming.function r) }, s₂) := by
  have ho : Options.ofDocument? (.list [.integer 8, .integer 0]) = some ⟨8, some 0⟩ := by decide
  have ho' : Options.ofDocument? (.list [.integer maxWeight]) = some ⟨maxWeight, none⟩ := by decide
  obtain ⟨typed, s₁, h, htest⟩ := exists_typed_of_test
    (x := (start fun _ => 0).analyze ⟨8, some 0⟩ weave)
    (p := fun typed => decide (typed.functions.map (·.name) = ["pick", "pick"])) (by decide +kernel)
  obtain ⟨s₂, r, -, -, -, -, h'⟩ := analyze_of_le_limits .start (Options.bounded_of_ofDocument? ho)
    (Options.bounded_of_ofDocument? ho') (by decide) nofun h
  exact ⟨.start, _, _, typed, s₁, s₂, r, ho, ho', h, of_decide_eq_true htest, h'⟩

end Session

end RangeTyping
