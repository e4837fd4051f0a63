import Mathlib
import RangeTyping.Proofs.Analysis.Body
import RangeTyping.Proofs.Analysis.Registration

/-!
# Analysed modules

What holds of a module that was analysed without errors, put together from the analyses of its
bodies: `Session.Analysed` says that each of its functions is defined well in the setting of the
module (`Setting.Defines`), that calls go to functions of the module, and that no two events of the
module produce the same identity.  `Session.Reached.analysed` is the result that the theory of typed
modules rests on.

Sessions are those that can be reached: a session is started on the builtins of a backend and
analyses one module after another, whether they have errors or not.
-/

namespace RangeTyping

/-! ### Functions -/

/-- The setting of a function that returns `r`. -/
def Setting.returning (X : Setting) (r : Ty) (h : X.Plain r) : Setting :=
  { X with
    returnType := r
    returnType_plain := h }

/-- The variable is the one that holds the argument of the parameter. -/
structure Parameter.Holds (p : Parameter) (v : Variable) : Prop where
  id : v.id = p.id
  type : v.type = p.type.withFlags .ref
  range : p.type.fullRange = .ok v.range

theorem Parameter.map_id_of_holds {ps : List Parameter} {vs : List Variable}
    (h : List.Forall₂ Holds ps vs) : ps.map (·.id) = vs.map (·.id) := by
  rw [← List.forall₂_eq_eq_eq, List.forall₂_map_left_iff, List.forall₂_map_right_iff]
  exact h.imp fun p v hold => hold.id.symm

/-- **A function that is defined well** in its setting, where `vs` are the variables of its
parameters, the last one first. -/
structure Setting.Defines (X : Setting) (f : TypedFunction) (vs : List Variable) : Prop where
  returns : f.returnType = X.returnType
  parameters : List.Forall₂ Parameter.Holds f.parameters vs.reverse
  plain : ∀ p ∈ f.parameters, X.Plain p.type
  declares : ∀ v ∈ vs, X.Declares v
  nodup : (vs.map (·.id)).Nodup
  obeys : f.body.Obeys X.rule vs
  result : f.returnType.isVoid = false →
    f.body.endsWithReturn = true ∨ f.body.type = f.returnType ∧ f.body.id ≠ .unread

/-- **A function that implements a signature** of its module. -/
structure Setting.Implements (X : Setting) (sig : Signature) (f : TypedFunction) : Prop where
  symbol : f.symbol = sig.symbol
  returns : f.returnType = sig.result
  parameters : f.parameters.map (·.type) = sig.parameters
  inhabited : ∀ t ∈ sig.parameters, t.isVoid = false
  defines : ∃ (hr : X.Plain f.returnType) (vs : List Variable),
    (X.returning f.returnType hr).Defines f vs

namespace Signature

variable {X : Setting} {vs : List Variable} {s s' : Fresh} {env env' : Env} {sig : Signature}

/-- **The parameters of a function** are new variables, one for each argument. -/
theorem parameterList_ok {arguments : List Source.Argument} {types : List Ty}
    {parameters : List Parameter} (hp : env.Proper X vs s) (hts : ∀ t ∈ types, X.Plain t)
    (hlen : arguments.length = types.length)
    (h : parameterList env arguments types s = .ok ((parameters, env'), s')) :
    (∃ ws, env'.Proper X (ws ++ vs) s' ∧ List.Forall₂ Parameter.Holds parameters ws.reverse) ∧
      parameters.map (·.type) = types ∧ (∀ t ∈ types, t.isVoid = false) ∧
      Within s.nextValue s'.nextValue (parameters.map (·.id.index)) ∧
      s.nextPoint = s'.nextPoint := by
  induction arguments generalizing env vs s types parameters with
  | nil =>
    obtain rfl := List.length_eq_zero_iff.1 hlen.symm
    cases h
    exact ⟨⟨[], hp, .nil⟩, rfl, fun t ht => absurd ht List.not_mem_nil, .nil le_rfl, rfl⟩
  | cons a as ih =>
    cases types with
    | nil => cases hlen
    | cons t ts =>
      obtain ⟨range, s₀, hlift, h⟩ := Analysis.bind_ok h
      obtain ⟨hrange, rfl⟩ := Analysis.liftInternal_ok hlift
      obtain ⟨⟨v, env₁⟩, s₁, hdeclare, h⟩ := Analysis.bind_ok h
      obtain ⟨⟨rest, env₂⟩, s₂, hrest, h⟩ := Analysis.bind_ok h
      cases h
      have ht := hts t (List.mem_cons_self ..)
      obtain ⟨hp₁, hid, -, htype, hvrange, hvoid⟩ :=
        hp.declare ht.known (ht.known.admits_fullRange hrange) (fun _ => hrange) hdeclare
      obtain ⟨⟨ws, hproper, hholds⟩, htypes, hvoids, hwithin, hpoint⟩ :=
        ih hp₁ (fun u hu => hts u (List.mem_cons_of_mem _ hu)) (Nat.succ.inj hlen) hrest
      obtain ⟨hvid, rfl⟩ := Analysis.freshValue_ok hid
      -- `ws` lists the innermost variable first, and parameters come in the order of declaration
      refine ⟨⟨ws ++ [v], ?_, ?_⟩, ?_, ?_, ?_, hpoint⟩
      · rw [List.append_assoc]
        exact hproper
      · rw [List.reverse_append]
        refine .cons ⟨rfl, htype, ?_⟩ hholds
        rw [hvrange]
        exact hrange
      · rw [List.map_cons, htypes]
      · intro u hu
        rcases List.mem_cons.1 hu with rfl | hu
        · exact hvoid
        · exact hvoids u hu
      · rw [List.map_cons, show v.id.index = s.nextValue by rw [hvid]]
        exact (Within.single s.nextValue).append hwithin

/-- The last statement of a list comes of the last one in the source. -/
theorem getLast?_statements {sources : List Source.Stmt} {ss : List TypedStmt}
    {last : Source.Stmt} (h : env.statements sources s = .ok ((ss, env'), s'))
    (hlast : sources.getLast? = some last) :
    ∃ st env₁ env₂ s₁ s₂, ss.getLast? = some st ∧ Env.statement env₁ last s₁ = .ok ((st, env₂), s₂) := by
  induction sources generalizing env s ss with
  | nil => cases hlast
  | cons source sources ih =>
    obtain ⟨⟨st, env₁⟩, s₁, hst, h⟩ := Analysis.bind_ok h
    obtain ⟨⟨rest, env₂⟩, s₂, hrest, h⟩ := Analysis.bind_ok h
    cases h
    cases sources with
    | nil =>
      cases hlast
      cases hrest
      exact ⟨st, env, _, s, _, rfl, hst⟩
    | cons next others =>
      rw [List.getLast?_cons_cons] at hlast
      obtain ⟨st', env₃, env₄, s₃, s₄, hss, hst'⟩ := ih hrest hlast
      refine ⟨st', env₃, env₄, s₃, s₄, ?_, hst'⟩
      rw [List.getLast?_cons, hss]
      rfl

/-- A body that ends in a return statement still does once it is analysed. -/
theorem endsWithReturn_block {budget budget' : Budget} {hint : Option Ty} {body : Source.Block}
    {e : TypedExpr} (hresult : body.hasResult = false) (hreturn : body.endsWithReturn = true)
    (h : env.block budget hint body s = .ok ((e, budget'), s')) : e.endsWithReturn = true := by
  cases body with
  | value n sources result => cases hresult
  | unit n sources =>
    obtain ⟨⟨ss, inner⟩, s₁, hss, h⟩ := Analysis.bind_ok h
    cases h
    -- the last statement of the source decides, and analysis keeps it last
    unfold Source.Block.endsWithReturn at hreturn
    show (TypedExpr.block _ ss).endsWithReturn = true
    rw [TypedExpr.endsWithReturn]
    split at hreturn
    · rename_i n' source hlast
      obtain ⟨st, env₁, env₂, s₁, s₂, hlast', hst⟩ := getLast?_statements hss hlast
      obtain ⟨o, b, s₃, value, b', -, -, rfl, -⟩ := Env.statement_ok hst
      rw [hlast']
    · rename_i n' hlast
      obtain ⟨st, env₁, env₂, s₁, s₂, hlast', hst⟩ := getLast?_statements hss hlast
      obtain ⟨-, rfl, -⟩ := Env.statement_ok hst
      rw [hlast']
    · cases hreturn

/-- Surroundings stay proper when the result type is set. -/
theorem proper_returning {r : Ty} (hr : X.Plain r) (hp : env.Proper X vs s) (function : String) :
    { env with function, returnType := r }.Proper (X.returning r hr) vs s where
  types := hp.types
  structs := hp.structs
  returnType := rfl
  scopes scope hscope :=
    let h := hp.scopes scope hscope
    ⟨h.types, h.mem_scope, h.overloads, h.casts⟩
  sole := hp.sole
  declares v hv :=
    let h := hp.declares v hv
    ⟨h.plain, h.inhabited, h.reference, h.admits, h.full, h.read⟩
  drawn := hp.drawn
  positive := hp.positive

/-- **The stream of a function** draws what its parameters and its body draw. -/
theorem drew_events {f : TypedFunction} {s₁ : Fresh}
    (hparameters : Within s.nextValue s₁.nextValue (f.parameters.map (·.id.index)))
    (hpoint : s.nextPoint = s₁.nextPoint) (hbody : s₁.Drew s' f.body.events) (file : String) :
    s.Drew s' (f.events file) := by
  have henter : s.Drew s₁ [.functionEnter f.symbol f.returnType f.parameters file f.location] := by
    refine ⟨hparameters.sublist ?_, .nil hpoint.le⟩
    rw [Event.produced_cons, Event.produced_nil, List.append_nil]
    have hsub : ((f.parameters.map (·.id)).filter (· ≠ .unread)).Sublist (f.parameters.map (·.id)) :=
      List.filter_sublist
    have hmap := hsub.map (·.index)
    rw [List.map_map] at hmap
    exact hmap
  have hclosing : s'.Drew s' f.closing := by
    unfold TypedFunction.closing
    refine .silent (.refl _) ?_ ?_ <;> split <;> first | rfl | (split <;> rfl)
  rw [f.events_eq]
  exact henter.append (hbody.append hclosing)

theorem plainHint_expected {hr : X.Plain sig.result} :
    Env.PlainHint (X.returning sig.result hr) sig.expected := by
  unfold expected
  split
  · exact Env.plainHint_none _
  · exact Env.plainHint_some hr

/-- **An analysed function** implements its signature, and its identities and points are new. -/
theorem analyze_ok {f : TypedFunction} (hp : env.Proper X [] s)
    (hps : ∀ t ∈ sig.parameters, X.Plain t) (hr : X.Plain sig.result)
    (hlen : sig.definition.arguments.length = sig.parameters.length)
    (h : sig.analyze env s = .ok (f, s')) :
    X.Implements sig f ∧ ∀ file, s.Drew s' (f.events file) := by
  obtain ⟨parameters, inner, s₁, body, b, hparameters, hbody, hmissing, rfl⟩ := exists_body h
  have henv := (proper_returning hr hp sig.definition.name.text).enter
  obtain ⟨⟨vs, hinner, hholds⟩, htypes, hvoids, hwithin, hpoint⟩ :=
    parameterList_ok henv hps hlen hparameters
  rw [List.append_nil] at hinner
  obtain ⟨hbuilt, htype⟩ := hinner.block sig.definition.body plainHint_expected hbody
  have hplain : ∀ p ∈ parameters, X.Plain p.type := by
    intro p hmem
    apply hps
    rw [← htypes]
    exact List.mem_map_of_mem hmem
  have hobeys : (if sig.result.isVoid = true then body.discard else body).Obeys
      (X.returning sig.result hr).rule vs := by
    split
    · exact Setting.obeys_discard hbuilt.made.obeys
    · exact hbuilt.made.obeys
  have hdrew : s₁.Drew s' (if sig.result.isVoid = true then body.discard else body).events := by
    split
    · exact hbuilt.drew.discard
    · exact hbuilt.drew
  have hnodup : (vs.map (·.id)).Nodup := by
    have hids : ((parameters.map (·.id)).map (·.index)).Nodup := by
      rw [List.map_map]
      exact hwithin.nodup
    have hids := hids.of_map
    rw [Parameter.map_id_of_holds hholds, List.map_reverse] at hids
    exact List.nodup_reverse.1 hids
  refine ⟨⟨rfl, rfl, htypes, hvoids,
    hr, vs, rfl, hholds, hplain, hinner.declares, hnodup, hobeys, ?_⟩,
    drew_events hwithin hpoint hdrew⟩
  intro hvoid
  have hvoid : sig.result.isVoid = false := hvoid
  show TypedExpr.endsWithReturn (if _ then _ else _) = true ∨
    TypedExpr.type (if _ then _ else _) = sig.result ∧ TypedExpr.id (if _ then _ else _) ≠ .unread
  rw [expected, hvoid] at hmissing htype
  rw [hvoid]
  cases hresult : sig.definition.body.hasResult with
  | true =>
    have htype := htype sig.result rfl hresult
    refine .inr ⟨htype, hbuilt.made.live.read (.inl ?_)⟩
    rw [htype]
    exact hvoid
  | false =>
    have hreturn : sig.definition.body.endsWithReturn = true := by
      simpa [hresult] using hmissing
    exact .inl (endsWithReturn_block hresult hreturn hbody)

end Signature

/-! ### Sessions -/

namespace Session

/-- **A session that can be reached** on the builtins of a backend. -/
inductive Reached (cookie : Registration → Nat) : Session → Prop where
  | start : Reached cookie (.start cookie)
  | analyze {s s' : Session} {options : Options} {m : Source.Module} {verdict : Verdict}
      (before : Reached cookie s) (h : s.analyze options m = .ok (verdict, s')) : Reached cookie s'

end Session

/-- The module has a function of that symbol, with these parameter types and that result type. -/
def TypedModule.Offers (m : TypedModule) (symbol : String) (parameters : List Ty) (result : Ty) :
    Prop :=
  ∃ f ∈ m.functions, f.symbol = symbol ∧ f.parameters.map (·.type) = parameters ∧
    f.returnType = result

namespace Session

variable {cookie : Registration → Nat} {s s' : Session} {options : Options} {m : Source.Module}

/-- What an analysis is made of: a registered context, and the analyses of the bodies. -/
theorem analyze_steps {verdict : Verdict} (hb : s.builtins = .prepare cookie)
    (h : s.analyze options m = .ok (verdict, s')) :
    s'.builtins = .prepare cookie ∧
    ∃ (c : LookupContext) (signatures : List Signature) (functions : List TypedFunction)
      (bodyErrors : List Diagnostic), c.Registered cookie s'.structs signatures ∧
      collect (fun fresh (sig : Signature) => sig.analyze ⟨s'.structs, .ofBackend cookie, options, "",
        (BuiltinTypes.ofBackend cookie).voidTy, c⟩ fresh) s.fresh signatures =
          .ok (functions, bodyErrors, s'.fresh) ∧
      ∀ typed, verdict = .ok typed → bodyErrors = [] ∧ typed.functions = functions := by
  unfold analyze at h
  rw [hb] at h
  obtain ⟨⟨declared, structErrors, structs, c₁⟩, hstructs, h⟩ := Outcome.bind_ok h
  obtain ⟨⟨signatures, functionErrors, c₂⟩, hfunctions, h⟩ := Outcome.bind_ok h
  obtain ⟨⟨functions, bodyErrors, fresh⟩, hbodies, h⟩ := Outcome.bind_ok h
  have hc₁ := (LookupContext.Registered.moduleContext cookie s.structs).declareStructs hstructs
  have hc₂ := hc₁.registerFunctions rfl hfunctions
  dsimp only at h
  split at h
  · rename_i hnone
    cases h
    refine ⟨rfl, c₂, signatures, functions, bodyErrors, hc₂, hbodies, ?_⟩
    intro typed htyped
    cases htyped
    exact ⟨(List.append_eq_nil_iff.1 hnone).2, rfl⟩
  · cases h
    refine ⟨rfl, c₂, signatures, functions, bodyErrors, hc₂, hbodies, ?_⟩
    intro typed htyped
    cases htyped

end Session

namespace LookupContext.Registered

variable {cookie : Registration → Nat} {S : StructStore} {signatures : List Signature}
  {c : LookupContext} {options : Options}

/-- The analysis of a registered signature. -/
theorem implements (hc : c.Registered cookie S signatures) {fresh fresh' : Fresh} {sig : Signature}
    {f : TypedFunction} (hfresh : 0 < fresh.nextValue) (hsig : sig ∈ signatures)
    (h : sig.analyze ⟨S, .ofBackend cookie, options, "", (BuiltinTypes.ofBackend cookie).voidTy, c⟩
      fresh = .ok (f, fresh')) :
    hc.setting.Implements sig f ∧ ∀ file, fresh.Drew fresh' (f.events file) := by
  obtain ⟨hps, hr⟩ := hc.plain sig hsig
  exact Signature.analyze_ok (hc.proper options "" hfresh) hps hr (hc.arity sig hsig) h

/-- **The analyses of registered signatures**, one after the other. -/
theorem implements_all (hc : c.Registered cookie S signatures) {fresh fresh' : Fresh}
    {sigs : List Signature} {fs : List TypedFunction}
    (hrun : Collected (fun fresh (sig : Signature) => sig.analyze ⟨S, .ofBackend cookie, options, "",
      (BuiltinTypes.ofBackend cookie).voidTy, c⟩ fresh) fresh sigs fs fresh')
    (hfresh : 0 < fresh.nextValue) (hsigs : ∀ sig ∈ sigs, sig ∈ signatures) :
    (∀ sig ∈ sigs, ∃ f ∈ fs, hc.setting.Implements sig f) ∧
      (∀ f ∈ fs, ∃ sig, hc.setting.Implements sig f) ∧
      ∀ file, fresh.Drew fresh' (fs.flatMap (TypedFunction.events file)) := by
  induction hrun with
  | nil fresh => simpa using Fresh.Drew.nil (.refl fresh)
  | @cons fresh fresh₁ fresh' sig f sigs fs hstep rest ih =>
    rw [List.forall_mem_cons] at hsigs
    obtain ⟨himplements, hdrew⟩ := hc.implements hfresh hsigs.1 hstep
    -- the supply only grows, so that identities stay positive for the functions after this one
    obtain ⟨hleft, hright, hdrews⟩ :=
      ih (lt_of_lt_of_le hfresh (hdrew "").grew.values) hsigs.2
    refine ⟨?_, ?_, fun file => (hdrew file).append (hdrews file)⟩
    · rw [List.forall_mem_cons]
      refine ⟨⟨f, List.mem_cons_self .., himplements⟩, fun sig' hsig' => ?_⟩
      obtain ⟨g, hg, hgood⟩ := hleft sig' hsig'
      exact ⟨g, List.mem_cons_of_mem _ hg, hgood⟩
    · rw [List.forall_mem_cons]
      exact ⟨⟨sig, himplements⟩, hright⟩

end LookupContext.Registered

namespace Session

variable {cookie : Registration → Nat} {s s' : Session} {options : Options} {m : Source.Module}

/-- A reached session stands on the builtins, and never draws the identity of unread values. -/
theorem Reached.invariant (h : Reached cookie s) :
    s.builtins = .prepare cookie ∧ 0 < s.fresh.nextValue := by
  induction h with
  | start => exact ⟨rfl, Nat.one_pos⟩
  | @analyze s s' options m verdict before h ih =>
    obtain ⟨hb, hpos⟩ := ih
    obtain ⟨hb', c, signatures, functions, errors, hc, hcollect, -⟩ := analyze_steps hb h
    refine ⟨hb', ?_⟩
    refine collect_induction (I := fun _ fresh => 0 < fresh.nextValue) hcollect hpos ?_
    intro _ fresh sig f fresh' hsig hfresh hf
    exact lt_of_lt_of_le hfresh ((hc.implements hfresh hsig hf).2 "").grew.values

/-- **What is known about a module that was analysed without errors.** -/
structure Analysed (cookie : Registration → Nat) (s s' : Session) (typed : TypedModule)
    (X : Setting) : Prop where
  cookie : X.cookie = cookie
  offers : ∀ symbol parameters result, X.callable symbol parameters result →
    typed.Offers symbol parameters result
  inhabited : X.Inhabited
  defines : ∀ f ∈ typed.functions, ∃ (hr : X.Plain f.returnType) (vs : List Variable),
    (X.returning f.returnType hr).Defines f vs
  drew : ∀ file, s.fresh.Drew s'.fresh (typed.functions.flatMap (TypedFunction.events file))

/-- In the stream of a function no identity is produced twice, and no point is placed twice. -/
theorem Analysed.nodup {typed : TypedModule} {X : Setting} (h : Analysed cookie s s' typed X)
    {f : TypedFunction} (hf : f ∈ typed.functions) (file : String) :
    (Event.produced (f.events file)).Nodup ∧ (Event.placed (f.events file)).Nodup := by
  obtain ⟨before, after, heq⟩ := List.append_of_mem hf
  have hdrew := h.drew file
  rw [heq, List.flatMap_append, List.flatMap_cons] at hdrew
  have hproduced := hdrew.values.nodup.of_map _
  have hplaced := hdrew.points.nodup.of_map _
  rw [Event.produced_append, Event.produced_append] at hproduced
  rw [Event.placed_append, Event.placed_append] at hplaced
  exact ⟨(List.nodup_append.1 (List.nodup_append.1 hproduced).2.1).1,
    (List.nodup_append.1 (List.nodup_append.1 hplaced).2.1).1⟩

/-- **A module that is analysed without errors** is one of a setting. -/
theorem Reached.analysed {typed : TypedModule} (hs : Reached cookie s)
    (h : s.analyze options m = .ok (.ok typed, s')) : ∃ X, Analysed cookie s s' typed X := by
  obtain ⟨hb, hpos⟩ := hs.invariant
  obtain ⟨-, c, signatures, functions, errors, hc, hcollect, htyped⟩ := analyze_steps hb h
  obtain ⟨rfl, hfunctions⟩ := htyped typed rfl
  obtain ⟨hsigs, hfs, hdrew⟩ := hc.implements_all (collect_ok hcollect) hpos fun _ hsig => hsig
  refine ⟨hc.setting, rfl, ?_, ?_, ?_, ?_⟩
  · rintro _ _ _ ⟨sig, hsig, rfl, rfl, rfl⟩
    obtain ⟨f, hf, h⟩ := hsigs sig hsig
    rw [TypedModule.Offers, hfunctions]
    exact ⟨f, hf, h.symbol, h.parameters, h.returns⟩
  · rintro _ _ _ ⟨sig, hsig, rfl, rfl, rfl⟩
    obtain ⟨f, -, h⟩ := hsigs sig hsig
    exact h.inhabited
  · rw [hfunctions]
    intro f hf
    obtain ⟨sig, h⟩ := hfs f hf
    exact h.defines
  · rw [hfunctions]
    exact hdrew

end Session

/-! ### An example -/

/-- A module with one function, which converts its argument, tests it, and in one arm of the
conditional calls itself and assigns the result. -/
def climb : Source.Module :=
  let node : Source.Node := ⟨0, ⟨1, 1, "climb"⟩⟩
  let name (text : String) : Source.Name := ⟨node, text⟩
  let x : Source.Expr := .identifier (name "x")
  let y : Source.Expr := .identifier (name "y")
  ⟨node, "climb", [.function
    ⟨node, name "climb", [⟨node, name "x", .simple node "U8"⟩], some (.simple node "U32"),
      .value node [.define node (name "y") true (some (.simple node "U32")) x]
        (.ifElse node (.binary node .lt x (.number node "10"))
          (.value node [] y)
          (.value node [.assign node y (.call node (name "climb") [x])] y))⟩]⟩

set_option maxRecDepth 10000 in
theorem climb_analysed : ∃ typed s', (Session.start fun _ => 0).analyze .default climb =
    .ok (.ok typed, s') ∧ typed.functions ≠ [] := by
  have h : (match (Session.start fun _ => 0).analyze .default climb with
      | .ok (.ok typed, _) => !typed.functions.isEmpty
      | _ => false) = true := by decide +kernel
  split at h
  · rename_i typed s' heq
    refine ⟨typed, s', heq, ?_⟩
    rintro hnil
    rw [hnil] at h
    cases h
  · cases h

end RangeTyping
