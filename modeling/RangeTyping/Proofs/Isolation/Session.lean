import Mathlib
import RangeTyping.Proofs.Intact.Session
import RangeTyping.Proofs.Isolation.Functions
import RangeTyping.Proofs.Isolation.Root
import RangeTyping.Proofs.Renaming.Events

/-!
# Modules of one session

A session is a session that has just started, after a past (`Session.Reached.exists_past`), and an
analysis after a past gives the answer that it gives without, with other numbers (`Past.analyze`).
So the modules of a session do not see each other: each has the answer that it has alone
(`Session.run_isolated`).
-/

namespace RangeTyping

/-! ### Typed modules -/

/-- Renames a module, which has a number of its own. -/
def Renaming.module (r : Renaming) (number : Nat → Nat) (m : TypedModule) : TypedModule :=
  { m with
    id := number m.id
    structs := m.structs.map r.structOf
    functions := m.functions.map r.function }

/-- **The events of a renamed module.** -/
theorem Renaming.events_module {r : Renaming} {S T : StructStore} (hr : Function.Injective r.value)
    (h : StructStore.Embeds r.struct S T) (number : Nat → Nat) (m : TypedModule) :
    (r.module number m).events T = (m.events S).map (r.event number) := by
  have hcomplete : ∀ s : TypedStruct,
      (r.structOf s).type.asStruct?.any T.isComplete = s.type.asStruct?.any S.isComplete := by
    rintro ⟨name, type⟩
    cases type with
    | struct f i => exact h.isComplete i
    | _ => rfl
  have hfunctions : ∀ fs : List TypedFunction,
      (fs.map r.function).flatMap (TypedFunction.events m.location.file) =
        (fs.flatMap (TypedFunction.events m.location.file)).map (r.event number) := by
    intro fs
    rw [List.flatMap_map, List.map_flatMap]
    exact List.flatMap_congr fun f _ => events_function hr m.location.file f
  unfold TypedModule.events
  dsimp only [Renaming.module]
  rw [hfunctions]
  simp only [List.map_append, List.map_map, List.filter_map, Function.comp_def, hcomplete]
  rfl

namespace Session

variable {s s' : Session} {options : Options} {m : Source.Module} {verdict : Verdict}

/-- An analysis that ends well has gone through its stages. -/
theorem exists_stages (h : s.analyze options m = .ok (verdict, s')) :
    ∃ declared structErrors S c₁ signatures functionErrors c₂ functions bodyErrors fresh,
      m.declareStructs s.structs s.builtins.moduleContext =
        .ok (declared, structErrors, S, c₁) ∧
      m.registerFunctions S s.builtins.types.voidTy c₁ = .ok (signatures, functionErrors, c₂) ∧
      collect (fun fresh (f : Signature) => f.analyze ⟨S, s.builtins.types, options, "",
        s.builtins.types.voidTy, c₂⟩ fresh) s.fresh signatures =
          .ok (functions, bodyErrors, fresh) := by
  obtain ⟨⟨declared, structErrors, S, c₁⟩, hstructs, h⟩ := Outcome.bind_ok h
  obtain ⟨⟨signatures, functionErrors, c₂⟩, hfunctions, h⟩ := Outcome.bind_ok h
  obtain ⟨⟨functions, bodyErrors, fresh⟩, hbodies, -⟩ := Outcome.bind_ok h
  exact ⟨declared, structErrors, S, c₁, signatures, functionErrors, c₂, functions, bodyErrors,
    fresh, hstructs, hfunctions, hbodies⟩

theorem nextModule_le (h : s.analyze options m = .ok (verdict, s')) :
    s.nextModule ≤ s'.nextModule := by
  obtain ⟨declared, structErrors, S, c₁, signatures, functionErrors, c₂, functions, bodyErrors, fresh,
    hstructs, hfunctions, hbodies⟩ := exists_stages h
  rw [analyze_eq hstructs hfunctions hbodies] at h
  split at h
  · cases h
    exact Nat.le_succ _
  · cases h
    exact le_rfl

end Session

/-! ### After a past -/

namespace Past

variable (p : Past)

/-- The number of a module after the past. -/
def number (n : Nat) : Nat := p.modules + n

/-- The session after the past. -/
def session (s : Session) : Session :=
  { s with
    structs := p.store s.structs
    fresh := p.fresh s.fresh
    nextModule := p.number s.nextModule }

/-- An answer after the past. -/
def verdict : Verdict → Verdict
  | .ok typed => .ok (p.numbers.module p.number typed)
  | .error ds => .error (ds.map (.renumber p.struct))

variable {p} {cookie : Registration → Nat} {s s' : Session} {options : Options} {m : Source.Module}

/-- **Builtins have no structs**, so their scope is the same after every past. -/
theorem context_moduleContext : p.context (Builtins.prepare cookie).moduleContext =
    (Builtins.prepare cookie).moduleContext := by
  have htypes : ∀ scalars : List Scalar,
      (scalars.map fun a => (a.name, Ty.ofScalar a)).map
          (fun e => (e.1, e.2.renumber p.struct)) =
        scalars.map fun a => (a.name, Ty.ofScalar a) := fun scalars => by
    rw [List.map_map]
    rfl
  have hoperators : ((BuiltinTypes.ofBackend cookie).operators.map fun f =>
        (f.name, Object.function f)).map (fun e => (e.1, p.object e.2)) =
      (BuiltinTypes.ofBackend cookie).operators.map fun f => (f.name, Object.function f) := by
    rw [List.map_map]
    refine List.map_congr_left fun f hf => ?_
    show (f.name, Object.function { f with overloads := f.overloads.map (.renumber p.struct) }) = _
    rw [List.map_congr_left fun o ho => BuiltinTypes.renumber_overload hf ho, List.map_id']
  unfold context scope
  simp only [Builtins.moduleContext, LookupContext.deriveModule, LookupContext.push,
    LookupContext.rootScope, LookupContext.scopes, Builtins.prepare, List.map_cons, htypes,
    hoperators, List.getLast?_nil, Option.getD_none, List.map_nil]
  rfl

/-- **An analysis that stops at the structs** stops there after a past. -/
theorem analyze_of_error {e : InternalError} (hb : s.builtins = .prepare cookie)
    (h : m.declareStructs s.structs s.builtins.moduleContext = .error e) :
    (p.session s).analyze options m = .error e := by
  refine Session.analyze_of_error ?_
  have hstructs := declareStructs (p := p) (S := s.structs)
    (c := (Builtins.prepare cookie).moduleContext) m
  rw [context_moduleContext, ← hb, h] at hstructs
  exact hstructs

/-- **An analysis after a past** answers as it does without. -/
theorem analyze {verdict : Verdict} (hb : s.builtins = .prepare cookie)
    (hpos : 0 < s.fresh.nextValue) (h : s.analyze options m = .ok (verdict, s')) :
    (p.session s).analyze options m = .ok (p.verdict verdict, p.session s') := by
  obtain ⟨declared, structErrors, S, c₁, signatures, functionErrors, c₂, functions, bodyErrors, fresh,
    hstructs, hfunctions, hbodies⟩ := Session.exists_stages h
  rw [Session.analyze_eq hstructs hfunctions hbodies] at h
  have htypes : s.builtins.types = .ofBackend cookie := by
    rw [hb]
    rfl
  rw [hb] at hstructs
  rw [htypes] at hfunctions hbodies
  -- conversions are those of the builtins in the context that the first two stages leave
  have hc := ((LookupContext.Registered.moduleContext cookie s.structs).declareStructs
    hstructs).registerFunctions rfl hfunctions
  have hG := (hc.proper options "" hpos).sole
  have hstructs' := declareStructs (p := p) (S := s.structs)
    (c := (Builtins.prepare cookie).moduleContext) m
  have hfunctions' := registerFunctions (p := p) hfunctions
  have hbodies' := analyzeFunctions (p := p) hG hpos hbodies
  rw [context_moduleContext, hstructs, ← hb] at hstructs'
  rw [Ty.renumber_voidTy, ← htypes] at hfunctions'
  rw [show p.env ⟨S, .ofBackend cookie, options, "", (BuiltinTypes.ofBackend cookie).voidTy, c₂⟩ =
    ⟨p.store S, .ofBackend cookie, options, "", (BuiltinTypes.ofBackend cookie).voidTy,
      p.context c₂⟩ from rfl, ← htypes] at hbodies'
  have hanalyze := Session.analyze_eq (s := p.session s) hstructs' hfunctions' hbodies'
  have hdeclared : (declared.map (DeclaredStruct.renumber p.struct)).map (·.typed) =
      (declared.map (·.typed)).map p.numbers.structOf := by
    rw [List.map_map, List.map_map]
    rfl
  rw [hanalyze, ← List.map_append, ← List.map_append, hdeclared]
  cases hds : structErrors ++ functionErrors ++ bodyErrors with
  | nil =>
    rw [hds] at h
    cases h
    rfl
  | cons d ds =>
    rw [hds] at h
    cases h
    rfl

end Past

namespace Session

variable {cookie : Registration → Nat} {s : Session}

/-! ### Every session has a past -/

/-- A reached session draws no number that is smaller than the first. -/
theorem Reached.started (h : Reached cookie s) :
    s.builtins = .prepare cookie ∧ Fresh.initial.Grew s.fresh ∧ 1 ≤ s.nextModule := by
  induction h with
  | start => exact ⟨rfl, .refl _, le_rfl⟩
  | @analyze s s' options m verdict before h ih =>
    obtain ⟨hb, hgrew, hmodule⟩ := ih
    obtain ⟨hb', c, signatures, functions, errors, hc, hcollect, -⟩ := analyze_steps hb h
    refine ⟨hb', ?_, hmodule.trans (nextModule_le h)⟩
    refine collect_induction (I := fun _ fresh => Fresh.initial.Grew fresh) hcollect hgrew ?_
    intro _ fresh sig f fresh' hsig hfresh hf
    exact hfresh.trans ((hc.implements hfresh.values hsig hf).2 "").grew

/-- **A session goes on where its past ends.** -/
theorem Reached.exists_past (h : Reached cookie s) : ∃ p : Past, s = p.session (.start cookie) := by
  obtain ⟨hb, hgrew, hmodule⟩ := h.started
  obtain ⟨values, hvalues⟩ := Nat.exists_eq_add_of_le' hgrew.values
  obtain ⟨points, hpoints⟩ := Nat.exists_eq_add_of_le' hgrew.points
  obtain ⟨modules, hmodules⟩ := Nat.exists_eq_add_of_le' hmodule
  refine ⟨⟨s.structs.bodies, values, points, modules⟩, ?_⟩
  obtain ⟨builtins, ⟨bodies⟩, ⟨nextValue, nextPoint⟩, nextModule⟩ := s
  dsimp only at hb hvalues hpoints hmodules
  subst hb hvalues hpoints hmodules
  show _ = Session.mk _ ⟨bodies ++ #[].map _⟩ _ _
  rw [Array.map_empty, Array.append_empty]
  rfl

/-! ### Many modules -/

/-- **Analyses modules one after another.** -/
def run (s : Session) :
    List (Options × Source.Module) → Except InternalError (List (Verdict × Session))
  | [] => .ok []
  | (options, m) :: rest => do
    let (verdict, s) ← s.analyze options m
    return (verdict, s) :: (← run s rest)

theorem run_cons {s' : Session} {options : Options} {m : Source.Module} {verdict : Verdict}
    {rest : List (Options × Source.Module)} (h : s.analyze options m = .ok (verdict, s')) :
    s.run ((options, m) :: rest) = (s'.run rest).map ((verdict, s') :: ·) := by
  rw [run, h]
  show (s'.run rest >>= fun answers => pure ((verdict, s') :: answers)) = _
  cases s'.run rest <;> rfl

/-- **Answers that differ in the choice of numbers only.**  Typed modules have the same functions and
structs, and the same events, up to a renaming that is one to one; structs have the same names and
layouts.  Diagnostics are the same and have the same wording. -/
inductive SameAnswer : Verdict × Session → Verdict × Session → Prop where
  | typed {typed : TypedModule} {s s' : Session} (r : Renaming) (number : Nat → Nat)
      (value : Function.Injective r.value) (point : Function.Injective r.point)
      (number_injective : Function.Injective number)
      (structs : StructStore.Embeds r.struct s.structs s'.structs)
      (events : (r.module number typed).events s'.structs =
        (typed.events s.structs).map (r.event number)) :
      SameAnswer (.ok typed, s) (.ok (r.module number typed), s')
  | refused {ds : List Diagnostic} {s s' : Session} (ρ : StructId → StructId)
      (structs : StructStore.Embeds ρ s.structs s'.structs)
      (messages : (ds.map (.renumber ρ)).map (Diagnostic.message s'.structs) =
        ds.map (Diagnostic.message s.structs)) :
      SameAnswer (.error ds, s) (.error (ds.map (.renumber ρ)), s')

theorem sameAnswer_of_past (p : Past) (verdict : Verdict) (s : Session) :
    SameAnswer (verdict, s) (p.verdict verdict, p.session s) := by
  cases verdict with
  | ok typed =>
    refine .typed p.numbers p.number p.value_injective p.point_injective ?_ Past.embeds ?_
    · exact fun _ _ h => Nat.add_left_cancel h
    · exact Renaming.events_module p.value_injective Past.embeds p.number typed
  | error ds =>
    refine .refused p.struct Past.embeds ?_
    rw [List.map_map]
    exact List.map_congr_left fun d _ => Past.embeds.message d

/-- **A module has the answer that it has alone**, whatever was analysed before, or it overflows as
it does alone. -/
theorem Reached.exists_sameAnswer (hs : Reached cookie s) (options : Options) (m : Source.Module) :
    (∃ alone answer, (Session.start cookie).analyze options m = .ok alone ∧
      s.analyze options m = .ok answer ∧ SameAnswer alone answer) ∨
    ∃ op, (Session.start cookie).analyze options m = .error (.overflow op) ∧
      s.analyze options m = .error (.overflow op) := by
  obtain ⟨p, rfl⟩ := hs.exists_past
  rcases m.declareStructs_cases cookie .empty with
    ⟨-, declared, refused, S₁, c, errors, T, -, -, hok⟩ | ⟨-, op, hop⟩
  · obtain ⟨verdict, s', halone, -⟩ :=
      (Reached.start : Reached cookie _).exists_analyze options hok
    exact .inl ⟨_, _, halone, Past.analyze rfl Nat.one_pos halone, sameAnswer_of_past p verdict s'⟩
  · exact .inr ⟨op, analyze_of_error hop, Past.analyze_of_error rfl hop⟩

/-- Each module has the answer that it has alone, and the builtins are as they were prepared. -/
def Isolated (cookie : Registration → Nat) :
    List (Options × Source.Module) → List (Verdict × Session) → Prop :=
  List.Forall₂ fun job answer => answer.2.builtins = .prepare cookie ∧
    ∃ alone, (start cookie).analyze job.1 job.2 = .ok alone ∧ SameAnswer alone answer

/-- **A run of many modules** goes on as long as no module overflows. -/
theorem Reached.run_cases (hs : Reached cookie s) (jobs : List (Options × Source.Module)) :
    (∃ answers, s.run jobs = .ok answers ∧ Isolated cookie jobs answers) ∨
      ∃ front job rest answers op, jobs = front ++ job :: rest ∧
        s.run front = .ok answers ∧ Isolated cookie front answers ∧
        (Session.start cookie).analyze job.1 job.2 = .error (.overflow op) ∧
        s.run jobs = .error (.overflow op) := by
  induction jobs generalizing s with
  | nil => exact .inl ⟨[], rfl, .nil⟩
  | cons job rest ih =>
    obtain ⟨options, m⟩ := job
    rcases hs.exists_sameAnswer options m with
      ⟨alone, ⟨verdict, s'⟩, halone, hanalyze, hsame⟩ | ⟨op, halone, hanalyze⟩
    · have hs' : Reached cookie s' := hs.analyze hanalyze
      have hfirst : s'.builtins = .prepare cookie ∧
          ∃ alone, (Session.start cookie).analyze options m = .ok alone ∧
            SameAnswer alone (verdict, s') :=
        ⟨hs'.started.1, alone, halone, hsame⟩
      rcases ih hs' with
        ⟨answers, hanswers, hrest⟩ | ⟨front, job, after, answers, op, rfl, hfront, hall, hop, hstop⟩
      · refine .inl ⟨(verdict, s') :: answers, ?_, .cons hfirst hrest⟩
        rw [run_cons hanalyze, hanswers]
        rfl
      · refine .inr ⟨(options, m) :: front, job, after, (verdict, s') :: answers, op, rfl, ?_,
          .cons hfirst hall, hop, ?_⟩
        · rw [run_cons hanalyze, hfront]
          rfl
        · rw [run_cons hanalyze, hstop]
          rfl
    · refine .inr ⟨[], (options, m), rest, [], op, rfl, rfl, .nil, halone, ?_⟩
      rw [run, hanalyze]
      rfl

/-- **Modules of one session are isolated.**  However many modules are analysed one after another,
with whatever options and whatever comes of them, each has the answer that it has alone on builtins
that were just prepared; or there is a first one that overflows, as it does alone, and those before it
have their answers.  No analysis changes the builtins: in all the contexts that it works in, the root
scope, with its conversions, and the table of type ids stay as they were prepared. -/
theorem run_isolated (cookie : Registration → Nat) (jobs : List (Options × Source.Module)) :
    ((∃ answers, (start cookie).run jobs = .ok answers ∧ Isolated cookie jobs answers) ∨
      ∃ front job rest answers op, jobs = front ++ job :: rest ∧
        (start cookie).run front = .ok answers ∧ Isolated cookie front answers ∧
        (start cookie).analyze job.1 job.2 = .error (.overflow op) ∧
        (start cookie).run jobs = .error (.overflow op)) ∧
    ∀ c, LookupContext.Met (.prepare cookie) c →
      c.rootScope = (Builtins.prepare cookie).root.current ∧
        c.typeIds = (Builtins.prepare cookie).root.typeIds := by
  refine ⟨Reached.start.run_cases jobs, fun c hc => ?_⟩
  obtain ⟨hroot, htable⟩ := hc.root
  exact ⟨LookupContext.rootScope_of_getLast? hroot, htable⟩

end Session

end RangeTyping
