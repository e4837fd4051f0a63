import Mathlib
import RangeTyping.Proofs.Isolation.Body
import RangeTyping.Proofs.Renaming.Functions

/-!
# Functions after a past

The other two stages of an analysis: functions are registered after a past as without it
(`Past.registerFunctions`), and so are their bodies analysed (`Past.analyzeFunction`).
-/

namespace RangeTyping

namespace Past

variable {p : Past} {cookie : Registration → Nat} {S : StructStore} {c : LookupContext}

/-! ### Names -/

theorem reserve (name : String) :
    (p.context c).reserve name = (c.reserve name).map p.context := by
  unfold LookupContext.reserve Scope.reserve
  rw [show (p.context c).current = p.scope c.current from rfl, scopeObject?]
  cases c.current.object? name with
  | none =>
    simp only [Option.map_none, Except.map, bind, Except.bind]
    simp [context, scope, object, pure, Except.pure]
  | some x => cases x <;> rfl

theorem reserveFunction (f : Source.FunctionDef) :
    p.Follows (fun x y => y = (x.1, p.context x.2)) (Signature.reserve c f)
      (Signature.reserve (p.context c) f) := by
  unfold Signature.reserve
  rw [reserve]
  cases c.reserve f.name.text with
  | ok c' => exact .ok rfl
  | error e => exact .fail rfl

/-! ### Signatures -/

theorem anyWith (arguments : List Ty) (os : List Overload) :
    Overload.anyWith (p.store S) (arguments.map (Ty.renumber p.struct))
        (os.map (.renumber p.struct)) =
      Overload.anyWith S arguments os := by
  induction os with
  | nil => rfl
  | cons o rest ih =>
    rw [List.map_cons, Overload.anyWith, Overload.anyWith, signature]
    cases o.signature S with
    | error e => rfl
    | ok x =>
      simp only [Except.map, bind, Except.bind]
      rw [embeds.sameAll, ih]

theorem replace (name : String) (x : Object) (objects : List (String × Object)) :
    Scope.replace name (p.object x) (objects.map fun e => (e.1, p.object e.2)) =
      (Scope.replace name x objects).map fun e => (e.1, p.object e.2) := by
  simp only [Scope.replace, List.map_map]
  refine List.map_congr_left fun e _ => ?_
  simp only [Function.comp_apply, apply_ite p.object]

/-- **A function is attached to its name** after the past. -/
theorem attachScope (s : Scope) (o : Overload) :
    (p.scope s).attach (p.store S) (o.renumber p.struct) = (s.attach S o).map p.scope := by
  unfold Scope.attach
  rw [show (o.renumber p.struct).name = o.name from rfl, scopeObject?,
    show (o.renumber p.struct).type = o.type.renumber p.struct from rfl, embeds.text]
  cases s.object? o.name with
  | none => rfl
  | some x =>
    cases x with
    | «variable» v => rfl
    | function f =>
      have hextended : Object.function { f with
            overloads := f.overloads.map (.renumber p.struct) ++ [o.renumber p.struct] } =
          p.object (.function { f with overloads := f.overloads ++ [o] }) := by
        simp [object]
      dsimp only [Option.map_some, object]
      rw [signature, hextended, show (p.scope s).objects = s.objects.map fun e =>
        (e.1, p.object e.2) from rfl, replace]
      cases o.signature S with
      | error e => rfl
      | ok x =>
        have hany := anyWith (p := p) (S := S) x.1 f.overloads
        simp only [Except.map, liftM, monadLift, MonadLift.monadLift, bind, Except.bind,
          Outcome.ofInternal]
        rw [hany]
        cases Overload.anyWith S x.1 f.overloads with
        | error e => rfl
        | ok taken => cases taken <;> rfl

theorem attach (o : Overload) :
    (p.context c).attach (p.store S) (o.renumber p.struct) = (c.attach S o).map p.context := by
  unfold LookupContext.attach
  rw [show (p.context c).current = p.scope c.current from rfl, attachScope]
  cases c.current.attach S o <;> rfl

theorem signatureTypes (written : List Source.TypeExpr) :
    Signature.types (p.context c) written =
      (Signature.types c written).map (List.map (Ty.renumber p.struct)) := by
  induction written with
  | nil => rfl
  | cons t rest ih =>
    rw [Signature.types, Signature.types, resolveType, ih]
    cases c.resolveType t with
    | error d => rfl
    | ok u => cases Signature.types c rest <;> rfl

/-- **A signature is read** after the past. -/
theorem read (nothing : Ty) (f : Source.FunctionDef) :
    Signature.read (p.store S) (nothing.renumber p.struct) (p.context c) f =
      (Signature.read S nothing c f).map (.renumber p.struct) := by
  -- symbols do not show the numbers of structs
  have hsymbol : ∀ (ts : List Ty) (t : Ty),
      (Ty.arrow (ts.map (Ty.renumber p.struct)) (t.renumber p.struct)).symbol (p.store S) =
        (Ty.arrow ts t).symbol S := fun ts t => by rw [← Ty.renumber_arrow, embeds.symbol]
  unfold Signature.read
  rw [signatureTypes]
  cases Signature.types c (f.arguments.map (·.type)) with
  | error d => rfl
  | ok ts =>
    cases f.returns with
    | none =>
      simp only [Except.map, bind, Except.bind, pure, Except.pure]
      rw [hsymbol]
      rfl
    | some t =>
      simp only [Except.map, bind, Except.bind, pure, Except.pure]
      rw [resolveType]
      cases c.resolveType t with
      | error d => rfl
      | ok u =>
        simp only [Except.map]
        rw [hsymbol]
        rfl

theorem renumber_of_types {written : List Source.TypeExpr} {d : Diagnostic}
    (h : Signature.types c written = .error d) : d.renumber p.struct = d := by
  induction written with
  | nil => cases h
  | cons t rest ih =>
    rw [Signature.types] at h
    cases ht : c.resolveType t with
    | error e =>
      rw [ht] at h
      cases h
      exact LookupContext.renumber_of_resolveType ht
    | ok u =>
      cases hrest : Signature.types c rest with
      | error e =>
        rw [ht, hrest] at h
        cases h
        exact ih hrest
      | ok us =>
        rw [ht, hrest] at h
        cases h

/-- Signatures that cannot be read have no numbers to change. -/
theorem renumber_of_read {nothing : Ty} {f : Source.FunctionDef} {d : Diagnostic}
    (h : Signature.read S nothing c f = .error d) : d.renumber p.struct = d := by
  unfold Signature.read at h
  cases hts : Signature.types c (f.arguments.map (·.type)) with
  | error e =>
    rw [hts] at h
    cases h
    exact renumber_of_types hts
  | ok ts =>
    rw [hts] at h
    cases hf : f.returns with
    | none =>
      rw [hf] at h
      cases h
    | some t =>
      rw [hf] at h
      cases ht : c.resolveType t with
      | error e =>
        simp only [bind, Except.bind, ht] at h
        cases h
        exact LookupContext.renumber_of_resolveType ht
      | ok u =>
        simp only [bind, Except.bind, ht] at h
        cases h

theorem overload_renumber (sig : Signature) :
    (sig.renumber p.struct).overload = sig.overload.renumber p.struct := by
  rw [Signature.overload, Signature.overload, Overload.renumber, Signature.type_renumber]
  rfl

/-- **A signature is registered** after the past. -/
theorem register (nothing : Ty) (f : Source.FunctionDef) :
    p.Follows (fun x y => y = (x.1.renumber p.struct, p.context x.2))
      (Signature.register S nothing c f)
      (Signature.register (p.store S) (nothing.renumber p.struct) (p.context c) f) := by
  unfold Signature.register
  rw [read]
  cases hread : Signature.read S nothing c f with
  | error d => exact .fail (renumber_of_read hread).symm
  | ok sig =>
    dsimp only [Except.map]
    rw [overload_renumber, attach]
    cases c.attach S sig.overload with
    | ok c' => exact .ok rfl
    | error e =>
      cases e with
      | error e => exact .fail rfl
      | internal e => exact .internal e e

/-- **The functions of a module are registered** after the past. -/
theorem registerFunctions {m : Source.Module} {nothing : Ty} {signatures : List Signature}
    {ds : List Diagnostic} {c' : LookupContext}
    (h : m.registerFunctions S nothing c = .ok (signatures, ds, c')) :
    m.registerFunctions (p.store S) (nothing.renumber p.struct) (p.context c) =
      .ok (signatures.map (.renumber p.struct), ds.map (.renumber p.struct), p.context c') := by
  obtain ⟨⟨reserved, refused, c₁⟩, hreserve, h⟩ := Outcome.bind_ok h
  obtain ⟨⟨signatures₁, ds₁, c₂⟩, hregister, h⟩ := Outcome.bind_ok h
  cases h
  have hreserve' := collect (p := p) (χ := id) (ψ := id) (I := fun _ => True) (φ := p.context)
    (fun c _ f => (reserveFunction f).mono (fun _ _ => id) fun _ _ h => ⟨h, trivial⟩) trivial
    hreserve
  have hregister' := collect (p := p) (χ := id) (ψ := .renumber p.struct) (I := fun _ => True)
    (φ := p.context)
    (fun c _ f => (register nothing f).mono (fun _ _ => id) fun _ _ h => ⟨h, trivial⟩) trivial
    hregister
  rw [List.map_id, List.map_id] at hreserve'
  rw [List.map_id] at hregister'
  rw [Source.Module.registerFunctions, hreserve']
  simp only [bind, Except.bind, hregister', pure, Except.pure, List.map_append]

/-! ### Bodies -/

theorem parameterList {env : Env}
    (hG : (BuiltinTypes.ofBackend cookie).Sole env.context.castGraph)
    (arguments : List Source.Argument) (types : List Ty) :
    p.Repeats (p.Enters cookie (List.map p.numbers.parameter))
      (Signature.parameterList env arguments types)
      (Signature.parameterList (p.env env) arguments (types.map (Ty.renumber p.struct))) := by
  induction arguments generalizing env types with
  | nil => exact .pure ⟨rfl, hG⟩
  | cons a rest ih =>
    cases types with
    | nil => exact .pure ⟨rfl, hG⟩
    | cons t ts =>
      rw [List.map_cons, Signature.parameterList, Signature.parameterList, Ty.fullRange_renumber]
      refine (Repeats.liftInternal _).bindMap fun range => ?_
      refine (declareVariable hG a.name.text t false range).enter fun v env₁ hG₁ => ?_
      exact (ih hG₁ ts).enter fun ps env₂ hG₂ => .pure ⟨rfl, hG₂⟩

/-- **The body of a function is analysed** after the past. -/
theorem analyzeFunction {env : Env}
    (hG : (BuiltinTypes.ofBackend cookie).Sole env.context.castGraph) (sig : Signature) :
    p.Repeats (Maps p.numbers.function) (sig.analyze env)
      ((sig.renumber p.struct).analyze (p.env env)) := by
  have hexpected : (if sig.result.isVoid then none else some (sig.result.renumber p.struct)) =
      (if sig.result.isVoid then none else some sig.result).map (Ty.renumber p.struct) := by
    split <;> rfl
  have hinner : (BuiltinTypes.ofBackend cookie).Sole
      ({ env with function := sig.definition.name.text, returnType := sig.result } :
        Env).enter.context.castGraph := sole_enter hG
  refine (parameterList hinner sig.definition.arguments sig.parameters).enter
    fun parameters inner hinner => ?_
  simp only [Signature.renumber, Ty.isVoid_renumber]
  rw [hexpected]
  generalize (if sig.result.isVoid then none else some sig.result) = expected
  refine (block hinner expected sig.definition.body).spend fun body b => ?_
  dsimp only
  rw [Option.isSome_map]
  split
  · exact .fail rfl
  · refine .pure ?_
    rw [Maps, ← p.numbers.expr_discard, ← apply_ite p.numbers.expr]
    have htype := sig.type_renumber p.struct
    rw [Signature.renumber] at htype
    rw [htype]
    rfl

/-- **The bodies of a module are analysed** after the past. -/
theorem analyzeFunctions {env : Env} {signatures : List Signature} {functions : List TypedFunction}
    {ds : List Diagnostic} {s s' : Fresh}
    (hG : (BuiltinTypes.ofBackend cookie).Sole env.context.castGraph) (hpos : 0 < s.nextValue)
    (h : RangeTyping.collect (fun s (sig : Signature) => sig.analyze env s) s signatures =
      .ok (functions, ds, s')) :
    RangeTyping.collect (fun s (sig : Signature) => sig.analyze (p.env env) s) (p.fresh s)
        (signatures.map (.renumber p.struct)) =
      .ok (functions.map p.numbers.function, ds.map (.renumber p.struct), p.fresh s') := by
  refine collect (I := fun s => 0 < s.nextValue) (fun s hs sig => ?_) hpos h
  refine (analyzeFunction hG sig s hs).mono (fun _ _ => id) fun x y hxy => ?_
  exact ⟨Prod.ext hxy.1 hxy.2.1, hxy.2.2⟩

end Past

end RangeTyping
