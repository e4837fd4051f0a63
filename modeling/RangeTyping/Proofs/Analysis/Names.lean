import Mathlib
import RangeTyping.Session
import RangeTyping.Proofs.Equality
import RangeTyping.Proofs.Outcome

/-!
# What the names of a module stand for

A module's own scope starts out empty.  Reserving the names of its functions therefore never fails
(`LookupContext.Lists.collect_reserve`), and afterwards every name in the scope stands for the
functions of that name that were registered so far, in the order of registration
(`LookupContext.Lists`).  A signature is refused exactly if it clashes with one of these: same name,
same parameter types (`LookupContext.Lists.register_eq`).

The types of the scope are the declared structs in order (`DeclaredStruct.types_collect_declare`).
-/

namespace RangeTyping

/-! ### Objects by name -/

theorem lookup_concat {α : Type} (entries : List (String × α)) (name key : String) (a : α) :
    (entries ++ [(key, a)]).lookup name =
      (entries.lookup name).or (if name = key then some a else none) := by
  induction entries with
  | nil =>
    by_cases h : name = key
    · simp [h]
    · rw [List.nil_append, List.lookup_cons, beq_false_of_ne h, if_neg h]
      rfl
  | cons entry rest ih =>
    obtain ⟨k, b⟩ := entry
    rw [List.cons_append, List.lookup_cons, List.lookup_cons]
    split
    · rfl
    · exact ih

/-- Replacing an object changes what its name stands for, and no other name. -/
theorem Scope.lookup_replace (objects : List (String × Object)) (name key : String)
    (object : Object) : (Scope.replace key object objects).lookup name =
      (objects.lookup name).map fun o => if name = key then object else o := by
  induction objects with
  | nil => rfl
  | cons entry rest ih =>
    obtain ⟨k, o⟩ := entry
    rw [Scope.replace, List.map_cons, List.lookup_cons, List.lookup_cons]
    by_cases h : name = k
    · subst h
      simp
    · rw [beq_false_of_ne h]
      exact ih

namespace Signature

/-- The overloads of one name. -/
def named (signatures : List Signature) (name : String) : List Overload :=
  (signatures.filter fun sig => sig.overload.name == name).map (·.overload)

/-- Whether one of the signatures has the name and the parameter types of `sig`. -/
def clashes (S : StructStore) (signatures : List Signature) (sig : Signature) : Bool :=
  signatures.any fun other => other.overload.name == sig.overload.name &&
    Ty.sameAll S other.parameters sig.parameters

/-- Signatures are functions, so their overloads can be compared. -/
theorem anyWith_named (S : StructStore) (signatures : List Signature) (sig : Signature) :
    Overload.anyWith S sig.parameters (named signatures sig.overload.name) =
      .ok (sig.clashes S signatures) := by
  induction signatures with
  | nil => rfl
  | cons other rest ih =>
    rw [named, List.filter_cons, clashes, List.any_cons]
    by_cases hname : (other.overload.name == sig.overload.name) = true
    · rw [if_pos hname, hname, Bool.true_and, List.map_cons, Overload.anyWith]
      show (if Ty.sameAll S other.parameters sig.parameters = true then Except.ok true else _) = _
      cases hsame : Ty.sameAll S other.parameters sig.parameters with
      | true => rfl
      | false => exact ih
    · rw [if_neg hname]
      simp only [Bool.not_eq_true] at hname
      rw [hname, Bool.false_and, Bool.false_or]
      exact ih

/-- The two differ in their names or in their parameter types. -/
def Differ (S : StructStore) (a b : Signature) : Prop :=
  ¬ (a.overload.name = b.overload.name ∧ Ty.sameAll S a.parameters b.parameters = true)

theorem clashes_eq_false_iff {S : StructStore} {signatures : List Signature} {sig : Signature} :
    sig.clashes S signatures = false ↔ ∀ other ∈ signatures, other.Differ S sig := by
  simp [clashes, Differ]

/-- A signature is that of the function it was read from. -/
theorem definition_of_read {S : StructStore} {nothing : Ty} {c : LookupContext}
    {f : Source.FunctionDef} {sig : Signature} (h : read S nothing c f = .ok sig) :
    sig.definition = f := by
  obtain ⟨parameters, result, -, -, rfl⟩ := read_ok h
  rfl

theorem named_append (signatures : List Signature) (sig : Signature) (name : String) :
    named (signatures ++ [sig]) name =
      named signatures name ++ (if sig.overload.name = name then [sig.overload] else []) := by
  rw [named, List.filter_append, List.map_append]
  by_cases h : sig.overload.name = name <;> simp [h, named]

end Signature

/-- **What the names of the innermost scope stand for**: the names that are reserved are those of
functions, and these are the signatures of that name. -/
def LookupContext.Lists (c : LookupContext) (names : List String) (signatures : List Signature) :
    Prop :=
  ∀ name, c.current.object? name =
    if name ∈ names then some (.function ⟨name, Signature.named signatures name⟩) else none

namespace LookupContext

variable {c c' : LookupContext} {names : List String} {signatures : List Signature}

/-- The context with other objects in its innermost scope. -/
def withObjects (c : LookupContext) (objects : List (String × Object)) : LookupContext :=
  { c with current := { c.current with objects } }

@[simp] theorem type?_withObjects (c : LookupContext) (objects : List (String × Object))
    (name : String) : (c.withObjects objects).type? name = c.type? name := rfl

/-- Types are looked up the same whatever the objects are. -/
theorem resolveType_congr (h : ∀ name, c'.type? name = c.type? name) (t : Source.TypeExpr) :
    c'.resolveType t = c.resolveType t := by
  induction t with
  | simple n name => rw [resolveType, resolveType, h]
  | pointer n t ih => rw [resolveType, resolveType, ih]
  | array n t count ih => rw [resolveType, resolveType, ih]

theorem types_congr (h : ∀ name, c'.type? name = c.type? name) (ts : List Source.TypeExpr) :
    Signature.types c' ts = Signature.types c ts := by
  induction ts with
  | nil => rfl
  | cons t ts ih => rw [Signature.types, Signature.types, resolveType_congr h, ih]

theorem read_congr (h : ∀ name, c'.type? name = c.type? name) (S : StructStore) (nothing : Ty)
    (f : Source.FunctionDef) : Signature.read S nothing c' f = Signature.read S nothing c f := by
  rw [Signature.read, Signature.read, types_congr h]
  cases f.returns with
  | none => rfl
  | some t =>
    dsimp only
    rw [resolveType_congr h]

namespace Lists

/-- The scope of a module in which no function is registered. -/
theorem of_nil (h : c.current.objects = []) : c.Lists [] [] := by
  intro name
  rw [Scope.object?, h]
  rfl

/-- **A name can always be reserved** in the scope of a module. -/
theorem reserve (h : c.Lists names []) (f : Source.FunctionDef) :
    ∃ objects, Signature.reserve c f = .ok (f, c.withObjects objects) ∧
      (c.withObjects objects).Lists (names ++ [f.name.text]) [] := by
  have hobject := h f.name.text
  unfold Signature.reserve LookupContext.reserve Scope.reserve
  by_cases hmem : f.name.text ∈ names
  · -- a name that is reserved already stays so; `names` gets a second copy of it
    rw [if_pos hmem] at hobject
    rw [hobject]
    refine ⟨c.current.objects, rfl, fun name => (h name).trans ?_⟩
    have hiff : name ∈ names ++ [f.name.text] ↔ name ∈ names := by
      rw [List.mem_append, List.mem_singleton]
      exact ⟨fun hor => hor.elim id fun heq => heq ▸ hmem, .inl⟩
    simp only [hiff]
  · -- a new name comes last, and has no overloads yet
    rw [if_neg hmem] at hobject
    rw [hobject]
    refine ⟨_, rfl, fun name => ?_⟩
    show (c.current.objects ++ [(f.name.text, _)]).lookup name = _
    rw [lookup_concat, show c.current.objects.lookup name = _ from h name]
    by_cases hname : name = f.name.text
    · subst hname
      simp [hmem, Signature.named]
    · simp [hname]

/-- **All names are reserved.** -/
theorem collect_reserve (h : c.Lists names []) (fs : List Source.FunctionDef) :
    ∃ objects, collect Signature.reserve c fs = .ok (fs, [], c.withObjects objects) ∧
      (c.withObjects objects).Lists (names ++ fs.map (·.name.text)) [] := by
  induction fs generalizing c names with
  | nil =>
    refine ⟨c.current.objects, rfl, ?_⟩
    rw [List.map_nil, List.append_nil]
    exact h
  | cons f fs ih =>
    obtain ⟨objects, hreserve, h₁⟩ := h.reserve f
    obtain ⟨objects', hrest, h₂⟩ := ih h₁
    refine ⟨objects', ?_, ?_⟩
    · rw [collect, hreserve]
      dsimp only
      rw [hrest]
      rfl
    · rw [List.append_assoc] at h₂
      exact h₂

/-- **A signature is registered unless it clashes** with one that is registered already. -/
theorem register_eq (h : c.Lists names signatures) (S : StructStore) (nothing : Ty)
    {f : Source.FunctionDef} {sig : Signature} (hname : f.name.text ∈ names)
    (hread : Signature.read S nothing c f = .ok sig) (hdef : sig.definition = f) :
    ∃ objects, Signature.register S nothing c f =
        (if sig.clashes S signatures then
          .error (.error (Signature.refused f (.overloadExists sig.overload.name (sig.type.text S))))
        else .ok (sig, c.withObjects objects)) ∧
      (c.withObjects objects).Lists names (signatures ++ [sig]) := by
  subst hdef
  have hobject := h sig.overload.name
  rw [if_pos (show sig.overload.name ∈ names from hname)] at hobject
  refine ⟨Scope.replace sig.overload.name
    (.function ⟨sig.overload.name,
      Signature.named signatures sig.overload.name ++ [sig.overload]⟩) c.current.objects, ?_, ?_⟩
  · -- attaching looks for a clash among the overloads of that name
    unfold Signature.register
    rw [hread]
    dsimp only
    unfold LookupContext.attach Scope.attach
    rw [hobject]
    show ((Outcome.ofInternal (Overload.anyWith S sig.parameters
      (Signature.named signatures sig.overload.name)) >>= _ >>= _ :
        Outcome RegistrationError LookupContext).mapError _ >>= _) = _
    rw [Signature.anyWith_named]
    cases sig.clashes S signatures <;> rfl
  · -- only the entry of that name is replaced
    intro name
    show (Scope.replace _ _ c.current.objects).lookup name = _
    rw [Scope.lookup_replace, show c.current.objects.lookup name = _ from h name,
      Signature.named_append]
    by_cases heq : name = sig.overload.name
    · subst heq
      have hmem : sig.overload.name ∈ names := hname
      simp [hmem]
    · have hne : ¬ sig.overload.name = name := fun h => heq h.symm
      rw [if_neg hne, List.append_nil]
      by_cases hmem : name ∈ names <;> simp [hmem, heq]

/-- A function of a reserved name is registered, or refused for what is wrong with it. -/
theorem register_cases (h : c.Lists names signatures) (S : StructStore) (nothing : Ty)
    {f : Source.FunctionDef} (hname : f.name.text ∈ names) :
    (∃ d, Signature.register S nothing c f = .error (.error d)) ∨
      ∃ sig objects, Signature.register S nothing c f = .ok (sig, c.withObjects objects) ∧
        Signature.read S nothing c f = .ok sig ∧ (∀ other ∈ signatures, other.Differ S sig) ∧
        (c.withObjects objects).Lists names (signatures ++ [sig]) := by
  cases hread : Signature.read S nothing c f with
  | error d =>
    refine .inl ⟨d, ?_⟩
    unfold Signature.register
    rw [hread]
  | ok sig =>
    obtain ⟨objects, heq, hlists⟩ :=
      h.register_eq S nothing hname hread (Signature.definition_of_read hread)
    cases hclash : sig.clashes S signatures with
    | true =>
      rw [hclash] at heq
      exact .inl ⟨_, heq⟩
    | false =>
      rw [hclash] at heq
      exact .inr ⟨sig, objects, heq, rfl, Signature.clashes_eq_false_iff.1 hclash, hlists⟩

/-- **What a run of registrations leaves behind**: signatures that differ from each other, each
read from one of the functions, and a scope that lists them. -/
theorem collect_register {S : StructStore} {nothing : Ty} {fs : List Source.FunctionDef}
    {sigs : List Signature} {errors : List Diagnostic} (h : c.Lists names [])
    (hnames : ∀ f ∈ fs, f.name.text ∈ names)
    (hrun : collect (Signature.register S nothing) c fs = .ok (sigs, errors, c')) :
    (∃ objects, c' = c.withObjects objects) ∧ c'.Lists names sigs ∧
      sigs.Pairwise (Signature.Differ S) ∧
      ∀ sig ∈ sigs, ∃ f ∈ fs, Signature.read S nothing c f = .ok sig := by
  refine collect_induction (I := fun sigs c' => (∃ objects, c' = c.withObjects objects) ∧
    c'.Lists names sigs ∧ sigs.Pairwise (Signature.Differ S) ∧
      ∀ sig ∈ sigs, ∃ f ∈ fs, Signature.read S nothing c f = .ok sig) hrun
    ⟨⟨c.current.objects, rfl⟩, h, .nil, fun sig hsig => absurd hsig List.not_mem_nil⟩ ?_
  rintro sigs _ f sig c'' hf ⟨⟨objects, rfl⟩, hlists, hdiffer, hread⟩ hstep
  rcases hlists.register_cases S nothing (hnames f hf) with
    ⟨d, herror⟩ | ⟨sig', objects', heq, hsig, hnew, hlists'⟩
  · rw [herror] at hstep
    cases hstep
  · rw [heq] at hstep
    cases hstep
    refine ⟨⟨objects', rfl⟩, hlists', ?_, ?_⟩
    · rw [List.pairwise_append]
      refine ⟨hdiffer, List.pairwise_singleton _ _, fun a ha b hb => ?_⟩
      rw [List.mem_singleton.1 hb]
      exact hnew a ha
    · rw [List.forall_mem_append, List.forall_mem_singleton]
      -- signatures are read from the types of a context, which registration leaves alone
      refine ⟨hread, f, hf, ?_⟩
      rw [read_congr (c.type?_withObjects objects)] at hsig
      exact hsig

end Lists

end LookupContext

/-! ### Structs by name -/

namespace DeclaredStruct

/-- The entry of a struct in a scope. -/
def entry (d : DeclaredStruct) : String × Ty := (d.definition.name.text, d.type)

theorem declare_ok {S S' : StructStore} {c c' : LookupContext} {definition : Source.StructDef}
    {d : DeclaredStruct} (h : declare (S, c) definition = .ok (d, S', c')) :
    d = ⟨definition, .struct .none S.size⟩ ∧ S' = (S.declare (some definition.name.text)).1 ∧
      c.current.type? definition.name.text = none ∧
      c' = { c with current := { c.current with types := c.current.types ++ [d.entry] } } := by
  obtain ⟨context, hcontext, h⟩ := Outcome.bind_ok h
  cases h
  obtain ⟨scope, hscope, ⟨-, rfl⟩ | ⟨cookie, hcookie, -⟩⟩ :=
    LookupContext.addType_ok (Outcome.mapError_ok hcontext)
  · obtain ⟨hnone, rfl⟩ := Scope.addType_ok hscope
    exact ⟨rfl, rfl, hnone, rfl⟩
  · cases hcookie

/-- **The types of a module's scope are its structs**, in the order of declaration. -/
theorem types_collect_declare {defs : List Source.StructDef} {S S' : StructStore}
    {c c' : LookupContext} {ds : List DeclaredStruct} {errors : List Diagnostic}
    (h : collect declare (S, c) defs = .ok (ds, errors, S', c')) :
    c'.current.types = c.current.types ++ ds.map entry ∧
      c'.current.objects = c.current.objects := by
  refine collect_induction (I := fun ds s => s.2.current.types = c.current.types ++ ds.map entry ∧
    s.2.current.objects = c.current.objects) h ⟨by simp, rfl⟩ ?_
  rintro ds ⟨S₁, c₁⟩ definition d ⟨S₂, c₂⟩ - ⟨htypes, hobjects⟩ hd
  obtain ⟨-, -, -, rfl⟩ := declare_ok hd
  refine ⟨?_, hobjects⟩
  show c₁.current.types ++ [d.entry] = _
  rw [htypes, List.map_append, List.append_assoc]
  rfl

end DeclaredStruct

theorem Source.Module.objects_of_declareStructs {m : Source.Module} {S S' : StructStore}
    {c c' : LookupContext} {ds : List DeclaredStruct} {errors : List Diagnostic}
    (h : m.declareStructs S c = .ok (ds, errors, S', c')) :
    c'.current.objects = c.current.objects := by
  obtain ⟨refused, S₁, blamed, hcollect, -, -⟩ := m.exists_of_declareStructs h
  exact (DeclaredStruct.types_collect_declare hcollect).2

/-! ### Analyses without errors -/

/-- Each item of a chain of steps is related to its result. -/
theorem Collected.forall₂ {σ α β : Type} {step : σ → α → Outcome Diagnostic (β × σ)}
    {R : α → β → Prop} {s t : σ} {as : List α} {bs : List β} (h : Collected step s as bs t)
    (hR : ∀ s a b s', step s a = .ok (b, s') → R a b) : List.Forall₂ R as bs := by
  induction h with
  | nil => exact .nil
  | cons hstep _ ih => exact .cons (hR _ _ _ _ hstep) ih

/-- **The parts of an analysis without errors.** -/
theorem Session.analyze_ok {s s' : Session} {options : Options} {m : Source.Module}
    {typed : TypedModule} (h : s.analyze options m = .ok (.ok typed, s')) :
    ∃ (declared : List DeclaredStruct) (c₁ : LookupContext) (signatures : List Signature)
      (c₂ : LookupContext),
      m.declareStructs s.structs s.builtins.moduleContext = .ok (declared, [], s'.structs, c₁) ∧
      m.registerFunctions s'.structs s.builtins.types.voidTy c₁ = .ok (signatures, [], c₂) ∧
      collect (fun fresh (f : Signature) => f.analyze ⟨s'.structs, s.builtins.types, options, "",
        s.builtins.types.voidTy, c₂⟩ fresh) s.fresh signatures =
          .ok (typed.functions, [], s'.fresh) ∧
      typed.structs = declared.map (·.typed) := by
  unfold analyze at h
  obtain ⟨⟨declared, structErrors, structs, c₁⟩, hstructs, h⟩ := Outcome.bind_ok h
  obtain ⟨⟨signatures, functionErrors, c₂⟩, hfunctions, h⟩ := Outcome.bind_ok h
  obtain ⟨⟨functions, bodyErrors, fresh⟩, hbodies, h⟩ := Outcome.bind_ok h
  dsimp only at h
  split at h
  · -- without diagnostics, no stage has any
    rename_i hnone
    cases h
    obtain ⟨hearlier, rfl⟩ := List.append_eq_nil_iff.1 hnone
    obtain ⟨rfl, rfl⟩ := List.append_eq_nil_iff.1 hearlier
    exact ⟨declared, c₁, signatures, c₂, hstructs, hfunctions, hbodies, rfl⟩
  · cases h

/-- **The structs of a module without errors** are declared one after another and then defined. -/
theorem Source.Module.declareStructs_ok {m : Source.Module} {S S' : StructStore}
    {c c' : LookupContext} {declared : List DeclaredStruct}
    (h : m.declareStructs S c = .ok (declared, [], S', c')) :
    ∃ S₁, collect DeclaredStruct.declare (S, c) m.structs = .ok (declared, [], S₁, c') ∧
      DeclaredStruct.defineAll c' S₁ declared = .ok (S', []) := by
  obtain ⟨refused, S₁, blamed, hcollect, hdefine, hnone⟩ := m.exists_of_declareStructs h
  obtain ⟨rfl, rfl⟩ := List.append_eq_nil_iff.1 hnone.symm
  exact ⟨S₁, hcollect, hdefine⟩

/-- **The functions of a module without errors** are reserved and registered in the scope that its
structs made. -/
theorem Source.Module.registerFunctions_ok {m : Source.Module} {S : StructStore} {nothing : Ty}
    {c c' : LookupContext} {signatures : List Signature} (hc : c.current.objects = [])
    (h : m.registerFunctions S nothing c = .ok (signatures, [], c')) :
    ∃ objects, (c.withObjects objects).Lists (m.functions.map (·.name.text)) [] ∧
      collect (Signature.register S nothing) (c.withObjects objects) m.functions =
        .ok (signatures, [], c') := by
  obtain ⟨objects, hreserve, hlists⟩ := (LookupContext.Lists.of_nil hc).collect_reserve m.functions
  unfold registerFunctions at h
  rw [hreserve] at h
  obtain ⟨⟨signatures₁, errors, c₁⟩, hregister, h⟩ := Outcome.bind_ok (x := collect _ _ _) h
  cases h
  exact ⟨objects, hlists, hregister⟩

end RangeTyping
