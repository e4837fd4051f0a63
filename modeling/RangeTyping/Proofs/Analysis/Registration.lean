import Mathlib
import RangeTyping.Session
import RangeTyping.Proofs.Analysis.Surroundings

/-!
# What a module registers

Before any body is analysed, a module registers its structs and its functions.  The context that
comes of it (`LookupContext.Registered`) has a scope of the module right inside the builtin one: its
types are the structs of the module, under different names, and its objects are the functions of the
module.  This holds also when some definitions were refused.

Such a context makes a setting (`LookupContext.Registered.setting`), and bodies are analysed in
proper surroundings of that setting (`LookupContext.Registered.proper`).
-/

namespace RangeTyping

/-! ### Names of structs -/

namespace StructStore

variable {S S' : StructStore} {i j : StructId}

theorem lt_size_of_name? {name : String} (h : S.name? i = some name) : i < S.size := by
  by_contra hlt
  have hnone : S.bodies[i]? = none := Array.getElem?_eq_none (by simpa [size] using hlt)
  rw [name?, hnone] at h
  cases h

theorem name?_declare_of_lt (name : Option String) (h : i < S.size) :
    (S.declare name).1.name? i = S.name? i := by
  have hne : i ≠ S.bodies.size := Nat.ne_of_lt h
  simp [declare, name?, Array.getElem?_push, hne]

theorem name?_declare_size (name : Option String) : (S.declare name).1.name? S.size = name := by
  simp [declare, name?, size]

/-- A layout does not change the name of a struct. -/
theorem name?_setLayout (layout : Layout) : (S.setLayout i layout).name? j = S.name? j := by
  simp only [setLayout, name?, Array.getElem?_modify]
  split
  · cases S.bodies[j]? <;> rfl
  · rfl

end StructStore

namespace DeclaredStruct

variable {c : LookupContext} {S F : StructStore} {pending : List DeclaredStruct}
  {errors : List Diagnostic} {j : StructId}

theorem name?_round {r : Round} (h : round c S pending = .ok r) :
    r.structs.name? j = S.name? j := by
  induction pending generalizing S r with
  | nil =>
    cases h
    rfl
  | cons d rest ih =>
    obtain ⟨attempt, T, r', hdefine, hround, rfl⟩ := round_cons_ok h
    have hname : T.name? j = S.name? j := by
      rcases define_ok hdefine with ⟨-, i, ms, l, -, -, -, -, rfl⟩ | ⟨-, rfl⟩
      · exact StructStore.name?_setLayout l
      · rfl
    cases attempt <;> exact (ih hround).trans hname

/-- **Defining structs does not rename any.** -/
theorem name?_defineAll (h : defineAll c S pending = .ok (F, errors)) :
    F.name? j = S.name? j :=
  defineAll_induction (P := fun S _ F _ => F.name? j = S.name? j)
    (fun hround _ _ ih => ih.trans (name?_round hround)) (fun hround _ => name?_round hround) h

end DeclaredStruct

/-! ### The context of a module -/

/-- The structs in the innermost scope. -/
def LookupContext.Declares (c : LookupContext) (i : StructId) : Prop :=
  ∃ name, (name, Ty.struct .none i) ∈ c.current.types

/-- **The context of a module** whose structs are in the store `S` and whose functions have the
given signatures. -/
structure LookupContext.Registered (cookie : Registration → Nat) (S : StructStore)
    (signatures : List Signature) (c : LookupContext) : Prop where
  outer : c.outer = [(Builtins.prepare cookie).root.current]
  casts : c.current.casts = []
  names : (c.current.types.map (·.1)).Nodup
  structs : ∀ name t, (name, t) ∈ c.current.types →
    ∃ i, t = .struct .none i ∧ S.name? i = some name
  functions : ∀ name object, (name, object) ∈ c.current.objects →
    ∃ f, object = .function f ∧ ∀ o ∈ f.overloads, ∃ sig ∈ signatures, o = sig.overload
  plain : ∀ sig ∈ signatures, (∀ t ∈ sig.parameters, t.PlainIn (.ofBackend cookie) c.Declares) ∧
    sig.result.PlainIn (.ofBackend cookie) c.Declares
  arity : ∀ sig ∈ signatures, sig.definition.arguments.length = sig.parameters.length

namespace LookupContext.Registered

variable {cookie : Registration → Nat} {S : StructStore} {signatures : List Signature}
  {c : LookupContext}

theorem moduleContext (cookie : Registration → Nat) (S : StructStore) :
    (Builtins.prepare cookie).moduleContext.Registered cookie S [] where
  outer := rfl
  casts := rfl
  names := List.nodup_nil
  structs _ _ h := absurd h List.not_mem_nil
  functions _ _ h := absurd h List.not_mem_nil
  plain _ h := absurd h List.not_mem_nil
  arity _ h := absurd h List.not_mem_nil

/-- Structs of different numbers have different names. -/
theorem name_inj (h : c.Registered cookie S signatures) (i j : StructId) (hi : c.Declares i)
    (hj : c.Declares j) (hname : S.name? i = S.name? j) : i = j := by
  obtain ⟨m, hm⟩ := hi
  obtain ⟨n, hn⟩ := hj
  obtain ⟨i', hi', hmi⟩ := h.structs m _ hm
  obtain ⟨j', hj', hnj⟩ := h.structs n _ hn
  cases hi'
  cases hj'
  have hmn : m = n := by
    rw [hmi, hnj] at hname
    exact Option.some.inj hname
  subst hmn
  exact Ty.struct.inj (Prod.mk.inj (List.inj_on_of_nodup_map h.names hm hn rfl)).2 |>.2

/-- **The setting of a module.** -/
def setting (h : c.Registered cookie S signatures) : Setting where
  cookie := cookie
  structs := S
  declared := c.Declares
  callable f as r := ∃ sig ∈ signatures, sig.symbol = f ∧ sig.parameters = as ∧ sig.result = r
  returnType := (BuiltinTypes.ofBackend cookie).voidTy
  name_inj := h.name_inj
  plain_of_callable := by
    rintro _ _ _ ⟨sig, hsig, rfl, rfl, rfl⟩
    exact h.plain sig hsig
  returnType_plain := ⟨BuiltinTypes.void_mem_all, rfl⟩

/-- The builtin scope belongs to every setting. -/
theorem proper_root (X : Setting) (vs : List Variable) :
    (Builtins.prepare X.cookie).root.current.Proper X vs where
  types name t ht := by
    obtain ⟨s, hs, heq⟩ := List.mem_map.1 ht
    cases heq
    exact Setting.plain_ofScalar hs
  mem_scope name v hv := by
    obtain ⟨f, -, heq⟩ := List.mem_map.1 hv
    cases heq
  overloads name f hf := by
    obtain ⟨g, hg, heq⟩ := List.mem_map.1 hf
    cases heq
    exact fun o ho => Setting.offers_of_operators hg ho
  casts := .inr rfl

/-- Both scopes of the context belong to the setting. -/
theorem scopes (h : c.Registered cookie S signatures) :
    ∀ scope ∈ c.scopes, scope.Proper h.setting [] := by
  intro scope hscope
  rcases List.mem_cons.1 hscope with rfl | hscope
  · refine ⟨?_, ?_, ?_, .inl h.casts⟩
    · intro name t ht
      obtain ⟨i, rfl, -⟩ := h.structs name t ht
      exact ⟨⟨name, ht⟩, rfl⟩
    · intro name v hv
      obtain ⟨f, hf, -⟩ := h.functions name _ hv
      cases hf
    · intro name f hf o ho
      obtain ⟨g, hg, hoverloads⟩ := h.functions name _ hf
      cases hg
      obtain ⟨sig, hsig, rfl⟩ := hoverloads o ho
      exact ⟨_, _, rfl, sig, hsig, rfl, rfl, rfl⟩
  · rw [h.outer, List.mem_singleton] at hscope
    subst hscope
    exact proper_root h.setting []

/-- **Bodies are analysed in proper surroundings**, where no variable is in scope yet. -/
theorem proper (h : c.Registered cookie S signatures) (options : Options) (function : String)
    {fresh : Fresh} (hpos : 0 < fresh.nextValue) :
    Env.Proper h.setting [] fresh
      ⟨S, .ofBackend cookie, options, function, (BuiltinTypes.ofBackend cookie).voidTy, c⟩ where
  types := rfl
  structs := rfl
  returnType := rfl
  scopes := h.scopes
  sole := ⟨rfl, 1, by simp [LookupContext.castGraph, LookupContext.scopes, h.outer, h.casts]; rfl⟩
  declares _ hv := absurd hv List.not_mem_nil
  drawn _ hv := absurd hv List.not_mem_nil
  positive := hpos

/-! ### Structs -/

/-- One declaration keeps the context registered. -/
theorem declare {S' : StructStore} {c' : LookupContext} {definition : Source.StructDef}
    {d : DeclaredStruct} (h : c.Registered cookie S [])
    (hd : DeclaredStruct.declare (S, c) definition = .ok (d, S', c')) :
    c'.Registered cookie S' [] := by
  obtain ⟨context, hcontext, hd⟩ := Outcome.bind_ok hd
  cases hd
  obtain ⟨scope, hscope, ⟨-, rfl⟩ | ⟨cookie, hcookie, -⟩⟩ :=
    LookupContext.addType_ok (Outcome.mapError_ok hcontext)
  swap
  · cases hcookie
  obtain ⟨hnone, rfl⟩ := Scope.addType_ok hscope
  -- the scope accepts the name, so it was free
  have hnew : definition.name.text ∉ c.current.types.map (·.1) := by
    intro hmem
    obtain ⟨⟨name, t⟩, hpair, hname⟩ := List.mem_map.1 hmem
    have hlookup := List.lookup_eq_none_iff.1 hnone (name, t) hpair
    simp [show name = definition.name.text from hname] at hlookup
  refine ⟨h.outer, h.casts, ?_, ?_, h.functions, fun sig hsig => absurd hsig List.not_mem_nil,
    h.arity⟩
  · rw [List.map_append, List.nodup_append]
    refine ⟨h.names, List.nodup_singleton _, ?_⟩
    rintro a ha b hb rfl
    rw [List.mem_singleton.1 hb] at ha
    exact hnew ha
  · -- structs of the scope keep their names in the store, and the new one has its own
    intro name t ht
    rcases List.mem_append.1 ht with ht | ht
    · obtain ⟨i, rfl, hi⟩ := h.structs name t ht
      have hlt := StructStore.lt_size_of_name? hi
      exact ⟨i, rfl, (StructStore.name?_declare_of_lt _ hlt).trans hi⟩
    · cases List.mem_singleton.1 ht
      exact ⟨_, rfl, StructStore.name?_declare_size _⟩

/-- Declarations one after another keep the context registered. -/
theorem collect_declare {S' : StructStore} {c' : LookupContext} {defs : List Source.StructDef}
    {declared : List DeclaredStruct} {diagnostics : List Diagnostic}
    (h : c.Registered cookie S [])
    (hcollect : collect DeclaredStruct.declare (S, c) defs = .ok (declared, diagnostics, S', c')) :
    c'.Registered cookie S' [] :=
  collect_induction (I := fun _ s => s.2.Registered cookie s.1 []) hcollect h
    fun _ _ _ _ _ _ hs hd => hs.declare hd

/-- **Declaring and defining structs** gives the context of a module without functions. -/
theorem declareStructs {m : Source.Module} {S' : StructStore} {c' : LookupContext}
    {declared : List DeclaredStruct} {diagnostics : List Diagnostic}
    (h : c.Registered cookie S [])
    (hm : m.declareStructs S c = .ok (declared, diagnostics, S', c')) :
    c'.Registered cookie S' [] := by
  obtain ⟨refused, S₁, blamed, hcollect, hdefine, -⟩ := m.exists_of_declareStructs hm
  have hdeclared := h.collect_declare hcollect
  refine ⟨hdeclared.outer, hdeclared.casts, hdeclared.names, ?_, hdeclared.functions,
    hdeclared.plain, hdeclared.arity⟩
  intro name t ht
  obtain ⟨i, rfl, hi⟩ := hdeclared.structs name t ht
  exact ⟨i, rfl, (DeclaredStruct.name?_defineAll hdefine).trans hi⟩

/-! ### Functions -/

/-- Reserving a name keeps the context registered. -/
theorem reserve {c' : LookupContext} {f g : Source.FunctionDef}
    (h : c.Registered cookie S signatures) (hf : Signature.reserve c f = .ok (g, c')) :
    c'.Registered cookie S signatures := by
  obtain ⟨-, hcontext⟩ := Signature.reserve_ok hf
  obtain ⟨scope, hscope, hcontext⟩ := Outcome.bind_ok hcontext
  cases hcontext
  rcases Scope.reserve_ok hscope with ⟨f', -, rfl⟩ | ⟨-, rfl⟩
  · exact h
  · refine ⟨h.outer, h.casts, h.names, h.structs, ?_, h.plain, h.arity⟩
    intro name object hobject
    rcases List.mem_append.1 hobject with hobject | hobject
    · exact h.functions name object hobject
    · cases List.mem_singleton.1 hobject
      exact ⟨_, rfl, fun o ho => absurd ho List.not_mem_nil⟩

/-- Types that are written are read as plain ones, one for each. -/
theorem plain_of_types {written : List Source.TypeExpr} {ts : List Ty}
    (h : c.Registered cookie S signatures) (hts : Signature.types c written = .ok ts) :
    (∀ t ∈ ts, t.PlainIn (.ofBackend cookie) c.Declares) ∧ written.length = ts.length := by
  induction written generalizing ts with
  | nil =>
    cases hts
    exact ⟨fun t ht => absurd ht List.not_mem_nil, rfl⟩
  | cons w ws ih =>
    obtain ⟨u, hu, hts⟩ := Outcome.bind_ok hts
    obtain ⟨rest, hrest, hts⟩ := Outcome.bind_ok hts
    cases hts
    obtain ⟨hplain, hlen⟩ := ih hrest
    refine ⟨?_, congrArg Nat.succ hlen⟩
    rw [List.forall_mem_cons]
    exact ⟨LookupContext.plain_of_resolveType h.scopes hu, hplain⟩

/-- The types of a signature are plain, and it has one for each argument. -/
theorem plain_of_read {nothing : Ty} {f : Source.FunctionDef} {sig : Signature}
    (h : c.Registered cookie S signatures) (hn : nothing = (BuiltinTypes.ofBackend cookie).voidTy)
    (hs : Signature.read S nothing c f = .ok sig) :
    ((∀ t ∈ sig.parameters, t.PlainIn (.ofBackend cookie) c.Declares) ∧
      sig.result.PlainIn (.ofBackend cookie) c.Declares) ∧
      sig.definition.arguments.length = sig.parameters.length := by
  obtain ⟨parameters, result, hparameters, hresult, rfl⟩ := Signature.read_ok hs
  obtain ⟨hplain, hlen⟩ := h.plain_of_types hparameters
  rw [List.length_map] at hlen
  rcases hresult with ⟨-, rfl⟩ | ⟨written, -, hresult⟩
  · rw [hn]
    exact ⟨⟨hplain, BuiltinTypes.void_mem_all, rfl⟩, hlen⟩
  · exact ⟨⟨hplain, LookupContext.plain_of_resolveType h.scopes hresult⟩, hlen⟩

/-- Registering a signature adds it to those of the context. -/
theorem register {c' : LookupContext} {nothing : Ty} {f : Source.FunctionDef} {sig : Signature}
    (h : c.Registered cookie S signatures) (hn : nothing = (BuiltinTypes.ofBackend cookie).voidTy)
    (hs : Signature.register S nothing c f = .ok (sig, c')) :
    c'.Registered cookie S (signatures ++ [sig]) := by
  obtain ⟨hread, hattach⟩ := Signature.register_ok hs
  obtain ⟨scope, hscope, hcontext⟩ := Outcome.bind_ok hattach
  cases hcontext
  obtain ⟨g, hg, rfl⟩ := Scope.attach_ok hscope
  have hold : ∀ o ∈ g.overloads, ∃ sig' ∈ signatures, o = sig'.overload := by
    obtain ⟨f', hf', hoverloads⟩ := h.functions _ _ (mem_of_lookup hg)
    cases hf'
    exact hoverloads
  refine ⟨h.outer, h.casts, h.names, h.structs, ?_, ?_, ?_⟩
  · -- only the object of that name changes, and it gets one more overload
    intro name object hobject
    obtain ⟨⟨n, o⟩, hno, heq⟩ := List.mem_map.1 hobject
    cases heq
    by_cases hname : (name == sig.overload.name) = true
    · rw [if_pos hname]
      refine ⟨_, rfl, fun o ho => ?_⟩
      rcases List.mem_append.1 ho with ho | ho
      · obtain ⟨sig', hsig', rfl⟩ := hold o ho
        exact ⟨sig', List.mem_append_left _ hsig', rfl⟩
      · rw [List.mem_singleton.1 ho]
        exact ⟨sig, List.mem_append_right _ (List.mem_singleton.2 rfl), rfl⟩
    · rw [if_neg hname]
      obtain ⟨f', rfl, hoverloads⟩ := h.functions name o hno
      refine ⟨f', rfl, fun o ho => ?_⟩
      obtain ⟨sig', hsig', rfl⟩ := hoverloads o ho
      exact ⟨sig', List.mem_append_left _ hsig', rfl⟩
  · rw [List.forall_mem_append, List.forall_mem_singleton]
    exact ⟨h.plain, (h.plain_of_read hn hread).1⟩
  · rw [List.forall_mem_append, List.forall_mem_singleton]
    exact ⟨h.arity, (h.plain_of_read hn hread).2⟩

/-- **Registering functions** gives the context of a module. -/
theorem registerFunctions {m : Source.Module} {c' : LookupContext} {nothing : Ty}
    {diagnostics : List Diagnostic} (h : c.Registered cookie S [])
    (hn : nothing = (BuiltinTypes.ofBackend cookie).voidTy)
    (hm : m.registerFunctions S nothing c = .ok (signatures, diagnostics, c')) :
    c'.Registered cookie S signatures := by
  obtain ⟨⟨reserved, refused, c₁⟩, hreserve, hm⟩ := Outcome.bind_ok hm
  obtain ⟨⟨signatures₁, diagnostics₁, c₂⟩, hregister, hm⟩ := Outcome.bind_ok hm
  cases hm
  have hreserved : c₁.Registered cookie S [] :=
    collect_induction (I := fun _ c => c.Registered cookie S []) hreserve h
      fun _ _ _ _ _ _ hc hf => hc.reserve hf
  exact collect_induction (I := fun sigs c => c.Registered cookie S sigs) hregister hreserved
    fun _ _ _ _ _ _ hc hs => hc.register hn hs

end LookupContext.Registered

end RangeTyping
