import Mathlib
import RangeTyping.Proofs.Builtins

/-!
# The conversions of a module's contexts

Conversions are registered with the builtins and nowhere else.  So in every context that a module
comes to work in (`LookupContext.Derived`) the scopes have empty tables, except for the outermost
one, which has the table of the builtins (`LookupContext.Derived.sole`).
-/

namespace RangeTyping

/-! ### Graphs with the builtin conversions -/

/-- The graph has the conversions of the builtins, once, and decay. -/
structure BuiltinTypes.Sole (types : BuiltinTypes) (G : CastGraph) : Prop where
  decays : G.decays = true
  tables : ∃ n, G.tables = List.replicate n [] ++ [types.casts]

namespace BuiltinTypes.Sole

variable {types : BuiltinTypes} {G : CastGraph}

/-- **All conversions that end at a type** are those of the builtin table and the decays. -/
theorem castsTo_eq (h : types.Sole G) (S : StructStore) (t : Ty) :
    G.castsTo S t =
      CastTable.find S t types.casts ++ (if t.flags.isEmpty then Cast.decays t else []) := by
  obtain ⟨n, hn⟩ := h.tables
  have hempty : ∀ n, (List.replicate n ([] : CastTable)).flatMap (CastTable.find S t) = [] := by
    intro n
    induction n with
    | zero => rfl
    | succ n ih => rw [List.replicate_succ, List.flatMap_cons, ih]; rfl
  rw [CastGraph.castsTo, hn, List.flatMap_append, hempty, List.nil_append, List.flatMap_singleton,
    h.decays, Bool.true_and]

/-- A scope without conversions changes nothing. -/
theorem cons (h : types.Sole G) : types.Sole ⟨[] :: G.tables, G.decays⟩ := by
  obtain ⟨n, hn⟩ := h.tables
  exact ⟨h.decays, n + 1, by rw [hn]; rfl⟩

end BuiltinTypes.Sole

/-! ### Contexts -/

namespace LookupContext

variable {cookie : Registration → Nat} {c c' : LookupContext}

/-- **A context derived from the builtins**: that of a new module, or one that comes of another by
opening and closing scopes and by registering types, variables and functions. -/
inductive Derived (cookie : Registration → Nat) : LookupContext → Prop where
  | moduleContext : Derived cookie (Builtins.prepare cookie).moduleContext
  | deriveModule {c : LookupContext} (h : Derived cookie c) : Derived cookie c.deriveModule
  | push {c : LookupContext} (h : Derived cookie c) : Derived cookie c.push
  | pop {c c' : LookupContext} (h : Derived cookie c) (hc : c.pop = .ok c') : Derived cookie c'
  | addType {c c' : LookupContext} {name : String} {type : Ty} (h : Derived cookie c)
      (hc : c.addType name type = .ok c') : Derived cookie c'
  | sealTypeIds {c : LookupContext} (h : Derived cookie c) : Derived cookie c.sealTypeIds
  | addVariable {c c' : LookupContext} {v : Variable} (h : Derived cookie c)
      (hc : c.addVariable v = .ok c') : Derived cookie c'
  | reserve {c c' : LookupContext} {name : String} (h : Derived cookie c)
      (hc : c.reserve name = .ok c') : Derived cookie c'
  | attach {c c' : LookupContext} {S : StructStore} {o : Overload} (h : Derived cookie c)
      (hc : c.attach S o = .ok c') : Derived cookie c'

/-- Registering in the innermost scope leaves the conversions alone if the scope's stay the same. -/
theorem castGraph_congr (houter : c'.outer = c.outer) (hcasts : c'.current.casts = c.current.casts) :
    c'.castGraph = c.castGraph := by
  simp only [castGraph, scopes, List.map_cons, houter, hcasts]

theorem castGraph_of_addType {name : String} {type : Ty} (h : c.addType name type = .ok c') :
    c'.castGraph = c.castGraph := by
  obtain ⟨scope, hscope, hc⟩ := addType_ok h
  obtain ⟨-, rfl⟩ := Scope.addType_ok hscope
  rcases hc with ⟨-, rfl⟩ | ⟨cookie, -, rfl⟩
  · exact castGraph_congr rfl rfl
  · exact castGraph_congr rfl rfl

theorem castGraph_of_addVariable {v : Variable} (h : c.addVariable v = .ok c') :
    c'.castGraph = c.castGraph := by
  obtain ⟨scope, hscope, hc⟩ := Outcome.bind_ok h
  cases hc
  obtain ⟨-, rfl⟩ := Scope.addVariable_ok hscope
  exact castGraph_congr rfl rfl

theorem castGraph_of_reserve {name : String} (h : c.reserve name = .ok c') :
    c'.castGraph = c.castGraph := by
  obtain ⟨scope, hscope, hc⟩ := Outcome.bind_ok h
  cases hc
  rcases Scope.reserve_ok hscope with ⟨f, -, rfl⟩ | ⟨-, rfl⟩
  · exact castGraph_congr rfl rfl
  · exact castGraph_congr rfl rfl

theorem castGraph_of_attach {S : StructStore} {o : Overload} (h : c.attach S o = .ok c') :
    c'.castGraph = c.castGraph := by
  obtain ⟨scope, hscope, hc⟩ := Outcome.bind_ok h
  cases hc
  obtain ⟨f, -, rfl⟩ := Scope.attach_ok hscope
  exact castGraph_congr rfl rfl

/-- **A derived context has the conversions of the builtins and no others.** -/
theorem Derived.sole (h : c.Derived cookie) : (BuiltinTypes.ofBackend cookie).Sole c.castGraph := by
  induction h with
  | moduleContext => exact ⟨rfl, 1, rfl⟩
  | @deriveModule c h ih =>
    -- the outermost scope is the one with the builtin table
    obtain ⟨n, hn⟩ := ih.tables
    refine ⟨rfl, 1, ?_⟩
    have hroot : c.rootScope.casts = (BuiltinTypes.ofBackend cookie).casts := by
      have hlast := congrArg List.getLast? hn
      rw [List.getLast?_concat] at hlast
      simp only [castGraph, scopes, List.getLast?_map, List.getLast?_cons, Option.map_some,
        Option.some.injEq] at hlast
      rw [rootScope, hlast]
    show [[], c.rootScope.casts] = _
    rw [hroot]
    rfl
  | push h ih => exact ih.cons
  | @pop c c' h hc ih =>
    unfold LookupContext.pop at hc
    split at hc
    · cases hc
    · rename_i scope rest houter
      cases hc
      obtain ⟨n, hn⟩ := ih.tables
      refine ⟨rfl, n - 1, ?_⟩
      have htail := congrArg List.tail hn
      simp only [castGraph, scopes, List.map_cons, List.tail_cons, houter] at htail
      show scope.casts :: rest.map (·.casts) = _
      rw [htail]
      cases n with
      | zero => simp at hn; simp [castGraph, scopes, houter] at hn
      | succ n => rfl
  | addType h hc ih => exact castGraph_of_addType hc ▸ ih
  | sealTypeIds h ih => exact ih
  | addVariable h hc ih => exact castGraph_of_addVariable hc ▸ ih
  | reserve h hc ih => exact castGraph_of_reserve hc ▸ ih
  | attach h hc ih => exact castGraph_of_attach hc ▸ ih

end LookupContext

end RangeTyping
