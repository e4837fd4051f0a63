import Mathlib
import RangeTyping.Analysis.Overload
import RangeTyping.Proofs.Cast.Context
import RangeTyping.Proofs.Tree.Rules
import RangeTyping.Proofs.Stream.Basic

/-!
# Surroundings of an analysis

An expression is analysed in surroundings that grow with every definition.  `Env.Proper` ties them
to a setting and to the variables in scope: whatever can be looked up is a plain type, one of the
variables, or an overload that the setting offers (`Setting.Offers`), and every identity in use was
drawn before.  Entering a block keeps this (`Env.Proper.enter`), and so does declaring a variable
(`Env.Proper.declare`), which is then in scope as well.
-/

namespace RangeTyping

/-! ### Overloads -/

namespace Setting

variable {X : Setting}

/-- The overload is a function of the module or a builtin operator on scalars it accepts. -/
def Offers (X : Setting) (o : Overload) : Prop :=
  match o.kind with
  | .user symbol => ∃ as r, o.type = .arrow as r ∧ X.callable symbol as r
  | .builtin (.binary op) => ∃ s, op.Accepts X.types s ∧
      o.type = .arrow [.ofScalar s, .ofScalar s] (.ofScalar (op.resultScalar X.types s))
  | .builtin .logicalNot => o.type = .arrow [X.types.boolTy] X.types.boolTy

/-- An arithmetic operator has the type of its operands. -/
theorem offers_arithmetic {name : String} {op : BinaryOperation} {s : Scalar}
    (hs : s ∈ X.types.integers) (hg : ∀ g, op.signedness? = some g → s.signedness = g)
    (hop : op.comparison? = none) : X.Offers (.ofOperator name (.binary op) 2 s s) := by
  refine ⟨s, .inl ⟨hs, hg⟩, ?_⟩
  simp [BinaryOperation.resultScalar, hop, Overload.ofOperator]

/-- A comparison has the type of the truth values. -/
theorem offers_comparison {name : String} {op : BinaryOperation} {s : Scalar}
    (hs : op.Accepts X.types s) (hop : op.comparison?.isSome = true) :
    X.Offers (.ofOperator name (.binary op) 2 s X.types.bool) := by
  refine ⟨s, hs, ?_⟩
  simp [BinaryOperation.resultScalar, hop, Overload.ofOperator]

/-- Equality accepts integers and truth values. -/
theorem accepts_of_signedness_none {op : BinaryOperation} {s : Scalar} (hop : op.signedness? = none)
    (hs : s ∈ X.types.integers ++ [X.types.bool]) : op.Accepts X.types s := by
  rcases List.mem_append.1 hs with hs | hs
  · refine .inl ⟨hs, fun g hg => ?_⟩
    rw [hop] at hg
    cases hg
  · exact .inr ⟨List.mem_singleton.1 hs, hop⟩

/-- An operation with the signedness of an integer accepts it. -/
theorem accepts_of_signedness (op : Signedness → BinaryOperation) {s : Scalar}
    (hop : ∀ g, (op g).signedness? = some g) (hs : s ∈ X.types.integers) :
    (op s.signedness).Accepts X.types s := by
  refine .inl ⟨hs, fun g hg => ?_⟩
  rw [hop] at hg
  exact Option.some.inj hg

/-- **The setting offers all builtin operators.** -/
theorem offers_of_operators {f : OverloadSet} (hf : f ∈ X.types.operators) {o : Overload}
    (ho : o ∈ f.overloads) : X.Offers o := by
  simp only [BuiltinTypes.operators, List.mem_cons, List.not_mem_nil, or_false] at hf
  rcases hf with rfl | rfl | rfl | rfl | rfl | rfl | rfl | rfl | rfl | rfl | rfl
  case inl | inr.inl | inr.inr.inl =>
    obtain ⟨s, hs, hso⟩ := List.mem_filterMap.1 ho
    cases hso
    exact offers_arithmetic hs (fun g hg => Option.some.inj hg) rfl
  case inr.inr.inr.inl =>
    -- division is there for the unsigned integers only
    obtain ⟨s, hs, hso⟩ := List.mem_filterMap.1 ho
    by_cases hu : s.signedness = .unsigned
    · rw [if_pos hu] at hso
      cases hso
      exact offers_arithmetic hs (fun g hg => hu.trans (Option.some.inj hg)) rfl
    · rw [if_neg hu] at hso
      cases hso
  case inr.inr.inr.inr.inr.inr.inr.inr.inl | inr.inr.inr.inr.inr.inr.inr.inr.inr.inl =>
    obtain ⟨s, hs, rfl⟩ := List.mem_map.1 ho
    exact offers_comparison (accepts_of_signedness_none rfl hs) rfl
  case inr.inr.inr.inr.inr.inr.inr.inr.inr.inr =>
    cases List.mem_singleton.1 ho
    rfl
  all_goals
    obtain ⟨s, hs, rfl⟩ := List.mem_map.1 ho
    refine offers_comparison ?_ rfl
  · exact accepts_of_signedness .lessThan (fun _ => rfl) hs
  · exact accepts_of_signedness .lessThanOrEqual (fun _ => rfl) hs
  · exact accepts_of_signedness .greaterThan (fun _ => rfl) hs
  · exact accepts_of_signedness .greaterThanOrEqual (fun _ => rfl) hs

end Setting

/-! ### Scopes -/

/-- What a scope holds belongs to the setting, and its variables are among `vs`. -/
structure Scope.Proper (X : Setting) (vs : List Variable) (s : Scope) : Prop where
  types : ∀ name t, (name, t) ∈ s.types → X.Plain t
  mem_scope : ∀ name v, (name, Object.variable v) ∈ s.objects → v ∈ vs
  overloads : ∀ name f, (name, Object.function f) ∈ s.objects → ∀ o ∈ f.overloads, X.Offers o
  casts : s.casts = [] ∨ s.casts = X.types.casts

/-- What is found in a list of pairs is in it. -/
theorem mem_of_lookup {β : Type} {name : String} {b : β} {l : List (String × β)}
    (h : l.lookup name = some b) : (name, b) ∈ l := by
  induction l with
  | nil => cases h
  | cons p l ih =>
    obtain ⟨k, c⟩ := p
    rw [List.lookup_cons] at h
    split at h
    · rename_i hk
      cases h
      rw [beq_iff_eq.1 hk]
      exact List.mem_cons_self ..
    · exact List.mem_cons_of_mem _ (ih h)

theorem Scope.proper_empty (X : Setting) (vs : List Variable) (label : Nat) :
    (Scope.empty label).Proper X vs where
  types _ _ h := absurd h List.not_mem_nil
  mem_scope _ _ h := absurd h List.not_mem_nil
  overloads _ _ h := absurd h List.not_mem_nil
  casts := .inl rfl

theorem Scope.Proper.mono {X : Setting} {vs ws : List Variable} {s : Scope} (h : s.Proper X vs)
    (hsub : vs ⊆ ws) : s.Proper X ws :=
  ⟨h.types, fun name v hv => hsub (h.mem_scope name v hv), h.overloads, h.casts⟩

/-- A scope with one more variable. -/
theorem Scope.Proper.addVariable {X : Setting} {vs : List Variable} {s s' : Scope} {v : Variable}
    (h : s.Proper X vs) (hv : s.addVariable v = .ok s') : s'.Proper X (v :: vs) := by
  obtain ⟨-, rfl⟩ := Scope.addVariable_ok hv
  refine ⟨h.types, fun n u hu => ?_, fun n f hf => ?_, h.casts⟩
  · rcases List.mem_append.1 hu with hu | hu
    · exact List.mem_cons_of_mem _ (h.mem_scope n u hu)
    · cases List.mem_singleton.1 hu
      exact List.mem_cons_self ..
  · rcases List.mem_append.1 hf with hf | hf
    · exact h.overloads n f hf
    · cases List.mem_singleton.1 hf

/-- A new variable goes into the innermost scope. -/
theorem LookupContext.proper_addVariable {X : Setting} {vs : List Variable} {c c' : LookupContext}
    {v : Variable} (h : ∀ scope ∈ c.scopes, scope.Proper X vs) (hv : c.addVariable v = .ok c') :
    ∀ scope ∈ c'.scopes, scope.Proper X (v :: vs) := by
  obtain ⟨current, hcurrent, hc⟩ := Outcome.bind_ok hv
  cases hc
  intro scope hscope
  rcases List.mem_cons.1 hscope with rfl | hscope
  · exact (h _ (List.mem_cons_self ..)).addVariable hcurrent
  · exact (h scope (List.mem_cons_of_mem _ hscope)).mono (List.subset_cons_self ..)

/-- A new variable, which has all the qualifiers that it should. -/
theorem Setting.declares_new {X : Setting} {name : String} {type : Ty} {isMutable : Bool}
    {id : ValueId} {range : Option ValueRange} {location : Location} (htype : X.Known type)
    (hvoid : type.isVoid = false) (hrange : type.Admits range)
    (hfull : isMutable = true → type.fullRange = .ok range) (hid : id ≠ .unread) :
    X.Declares ⟨name, type.withFlags (if isMutable then .refMut else .ref), id, range, location⟩ := by
  constructor
  · exact plain_unqualified (known_withFlags.2 htype)
  · show Ty.isVoid (Ty.withFlags _ _) = false
    rw [Ty.isVoid_withFlags]
    exact hvoid
  · show Ty.isReference (Ty.withFlags _ _) = true
    rw [Ty.isReference, Ty.flags_withFlags]
    cases isMutable <;> rfl
  · show Ty.Admits (Ty.withFlags _ _) range
    rw [Ty.admits_withFlags]
    exact hrange
  · show Ty.isMutable (Ty.withFlags _ _) = true → Ty.fullRange (Ty.withFlags _ _) = .ok range
    rw [Ty.isMutable, Ty.flags_withFlags, Ty.fullRange_withFlags]
    intro hmutable
    apply hfull
    cases isMutable
    · cases hmutable
    · rfl
  · exact hid

/-! ### Environments -/

/-- **The surroundings belong to the setting**, their conversions are the builtin ones, the variables
in scope are among `vs`, and the identities of these were drawn before `s`. -/
structure Env.Proper (X : Setting) (vs : List Variable) (s : Fresh) (env : Env) : Prop where
  types : env.types = X.types
  structs : env.structs = X.structs
  returnType : env.returnType = X.returnType
  scopes : ∀ scope ∈ env.context.scopes, scope.Proper X vs
  sole : X.types.Sole env.context.castGraph
  declares : ∀ v ∈ vs, X.Declares v
  drawn : ∀ v ∈ vs, v.id.index < s.nextValue
  positive : 0 < s.nextValue

namespace Env.Proper

variable {X : Setting} {vs : List Variable} {s s' : Fresh} {env env' : Env}

theorem mono (h : env.Proper X vs s) (hs : s.Grew s') : env.Proper X vs s' :=
  { h with
    drawn := fun v hv => lt_of_lt_of_le (h.drawn v hv) hs.values
    positive := lt_of_lt_of_le h.positive hs.values }

theorem mem_scope (h : env.Proper X vs s) {name : String} {v : Variable}
    (hv : env.context.object? name = some (.variable v)) : v ∈ vs := by
  obtain ⟨scope, hscope, hv⟩ := List.exists_of_findSome?_eq_some hv
  exact (h.scopes scope hscope).mem_scope name v (mem_of_lookup hv)

theorem overloads (h : env.Proper X vs s) {name : String} {f : OverloadSet}
    (hf : env.context.object? name = some (.function f)) : ∀ o ∈ f.overloads, X.Offers o := by
  obtain ⟨scope, hscope, hf⟩ := List.exists_of_findSome?_eq_some hf
  exact (h.scopes scope hscope).overloads name f (mem_of_lookup hf)

theorem carries (h : env.Proper X vs s) : X.Carries env.context.castGraph := by
  intro table htable
  obtain ⟨scope, hscope, rfl⟩ := List.mem_map.1 htable
  exact (h.scopes scope hscope).casts

/-- A new block begins with an empty scope. -/
theorem enter (h : env.Proper X vs s) : env.enter.Proper X vs s := by
  refine { h with scopes := fun scope hscope => ?_, sole := h.sole.cons }
  rcases List.mem_cons.1 hscope with rfl | hscope
  · exact Scope.proper_empty X vs _
  · exact h.scopes scope hscope

end Env.Proper

/-- **Types that are written are plain.** -/
theorem LookupContext.plain_of_resolveType {X : Setting} {vs : List Variable} {c : LookupContext}
    (hc : ∀ scope ∈ c.scopes, scope.Proper X vs) {written : Source.TypeExpr} {t : Ty}
    (h : c.resolveType written = .ok t) : X.Plain t := by
  induction written generalizing t with
  | simple n name =>
    rw [resolveType] at h
    split at h
    · rename_i u hu
      cases h
      obtain ⟨scope, hscope, hu⟩ := List.exists_of_findSome?_eq_some hu
      exact (hc scope hscope).types name t (mem_of_lookup hu)
    · cases h
  | pointer n written ih =>
    obtain ⟨u, hu, h⟩ := Outcome.bind_ok h
    cases h
    exact Setting.plain_pointerTo.2 (ih hu)
  | array n written count ih =>
    obtain ⟨u, hu, h⟩ := Outcome.bind_ok h
    cases h
    exact Setting.plain_arrayOf.2 (ih hu)

namespace Env.Proper

variable {X : Setting} {vs : List Variable} {s s' : Fresh} {env env' : Env}

theorem resolveType (h : env.Proper X vs s) {written : Source.TypeExpr} {t : Ty}
    (ht : env.resolveType written s = .ok (t, s')) : X.Plain t ∧ s = s' := by
  obtain ⟨ht, hs⟩ := resolveType_ok ht
  exact ⟨LookupContext.plain_of_resolveType h.scopes ht, hs⟩

/-- **Declaring a variable** puts it in scope. -/
theorem declare (h : env.Proper X vs s) {name : String} {type : Ty} {isMutable : Bool}
    {range : Option ValueRange} {location : Location} {v : Variable} (htype : X.Known type)
    (hrange : type.Admits range) (hfull : isMutable = true → type.fullRange = .ok range)
    (hv : env.declare name type isMutable range location s = .ok ((v, env'), s')) :
    env'.Proper X (v :: vs) s' ∧ Analysis.freshValue s = .ok (v.id, s') ∧ v.id ∉ vs.map (·.id) ∧
      v.type = type.withFlags (if isMutable then .refMut else .ref) ∧ v.range = range ∧
      type.isVoid = false := by
  obtain ⟨hvoid, i, context, hid, rfl, hcontext, rfl⟩ := declare_ok hv
  obtain ⟨rfl, rfl⟩ := Analysis.freshValue_ok hid
  -- adding qualifiers where there are none is setting them
  have hflags : type.unqualified.addFlags (if isMutable then Flags.refMut else .ref) =
      type.withFlags (if isMutable then .refMut else .ref) := by
    rw [Ty.addFlags, Ty.unqualified, Ty.withFlags_withFlags, Ty.flags_withFlags]
    cases isMutable <;> rfl
  rw [hflags] at hcontext ⊢
  have hread : (⟨s.nextValue⟩ : ValueId) ≠ .unread := by
    intro hunread
    have hzero : s.nextValue = 0 := ValueId.mk.inj hunread
    have hpos := h.positive
    omega
  -- variables in scope were drawn before, so the next identity is new
  have hnew : (⟨s.nextValue⟩ : ValueId) ∉ vs.map (·.id) := by
    intro hmem
    obtain ⟨u, hu, hid⟩ := List.mem_map.1 hmem
    have hlt := h.drawn u hu
    rw [hid] at hlt
    exact lt_irrefl _ hlt
  refine ⟨⟨h.types, h.structs, h.returnType, ?_, ?_, ?_, ?_, Nat.succ_pos _⟩, hid, hnew, rfl,
    rfl, hvoid⟩
  · exact LookupContext.proper_addVariable h.scopes hcontext
  · exact LookupContext.castGraph_of_addVariable hcontext ▸ h.sole
  · rw [List.forall_mem_cons]
    exact ⟨Setting.declares_new htype hvoid hrange hfull hread, h.declares⟩
  · rw [List.forall_mem_cons]
    exact ⟨Nat.lt_succ_self _, fun u hu => Nat.lt_succ_of_lt (h.drawn u hu)⟩

end Env.Proper

end RangeTyping
