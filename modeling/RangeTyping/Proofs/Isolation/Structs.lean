import Mathlib
import RangeTyping.Proofs.Intact.Module
import RangeTyping.Proofs.Isolation.Types

/-!
# Structs after others

A session that has analysed modules before goes on in a larger store and with higher numbers.  What
it has behind it is its `Past`, and everything that an analysis handles has its counterpart after a
past: stores, types, contexts and supplies with numbers that are shifted by what was given out
before.

An analysis after a past does the same with these counterparts as one without.  This module shows it
of the first stage, the declaration and definition of structs (`Past.declareStructs`).
-/

namespace RangeTyping

/-! ### Diagnostics -/

/-- The cause with its types renumbered. -/
def Cause.renumber (ρ : StructId → StructId) : Cause → Cause
  | .cast error => .cast (error.renumber ρ)
  | .assignToImmutable t => .assignToImmutable (t.renumber ρ)
  | .dereferenceNonPointer t => .dereferenceNonPointer (t.renumber ρ)
  | .invalidVariableType name t => .invalidVariableType name (t.renumber ρ)
  | .missingReturn function t => .missingReturn function (t.renumber ρ)
  | c => c

/-- The diagnostic with its types renumbered. -/
def Diagnostic.renumber (ρ : StructId → StructId) (d : Diagnostic) : Diagnostic :=
  { d with cause := d.cause.renumber ρ }

namespace StructStore.Embeds

variable {ρ : StructId → StructId} {S T : StructStore}

theorem castMessage (h : Embeds ρ S T) (e : CastError) :
    (e.renumber ρ).message T = e.message S := by
  unfold CastError.message
  cases e with
  | tooExpensive weight limit => rfl
  | noPath t u | ambiguous t u paths | rangeUnsafe t u range =>
    dsimp only [CastError.renumber]
    rw [h.text, h.text]

theorem causeMessage (h : Embeds ρ S T) (c : Cause) : (c.renumber ρ).message T = c.message S := by
  unfold Cause.message
  cases c with
  | cast error => exact h.castMessage error
  | assignToImmutable t | dereferenceNonPointer t | invalidVariableType name t
  | missingReturn function t =>
    dsimp only [Cause.renumber]
    rw [h.text]
  | _ => rfl

/-- **A diagnostic has the same wording in both stores.** -/
theorem message (h : Embeds ρ S T) (d : Diagnostic) : (d.renumber ρ).message T = d.message S := by
  rw [Diagnostic.message, Diagnostic.message, Diagnostic.renumber, h.causeMessage]

end StructStore.Embeds

/-- Types that cannot be resolved have no numbers to change. -/
theorem LookupContext.renumber_of_resolveType {c : LookupContext} {ρ : StructId → StructId}
    {written : Source.TypeExpr} {d : Diagnostic} (h : c.resolveType written = .error d) :
    d.renumber ρ = d := by
  induction written with
  | simple n name =>
    rw [resolveType] at h
    split at h
    · cases h
    · cases h
      rfl
  | pointer n written ih =>
    rw [resolveType] at h
    cases hw : c.resolveType written with
    | ok t =>
      rw [hw] at h
      cases h
    | error e =>
      rw [hw] at h
      cases h
      exact ih hw
  | array n written count ih =>
    rw [resolveType] at h
    cases hw : c.resolveType written with
    | ok t =>
      rw [hw] at h
      cases h
    | error e =>
      rw [hw] at h
      cases h
      exact ih hw

/-! ### Pasts -/

/-- **What a session has behind it**: the structs that were declared, how many identities were
drawn, and how many modules were given a number. -/
structure Past where
  structs : Array StructBody
  values : Nat
  points : Nat
  modules : Nat

namespace Past

variable (p : Past)

/-- The number of a struct after the past. -/
def struct (i : StructId) : StructId := p.structs.size + i

/-- The identity of a value after the past. -/
def value (v : ValueId) : ValueId := if v.isUnread then v else ⟨p.values + v.index⟩

/-- The identity of a branch target after the past. -/
def point (q : PointId) : PointId := ⟨p.points + q.index⟩

theorem struct_injective : Function.Injective p.struct := fun _ _ h => Nat.add_left_cancel h

theorem value_injective : Function.Injective p.value := by
  rintro ⟨i⟩ ⟨j⟩ h
  unfold value at h
  split at h <;> split at h <;> simp_all [ValueId.isUnread, ValueId.unread]

theorem point_injective : Function.Injective p.point := by
  rintro ⟨i⟩ ⟨j⟩ h
  exact congrArg PointId.mk (Nat.add_left_cancel (PointId.mk.inj h))

/-- The numbers and identities after the past. -/
def numbers : Renaming := ⟨p.struct, p.value, p.point, rfl⟩

/-- The supply after the past. -/
def fresh (s : Fresh) : Fresh := ⟨p.values + s.nextValue, p.points + s.nextPoint⟩

/-- A struct after the past. -/
def body (b : StructBody) : StructBody :=
  { b with layout := b.layout.map (Layout.mapTypes (Ty.renumber p.struct)) }

/-- The store after the past. -/
def store (S : StructStore) : StructStore := ⟨p.structs ++ S.bodies.map p.body⟩

/-- An object after the past. -/
def object : Object → Object
  | .variable v => .variable (p.numbers.variableOf v)
  | .function f => .function { f with overloads := f.overloads.map (.renumber p.struct) }

/-- A scope after the past.  Conversions are those of the builtins, which mention no structs. -/
def scope (s : Scope) : Scope :=
  { s with
    types := s.types.map fun e => (e.1, e.2.renumber p.struct)
    objects := s.objects.map fun e => (e.1, p.object e.2) }

/-- A context after the past. -/
def context (c : LookupContext) : LookupContext :=
  { c with
    current := p.scope c.current
    outer := c.outer.map p.scope }

/-! ### Stores -/

variable {p} {S : StructStore} {c : LookupContext}

theorem getElem?_store (i : StructId) :
    (p.store S).bodies[p.struct i]? = S.bodies[i]?.map p.body := by
  rw [store, struct, Array.getElem?_append_right (Nat.le_add_right ..), Nat.add_sub_cancel_left,
    Array.getElem?_map]

theorem getElem?_store_of_lt {j : Nat} (h : j < p.structs.size) :
    (p.store S).bodies[j]? = p.structs[j]? := by
  rw [store, Array.getElem?_append_left h]

theorem size_store : (p.store S).size = p.structs.size + S.size := by
  simp [store, StructStore.size]

/-- **The structs of a store are found after the past.** -/
theorem embeds : StructStore.Embeds p.struct S (p.store S) where
  injective := p.struct_injective
  size := by
    rw [size_store]
    exact Nat.le_add_left ..
  name i := by
    rw [StructStore.name?, StructStore.name?, getElem?_store]
    cases S.bodies[i]? <;> rfl
  layout i := by
    rw [StructStore.layout?, StructStore.layout?, getElem?_store]
    cases S.bodies[i]? <;> rfl

theorem declare_store (name : Option String) : (p.store S).declare name =
    (p.store (S.declare name).1, p.struct (S.declare name).2) := by
  simp [StructStore.declare, store, struct, body]

theorem setLayout_store (i : StructId) (l : Layout) :
    (p.store S).setLayout (p.struct i) (l.mapTypes (Ty.renumber p.struct)) =
      p.store (S.setLayout i l) := by
  show StructStore.mk _ = StructStore.mk (p.store (S.setLayout i l)).bodies
  refine congrArg StructStore.mk (Array.ext_getElem? fun j => ?_)
  rw [Array.getElem?_modify]
  by_cases hj : j < p.structs.size
  · rw [if_neg (by rw [struct]; omega), getElem?_store_of_lt hj, getElem?_store_of_lt hj]
  · obtain ⟨k, rfl⟩ := Nat.exists_eq_add_of_le (Nat.not_lt.1 hj)
    rw [show p.structs.size + k = p.struct k from rfl, getElem?_store, getElem?_store,
      StructStore.setLayout, Array.getElem?_modify]
    by_cases hk : i = k
    · subst hk
      rw [if_pos rfl, if_pos rfl]
      cases S.bodies[i]? <;> rfl
    · rw [if_neg fun heq => hk (p.struct_injective heq), if_neg hk]

/-! ### Looking up -/

theorem lookup_map {α β : Type} (f : α → β) (name : String) (l : List (String × α)) :
    (l.map fun e => (e.1, f e.2)).lookup name = (l.lookup name).map f := by
  induction l with
  | nil => rfl
  | cons e l ih =>
    rw [List.map_cons, List.lookup_cons, List.lookup_cons, ih]
    split <;> rfl

theorem scopeType? (s : Scope) (name : String) :
    (p.scope s).type? name = (s.type? name).map (Ty.renumber p.struct) :=
  lookup_map _ name s.types

theorem scopeObject? (s : Scope) (name : String) :
    (p.scope s).object? name = (s.object? name).map p.object :=
  lookup_map _ name s.objects

theorem findSome?_map_scope {α β : Type} {g : α → β} {look : Scope → Option α}
    {look' : Scope → Option β} (scopes : List Scope)
    (h : ∀ s, look' (p.scope s) = (look s).map g) :
    (scopes.map p.scope).findSome? look' = (scopes.findSome? look).map g := by
  induction scopes with
  | nil => rfl
  | cons s scopes ih =>
    rw [List.map_cons, List.findSome?_cons, List.findSome?_cons, h, ih]
    cases look s <;> rfl

theorem scopes_context : (p.context c).scopes = c.scopes.map p.scope := rfl

theorem type? (name : String) :
    (p.context c).type? name = (c.type? name).map (Ty.renumber p.struct) := by
  rw [LookupContext.type?, LookupContext.type?, scopes_context]
  exact findSome?_map_scope c.scopes fun s => scopeType? s name

theorem object? (name : String) :
    (p.context c).object? name = (c.object? name).map p.object := by
  rw [LookupContext.object?, LookupContext.object?, scopes_context]
  exact findSome?_map_scope c.scopes fun s => scopeObject? s name

theorem resolveType (written : Source.TypeExpr) : (p.context c).resolveType written =
    (c.resolveType written).map (Ty.renumber p.struct) :=
  LookupContext.resolveType_renumber type? written

/-! ### Declaring structs -/

/-- **Outcomes after the past**: what comes of a computation, with its types renumbered, or its
diagnostic. -/
abbrev Follows {α β : Type} (p : Past) (R : α → β → Prop) :
    Outcome Diagnostic α → Outcome Diagnostic β → Prop :=
  Outcome.Agrees (fun d d' => d' = d.renumber p.struct) R

/-- **A run over many items after the past**, if its steps follow. -/
theorem collect {σ τ α β γ ζ : Type} {step : σ → α → Outcome Diagnostic (β × σ)}
    {step' : τ → γ → Outcome Diagnostic (ζ × τ)} {φ : σ → τ} {χ : α → γ} {ψ : β → ζ}
    {I : σ → Prop} {as : List α} {s t : σ} {bs : List β} {ds : List Diagnostic}
    (h : ∀ s, I s → ∀ a, p.Follows (fun x y => y = (ψ x.1, φ x.2) ∧ I x.2) (step s a)
      (step' (φ s) (χ a)))
    (hI : I s) (hrun : RangeTyping.collect step s as = .ok (bs, ds, t)) :
    RangeTyping.collect step' (φ s) (as.map χ) =
      .ok (bs.map ψ, ds.map (Diagnostic.renumber p.struct), φ t) := by
  induction as generalizing s bs ds with
  | nil =>
    cases hrun
    rfl
  | cons a as ih =>
    rw [RangeTyping.collect] at hrun
    rw [List.map_cons, RangeTyping.collect]
    have hstep := h s hI a
    generalize step s a = x, step' (φ s) (χ a) = y at hstep hrun
    cases hstep with
    | internal i j => cases hrun
    | fail hd =>
      obtain ⟨⟨bs', ds', t'⟩, hrest, hrun⟩ := Outcome.bind_ok hrun
      cases hrun
      subst hd
      dsimp only
      rw [ih hI hrest]
      rfl
    | ok hb =>
      obtain ⟨⟨bs', ds', t'⟩, hrest, hrun⟩ := Outcome.bind_ok hrun
      cases hrun
      obtain ⟨rfl, hI'⟩ := hb
      dsimp only
      rw [ih hI' hrest]
      rfl

theorem addType (name : String) (f : Flags) (i : StructId) :
    (p.context c).addType name (.struct f (p.struct i)) =
      (c.addType name (.struct f i)).map p.context := by
  unfold LookupContext.addType Scope.addType
  rw [show (p.context c).current = p.scope c.current from rfl, scopeType?]
  cases c.current.type? name with
  | some t => rfl
  | none =>
    simp only [Option.map_none, Except.map]
    simp [context, scope, Ty.cookie?, Ty.asScalar?, Ty.renumber]

/-- **A struct is declared after the past** as without it. -/
theorem declare (definition : Source.StructDef) :
    p.Follows (fun x y => y = (x.1.renumber p.struct, p.store x.2.1, p.context x.2.2))
      (DeclaredStruct.declare (S, c) definition)
      (DeclaredStruct.declare (p.store S, p.context c) definition) := by
  simp only [DeclaredStruct.declare]
  rw [declare_store]
  dsimp only
  rw [addType]
  cases c.addType definition.name.text (.struct .none (S.declare (some definition.name.text)).2) with
  | ok c' => exact .ok rfl
  | error e =>
    cases e with
    | internal e => exact .internal e e
    | error e => exact .fail rfl

/-! ### Defining structs -/

theorem asStruct?_renumber (t : Ty) :
    (t.renumber p.struct).asStruct? = t.asStruct?.map p.struct := by
  cases t <;> rfl

/-- What comes of an attempt after the past. -/
def attempt (p : Past) : DeclaredStruct.Attempt → DeclaredStruct.Attempt
  | .defined => .defined
  | .deferred d => .deferred (d.renumber p.struct)
  | .refused d => .refused (d.renumber p.struct)

/-- What comes of a round after the past. -/
def left (p : Past) (r : DeclaredStruct.Round) : DeclaredStruct.Round :=
  ⟨p.store r.structs, r.deferred.map fun e => (e.1.renumber p.struct, e.2.renumber p.struct),
    r.refused.map (.renumber p.struct)⟩

theorem addAll (struct : String) (placed : Placement) (members : List (String × Ty)) :
    (placed.mapTypes (Ty.renumber p.struct)).addAll (p.store S) struct
        (members.map fun m => (m.1, m.2.renumber p.struct)) =
      (placed.addAll S struct members).map (Placement.mapTypes (Ty.renumber p.struct)) := by
  induction members generalizing placed with
  | nil => rfl
  | cons m rest ih =>
    obtain ⟨name, type⟩ := m
    -- neither names change nor sizes and alignments
    rw [List.map_cons, Placement.addAll_cons, Placement.addAll_cons, Placement.any_mapTypes,
      Placement.add_mapTypes (embeds.typeSize type) (embeds.alignment type), embeds.typeSize,
      embeds.text]
    split
    · rfl
    split
    · rfl
    cases placed.add S name type with
    | error e => rfl
    | ok placed => exact ih placed

theorem ofMembers (struct : String) (members : List (String × Ty)) :
    Layout.ofMembers (p.store S) struct (members.map fun m => (m.1, m.2.renumber p.struct)) =
      (Layout.ofMembers S struct members).map (Layout.mapTypes (Ty.renumber p.struct)) := by
  have hplaced := addAll (p := p) (S := S) struct .start members
  rw [show Placement.start.mapTypes (Ty.renumber p.struct) = .start from rfl] at hplaced
  rw [Layout.ofMembers, Layout.ofMembers, hplaced]
  cases Placement.start.addAll S struct members with
  | error e => rfl
  | ok placed =>
    show Outcome.ofInternal (placed.mapTypes _).layout = _
    rw [Placement.layout_mapTypes]
    show _ = (Outcome.ofInternal placed.layout : Outcome TypeError Layout).map _
    cases placed.layout <;> rfl

theorem defineStruct (type : Ty) (members : List (String × Ty)) :
    (p.store S).define (type.renumber p.struct)
        (members.map fun m => (m.1, m.2.renumber p.struct)) =
      ((S.define type members).1, p.store (S.define type members).2) := by
  unfold StructStore.define
  rw [asStruct?_renumber, embeds.text]
  cases type.asStruct? with
  | none => rfl
  | some i =>
    dsimp only [Option.map_some]
    rw [embeds.isComplete, embeds.displayName, ofMembers]
    split
    · rfl
    · cases Layout.ofMembers S (S.displayName i) members with
      | error e => rfl
      | ok l => exact congrArg (Prod.mk _) (setLayout_store i l)

theorem renumber_of_members {written : List Source.MemberDef} {d : Diagnostic}
    (h : DeclaredStruct.members c written = .error d) : d.renumber p.struct = d := by
  induction written with
  | nil => cases h
  | cons m rest ih =>
    rw [DeclaredStruct.members] at h
    cases hm : c.resolveType m.type with
    | error e =>
      rw [hm] at h
      cases h
      exact LookupContext.renumber_of_resolveType hm
    | ok t =>
      rw [hm] at h
      cases hrest : DeclaredStruct.members c rest with
      | error e =>
        rw [hrest] at h
        cases h
        exact ih hrest
      | ok ts =>
        rw [hrest] at h
        cases h

/-- **An attempt to define a struct** after the past. -/
theorem define (d : DeclaredStruct) :
    DeclaredStruct.define (p.context c) (p.store S) (d.renumber p.struct) =
      (DeclaredStruct.define c S d).map fun x => (p.attempt x.1, p.store x.2) := by
  unfold DeclaredStruct.define
  rw [show (d.renumber p.struct).definition = d.definition from rfl,
    DeclaredStruct.members_renumber type?]
  cases hms : DeclaredStruct.members c d.definition.members with
  | error e =>
    show Except.ok (DeclaredStruct.Attempt.refused e, p.store S) =
      .ok (.refused (e.renumber p.struct), p.store S)
    rw [renumber_of_members hms]
  | ok ms =>
    dsimp only [Except.map]
    rw [show (d.renumber p.struct).type = d.type.renumber p.struct from rfl, defineStruct]
    obtain ⟨outcome, T⟩ := S.define d.type ms
    match outcome with
    | .ok () => rfl
    | .error (.internal e) => rfl
    | .error (.error e) => cases e <;> rfl

theorem left_cons (d : DeclaredStruct) (r : DeclaredStruct.Round)
    (attempt : DeclaredStruct.Attempt) :
    p.left (r.cons d attempt) = (p.left r).cons (d.renumber p.struct) (p.attempt attempt) := by
  cases attempt <;> rfl

theorem round (ds : List DeclaredStruct) :
    DeclaredStruct.round (p.context c) (p.store S) (ds.map (.renumber p.struct)) =
      (DeclaredStruct.round c S ds).map p.left := by
  induction ds generalizing S with
  | nil => rfl
  | cons d rest ih =>
    rw [List.map_cons, DeclaredStruct.round, DeclaredStruct.round, define]
    cases DeclaredStruct.define c S d with
    | error e => rfl
    | ok x =>
      obtain ⟨attempt, T⟩ := x
      simp only [Except.map, bind, Except.bind, ih]
      cases DeclaredStruct.round c T rest with
      | error e => rfl
      | ok r => exact congrArg Except.ok (left_cons d r attempt).symm

/-- **Structs are defined after the past** as without it. -/
theorem defineAll (ds : List DeclaredStruct) :
    DeclaredStruct.defineAll (p.context c) (p.store S) (ds.map (.renumber p.struct)) =
      (DeclaredStruct.defineAll c S ds).map fun x =>
        (p.store x.1, x.2.map (.renumber p.struct)) := by
  fun_induction DeclaredStruct.defineAll c S ds with
  | case1 S ds e hround =>
    rw [DeclaredStruct.defineAll, round, hround]
    rfl
  | case2 S ds r hround hless ih =>
    have hpending : (p.left r).deferred.map (·.1) =
        (r.deferred.map (·.1)).map (.renumber p.struct) := by
      rw [left, List.map_map, List.map_map]
      rfl
    rw [DeclaredStruct.defineAll, round, hround]
    dsimp only [Except.map]
    rw [if_pos (by simpa [left] using hless), hpending]
    simp only [left, ih]
    cases DeclaredStruct.defineAll c r.structs (r.deferred.map (·.1)) with
    | error e => rfl
    | ok x => simp [bind, Except.bind, pure, Except.pure, Except.map]
  | case3 S ds r hround hall =>
    rw [DeclaredStruct.defineAll, round, hround]
    dsimp only [Except.map]
    rw [if_neg (by simpa [left] using hall)]
    simp [left]

/-- **The first stage after the past.** -/
theorem declareStructs (m : Source.Module) : m.declareStructs (p.store S) (p.context c) =
    (m.declareStructs S c).map fun r => (r.1.map (.renumber p.struct),
      r.2.1.map (.renumber p.struct), p.store r.2.2.1, p.context r.2.2.2) := by
  obtain ⟨⟨declared, errors, S₁, c₁⟩, hcollect⟩ := DeclaredStruct.collect_declare_total S c m.structs
  have hcollect' := collect (p := p) (χ := id) (ψ := .renumber p.struct) (I := fun _ => True)
    (φ := fun s => (p.store s.1, p.context s.2))
    (fun s _ f => (declare f).mono (fun _ _ => id) fun _ _ h => ⟨h, trivial⟩) trivial hcollect
  rw [List.map_id] at hcollect'
  rw [Source.Module.declareStructs, hcollect', Source.Module.declareStructs, hcollect]
  simp only [bind, Except.bind, defineAll]
  cases DeclaredStruct.defineAll c₁ S₁ declared with
  | error e => rfl
  | ok x => simp [pure, Except.pure, Except.map]

end Past

end RangeTyping
