import Mathlib
import RangeTyping.Proofs.Analysis.Functions
import RangeTyping.Proofs.Stream.WellFormed
import RangeTyping.Proofs.Symbols
import RangeTyping.Proofs.Tree.Slots

/-!
# What is not declared mutable is assigned once

The target of an assignment is any expression whose type says that it may be changed.  In a typed
tree that leaves only blocks that end in a variable: what a pointer points to cannot be changed, and
conversions and conditionals give values (`TypedExpr.isPlace_of_flags`).  So a stream writes to
storage in two ways only (`Event.Stores`): directly after setting it up, or later if the variable may
change.

From this it follows for every function (`Event.KeepsSlots`) that the target of every assignment was
set up before it, that a variable which is not mutable is assigned exactly once, and that parameters
are never assigned.
-/

namespace RangeTyping

namespace Event

/-! ### Streams that write to storage -/

/-- The storage that an event sets up, by identity and name. -/
def allocates? : Event → Option (ValueId × String)
  | allocate i _ name => some (i, name)
  | _ => none

/-- The storage that an event writes to. -/
def assigns? : Event → Option ValueId
  | assign target _ => some target
  | _ => none

/-- The storage that a stream sets up, in order. -/
def allocations (es : List Event) : List (ValueId × String) := es.filterMap allocates?

/-- **The storage is written to exactly once**, directly after it was set up. -/
def AssignedOnce (es : List Event) (i : ValueId) : Prop :=
  ∃ before type name value after,
    es = before ++ allocate i type name :: assign i value :: after ∧
      ∀ e ∈ before ++ after, e.assigns? ≠ some i

/-- **A stream writes to storage only where it may**: directly after setting it up, or to a part of
it for which `M` holds.  `seen` and `out` are the identities of the storage before and after. -/
inductive Stores (M : ValueId → Prop) : List ValueId → List Event → List ValueId → Prop where
  | nil (seen : List ValueId) : Stores M seen [] seen
  | other {seen out : List ValueId} {e : Event} {es : List Event} (allocates : e.allocates? = none)
      (assigns : e.assigns? = none) (rest : Stores M seen es out) : Stores M seen (e :: es) out
  | setUp {seen out : List ValueId} {i value : ValueId} {type : Ty} {name : String}
      {es : List Event} (read : i ≠ .unread) (rest : Stores M (i :: seen) es out) :
      Stores M seen (allocate i type name :: assign i value :: es) out
  | change {seen out : List ValueId} {target value : ValueId} {es : List Event}
      (may : M target) (known : target ∈ seen) (rest : Stores M seen es out) :
      Stores M seen (assign target value :: es) out

variable {M : ValueId → Prop} {seen mid out : List ValueId} {es fs : List Event} {i : ValueId}

@[simp] theorem allocations_nil : allocations [] = [] := rfl

@[simp] theorem allocations_append : allocations (es ++ fs) = allocations es ++ allocations fs :=
  List.filterMap_append

theorem allocations_cons (e : Event) (es : List Event) :
    allocations (e :: es) = e.allocates?.toList ++ allocations es := by
  cases h : e.allocates? <;> simp [allocations, h]

theorem allocations_cons_none {e : Event} (h : e.allocates? = none) (es : List Event) :
    allocations (e :: es) = allocations es :=
  List.filterMap_cons_none h

/-- The storage that a new variable gets. -/
theorem allocations_setUp (i value : ValueId) (type : Ty) (name : String) (es : List Event) :
    allocations (allocate i type name :: assign i value :: es) = (i, name) :: allocations es := rfl

namespace Stores

theorem append (h : Stores M seen es mid) (h' : Stores M mid fs out) :
    Stores M seen (es ++ fs) out := by
  induction h with
  | nil => exact h'
  | other hallocates hassigns _ ih => exact .other hallocates hassigns (ih h')
  | setUp hread _ ih => exact .setUp hread (ih h')
  | change hmay hknown _ ih => exact .change hmay hknown (ih h')

/-- Events that have nothing to do with storage. -/
theorem silent (h : ∀ e ∈ es, e.allocates? = none ∧ e.assigns? = none) : Stores M seen es seen := by
  induction es with
  | nil => exact .nil seen
  | cons e es ih =>
    rw [List.forall_mem_cons] at h
    exact .other h.1.1 h.1.2 (ih h.2)

theorem subset (h : Stores M seen es out) : seen ⊆ out := by
  induction h with
  | nil => exact List.Subset.refl _
  | other _ _ _ ih | change _ _ _ ih => exact ih
  | setUp _ _ ih => exact List.Subset.trans (List.subset_cons_self ..) ih

/-- **What is written to was set up before.** -/
theorem mem_allocations (h : Stores M seen es out) {before after : List Event}
    {target value : ValueId} (heq : es = before ++ assign target value :: after) :
    target ∈ seen ∨ target ∈ (allocations before).map Prod.fst := by
  induction h generalizing before with
  | nil => exact absurd heq (by simp)
  | other hallocates hassigns _ ih =>
    rcases List.cons_eq_append_iff.1 heq with ⟨rfl, hhead⟩ | ⟨before', rfl, heq'⟩
    · cases hhead
      cases hassigns
    · rw [allocations_cons_none hallocates]
      exact ih heq'
  | setUp hread _ ih =>
    rcases List.cons_eq_append_iff.1 heq with ⟨rfl, hhead⟩ | ⟨before', rfl, heq'⟩
    · cases hhead
    · rcases List.cons_eq_append_iff.1 heq' with ⟨rfl, hhead⟩ | ⟨before'', rfl, heq''⟩
      · -- the write that sets it up
        cases hhead
        exact .inr (List.mem_singleton_self _)
      · rw [allocations_setUp, List.map_cons, List.mem_cons]
        rcases ih heq'' with hmem | hmem
        · exact (List.mem_cons.1 hmem).elim (fun h => .inr (.inl h)) .inl
        · exact .inr (.inr hmem)
  | change hmay hknown _ ih =>
    rcases List.cons_eq_append_iff.1 heq with ⟨rfl, hhead⟩ | ⟨before', rfl, heq'⟩
    · cases hhead
      exact .inl hknown
    · rw [allocations_cons_none rfl]
      exact ih heq'

/-- Storage that is not set up here and may not change is not written to. -/
theorem assigns_ne (h : Stores M seen es out) (hM : ¬ M i)
    (hi : i ∉ (allocations es).map Prod.fst) : ∀ e ∈ es, e.assigns? ≠ some i := by
  induction h with
  | nil => exact fun e he => absurd he List.not_mem_nil
  | other hallocates hassigns _ ih =>
    rw [allocations_cons_none hallocates] at hi
    refine List.forall_mem_cons.2 ⟨?_, ih hi⟩
    rw [hassigns]
    exact nofun
  | @setUp seen out j value type name es hread _ ih =>
    rw [allocations_setUp, List.map_cons, List.mem_cons, not_or] at hi
    refine List.forall_mem_cons.2 ⟨nofun, List.forall_mem_cons.2 ⟨?_, ih hi.2⟩⟩
    intro heq
    exact hi.1 (Option.some.inj heq).symm
  | change hmay hknown _ ih =>
    refine List.forall_mem_cons.2 ⟨?_, ih hi⟩
    intro heq
    cases heq
    exact hM hmay

theorem assignedOnce_cons {e : Event} (he : e.assigns? ≠ some i) (h : AssignedOnce es i) :
    AssignedOnce (e :: es) i := by
  obtain ⟨before, type, name, value, after, rfl, hothers⟩ := h
  exact ⟨e :: before, type, name, value, after, rfl, List.forall_mem_cons.2 ⟨he, hothers⟩⟩

/-- **Storage that may not change is written to once**, if it is set up once. -/
theorem assignedOnce (h : Stores M seen es out) (hM : ¬ M i)
    (hnodup : ((allocations es).map Prod.fst).Nodup) (hi : i ∈ (allocations es).map Prod.fst) :
    AssignedOnce es i := by
  induction h with
  | nil => exact absurd hi List.not_mem_nil
  | other hallocates hassigns _ ih =>
    rw [allocations_cons_none hallocates] at hnodup hi
    refine assignedOnce_cons ?_ (ih hnodup hi)
    rw [hassigns]
    exact nofun
  | @setUp seen out j value type name es hread rest ih =>
    rw [allocations_setUp, List.map_cons] at hnodup hi
    obtain ⟨hnew, hnodup⟩ := List.nodup_cons.1 hnodup
    -- what may not change is filled where it is set up, and never after
    by_cases hij : j = i
    · subst hij
      exact ⟨[], type, name, value, es, rfl, rest.assigns_ne hM hnew⟩
    · have hmem := (List.mem_cons.1 hi).resolve_left (Ne.symm hij)
      refine assignedOnce_cons nofun (assignedOnce_cons ?_ (ih hnodup hmem))
      exact fun heq => hij (Option.some.inj heq)
  | change hmay hknown _ ih =>
    refine assignedOnce_cons ?_ (ih hnodup hi)
    intro heq
    cases heq
    exact hM hmay

/-- Storage that is set up is produced. -/
theorem sublist_produced (h : Stores M seen es out) :
    ((allocations es).map Prod.fst).Sublist (produced es) := by
  induction h with
  | nil => exact List.Sublist.refl _
  | other hallocates _ _ ih =>
    rw [allocations_cons_none hallocates, produced_cons]
    exact ih.trans (List.sublist_append_right ..)
  | setUp hread _ ih =>
    rw [allocations_setUp, List.map_cons, produced_cons_single rfl, produced_cons, if_neg hread]
    exact ih.cons_cons _
  | change _ _ _ ih => exact ih

end Stores

/-- The variables in scope that may change have storage. -/
def Knows (M : ValueId → Prop) (seen : List ValueId) (vs : List Variable) : Prop :=
  ∀ v ∈ vs, v.type.isMutable = true → v.id ∈ seen ∧ M v.id

theorem Knows.mono {vs : List Variable} (h : Knows M seen vs) (hsub : seen ⊆ out) :
    Knows M out vs :=
  fun v hv hmutable => ⟨hsub (h v hv hmutable).1, (h v hv hmutable).2⟩

theorem Stores.knows {vs : List Variable} (h : Stores M seen es out) (hvs : Knows M seen vs) :
    Knows M out vs := hvs.mono h.subset

end Event

/-! ### Places that may change -/

/-- A conversion gives a value. -/
theorem BuiltinTypes.Converts.flags {types : BuiltinTypes} {source destination : Ty} {op : CastOp}
    (h : types.Converts source op destination) : destination.flags = .none := by
  cases h with
  | load hplain | unqualify hplain => exact hplain
  | integer | fromChar | toChar => rfl

namespace TypedExpr

open Event

variable {X : Setting} {vs : List Variable} {e : TypedExpr} {M : ValueId → Prop}
  {seen out : List ValueId}

/-- Whether the expression is a variable or a block with a result. -/
def isPlace : TypedExpr → Bool
  | .variable _ _ | valueBlock _ _ _ => true
  | _ => false

/-- **What may be changed is a variable or a block with a result.** -/
theorem isPlace_of_flags (h : e.Obeys X.rule vs) (hplain : e.Obeys .plainConditionals vs)
    (hflags : e.type.flags = .refMut) : e.isPlace = true := by
  obtain ⟨hknown, -, hwell, -, -⟩ := h.root
  have hvalue : ∀ t : Ty, e.type = t → t.flags ≠ .none := by
    rintro _ rfl hnone
    rw [hnone] at hflags
    exact absurd hflags (by decide)
  cases e with
  | «variable» i v | valueBlock i ss r => rfl
  | int i n =>
    obtain ⟨a, -, htype, -⟩ := hwell
    exact absurd rfl (hvalue _ htype)
  | bool i b => exact absurd rfl (hvalue _ hwell)
  | null i =>
    obtain ⟨t, htype⟩ := hwell
    exact absurd rfl (hvalue _ htype)
  | cast i op s => exact absurd (BuiltinTypes.Converts.flags hwell) (hvalue _ rfl)
  | call i f as => exact absurd (X.plain_of_callable _ _ _ hwell).2.2 (hvalue _ rfl)
  | binary i op l r =>
    obtain ⟨a, -, -, -, htype⟩ := hwell
    exact absurd rfl (hvalue _ htype)
  | logicalNot i e => exact absurd rfl (hvalue _ hwell.1)
  | block i ss => exact absurd rfl (hvalue _ hwell)
  | ifThen i t a p => exact absurd rfl (hvalue _ hwell.2)
  | ifElse i t a b p q => exact absurd hplain.1 (hvalue _ rfl)
  | dereference i p =>
    -- a pointer points to a type without qualifiers, and following it adds no permission
    obtain ⟨t, hpointer, htype⟩ := hwell
    have hpknown : X.Known (.pointerTo t) := hpointer ▸ h.2.root.1
    have hflags : (t.addFlags .ref).flags = .refMut := htype ▸ hflags
    rw [Ty.addFlags, Ty.flags_withFlags, hpknown.2] at hflags
    exact absurd hflags (by decide)

/-- The events of an expression write only where they may, and if it is a place that may change it
is one that is known. -/
structure Stored (M : ValueId → Prop) (seen : List ValueId) (e : TypedExpr) (out : List ValueId) :
    Prop where
  stores : Stores M seen e.events out
  place : e.type.flags = .refMut → e.holder ∈ out ∧ M e.holder

theorem silent_castEvents (op : CastOp) (id source : ValueId) (type sourceType : Ty) :
    ∀ e ∈ castEvents op id type source sourceType, e.allocates? = none ∧ e.assigns? = none := by
  cases op with
  | noOp => exact fun e he => absurd he List.not_mem_nil
  | dereference | truncate | changeSign | expandSigned | expandUnsigned =>
    intro e he
    cases List.mem_singleton.1 he
    exact ⟨rfl, rfl⟩

/-- An event that has nothing to do with storage, after others. -/
theorem stores_snoc {es : List Event} {e : Event} (h : Stores M seen es out)
    (hallocates : e.allocates? = none) (hassigns : e.assigns? = none) :
    Stores M seen (es ++ [e]) out :=
  h.append (.other hallocates hassigns (.nil out))

/-- An expression that is no place. -/
theorem stored_of_value {es : List Event} (h : e.Obeys X.rule vs)
    (hplain : e.Obeys .plainConditionals vs) (hplace : e.isPlace = false) (hes : e.events = es)
    (hstores : Stores M seen es out) : e.Stored M seen out := by
  refine ⟨hes ▸ hstores, fun hflags => ?_⟩
  rw [isPlace_of_flags h hplain hflags] at hplace
  cases hplace

/-- The variables among several that may change. -/
theorem forall_mutable_append {as bs : List Variable}
    (h : ∀ v ∈ as ++ bs, v.type.isMutable = true → M v.id) :
    (∀ v ∈ as, v.type.isMutable = true → M v.id) ∧
      ∀ v ∈ bs, v.type.isMutable = true → M v.id :=
  List.forall_mem_append.1 h

mutual
/-- **The events of an expression** write only where they may. -/
theorem exists_stored : ∀ (e : TypedExpr) {vs : List Variable} {seen : List ValueId},
    e.Obeys X.rule vs → e.Obeys .plainConditionals vs → Knows M seen vs →
    (∀ v ∈ e.locals, v.type.isMutable = true → M v.id) → ∃ out, e.Stored M seen out
  | .int i n, vs, seen, h, hplain, hknows, hM => by
    exact ⟨seen, stored_of_value h hplain rfl rfl (.other rfl rfl (.nil seen))⟩
  | .bool i b, vs, seen, h, hplain, hknows, hM => by
    exact ⟨seen, stored_of_value h hplain rfl rfl (.other rfl rfl (.nil seen))⟩
  | .null i, vs, seen, h, hplain, hknows, hM => by
    exact ⟨seen, stored_of_value h hplain rfl rfl (.other rfl rfl (.nil seen))⟩
  | .variable i v, vs, seen, h, hplain, hknows, hM => by
    obtain ⟨-, -, htype, -, hid, hv⟩ := h
    refine ⟨seen, .nil seen, fun hflags => ?_⟩
    have hflags : i.type.flags = .refMut := hflags
    have hmutable : v.type.isMutable = true := by
      rw [← htype, Ty.isMutable, hflags]
      rfl
    show i.id ∈ seen ∧ M i.id
    rw [hid]
    exact hknows v hv hmutable
  | .cast i op s, vs, seen, h, hplain, hknows, hM => by
    obtain ⟨out, hs⟩ := exists_stored s h.2 hplain.2 hknows hM
    exact ⟨out, stored_of_value h hplain rfl rfl
      (hs.stores.append (.silent (silent_castEvents _ _ _ _ _)))⟩
  | .call i f as, vs, seen, h, hplain, hknows, hM => by
    obtain ⟨out, has⟩ := exists_storesAll as h.2 hplain.2 hknows hM
    exact ⟨out, stored_of_value h hplain rfl rfl (stores_snoc has rfl rfl)⟩
  | .binary i op l r, vs, seen, h, hplain, hknows, hM => by
    obtain ⟨hMl, hMr⟩ := forall_mutable_append hM
    obtain ⟨mid, hl⟩ := exists_stored l h.2.1 hplain.2.1 hknows hMl
    obtain ⟨out, hr⟩ := exists_stored r h.2.2 hplain.2.2 (hl.stores.knows hknows) hMr
    exact ⟨out, stored_of_value h hplain rfl rfl
      (stores_snoc (hl.stores.append hr.stores) rfl rfl)⟩
  | .logicalNot i e, vs, seen, h, hplain, hknows, hM => by
    obtain ⟨out, he⟩ := exists_stored e h.2 hplain.2 hknows hM
    exact ⟨out, stored_of_value h hplain rfl rfl (stores_snoc he.stores rfl rfl)⟩
  | .block i ss, vs, seen, h, hplain, hknows, hM => by
    obtain ⟨out, hss, -⟩ := exists_stmtStoresAll ss h.2 hplain.2 hknows hM
    exact ⟨out, stored_of_value h hplain rfl rfl hss⟩
  | .valueBlock i ss r, vs, seen, h, hplain, hknows, hM => by
    obtain ⟨hMss, hMr⟩ := forall_mutable_append hM
    obtain ⟨mid, hss, hinner⟩ := exists_stmtStoresAll ss h.2.1 hplain.2.1 hknows hMss
    obtain ⟨out, hr⟩ := exists_stored r h.2.2 hplain.2.2 hinner hMr
    refine ⟨out, hss.append hr.stores, fun hflags => hr.place ?_⟩
    have htype : i.type = r.type := h.1.2.2.1
    rw [← htype]
    exact hflags
  | .ifThen i t a p, vs, seen, h, hplain, hknows, hM => by
    obtain ⟨hMt, hMa⟩ := forall_mutable_append hM
    obtain ⟨mid, ht⟩ := exists_stored t h.2.1 hplain.2.1 hknows hMt
    obtain ⟨out, ha⟩ := exists_stored a h.2.2 hplain.2.2 (ht.stores.knows hknows) hMa
    refine ⟨out, stored_of_value h hplain rfl rfl ?_⟩
    have harm := (stores_snoc (e := .conditionalBranch i.id i.type t.holder p p) ht.stores
      rfl rfl).append ha.stores
    exact stores_snoc (harm.append (.other rfl rfl (.other rfl rfl (.nil out)))) rfl rfl
  | .ifElse i t a b p q, vs, seen, h, hplain, hknows, hM => by
    obtain ⟨hMt, hMarms⟩ := forall_mutable_append hM
    obtain ⟨hMa, hMb⟩ := forall_mutable_append hMarms
    obtain ⟨s₁, ht⟩ := exists_stored t h.2.1 hplain.2.1 hknows hMt
    have hknows₁ := ht.stores.knows hknows
    obtain ⟨s₂, ha⟩ := exists_stored a h.2.2.1 hplain.2.2.1 hknows₁ hMa
    obtain ⟨out, hb⟩ := exists_stored b h.2.2.2 hplain.2.2.2 (ha.stores.knows hknows₁) hMb
    refine ⟨out, stored_of_value h hplain rfl rfl ?_⟩
    have hthen := (stores_snoc (e := .conditionalBranch i.id i.type t.holder p q) ht.stores
      rfl rfl).append ha.stores
    have hbetween : Stores M s₂ [.clauseResult (armResult i.id a.holder), .jump q,
        .jumpPoint p "else"] s₂ := .other rfl rfl (.other rfl rfl (.other rfl rfl (.nil s₂)))
    have helse := (hthen.append hbetween).append hb.stores
    exact stores_snoc (helse.append (.other rfl rfl (.other rfl rfl (.nil out)))) rfl rfl
  | .dereference i p, vs, seen, h, hplain, hknows, hM => by
    obtain ⟨out, hp⟩ := exists_stored p h.2 hplain.2 hknows hM
    exact ⟨out, stored_of_value h hplain rfl rfl hp.stores⟩

/-- The events of several expressions write only where they may. -/
theorem exists_storesAll : ∀ (es : List TypedExpr) {vs : List Variable} {seen : List ValueId},
    ObeysAll X.rule vs es → ObeysAll .plainConditionals vs es → Knows M seen vs →
    (∀ v ∈ localsAll es, v.type.isMutable = true → M v.id) →
    ∃ out, Stores M seen (eventsAll es) out
  | [], vs, seen, h, hplain, hknows, hM => ⟨seen, .nil seen⟩
  | e :: es, vs, seen, h, hplain, hknows, hM => by
    obtain ⟨hMe, hMes⟩ := forall_mutable_append hM
    obtain ⟨mid, he⟩ := exists_stored e h.1 hplain.1 hknows hMe
    obtain ⟨out, hes⟩ := exists_storesAll es h.2 hplain.2 (he.stores.knows hknows) hMes
    exact ⟨out, he.stores.append hes⟩

/-- **The events of a statement** write only where they may, and what it defines is known. -/
theorem exists_stmtStores : ∀ (st : TypedStmt) {vs : List Variable} {seen : List ValueId},
    StmtObeys X.rule vs st → StmtObeys .plainConditionals vs st → Knows M seen vs →
    (∀ v ∈ stmtLocals st, v.type.isMutable = true → M v.id) →
    ∃ out, Stores M seen (stmtEvents st) out ∧ Knows M out (st.bind vs)
  | .expression e, vs, seen, h, hplain, hknows, hM => by
    obtain ⟨out, he⟩ := exists_stored e h.2 hplain.2 hknows hM
    exact ⟨out, he.stores, he.stores.knows hknows⟩
  | .define v e, vs, seen, h, hplain, hknows, hM => by
    obtain ⟨hMe, hMv⟩ := forall_mutable_append hM
    obtain ⟨mid, he⟩ := exists_stored e h.2 hplain.2 hknows hMe
    have hread : v.id ≠ .unread := h.1.2.1.1.read
    have hset : Stores M mid [.allocate v.id v.type.unqualified v.name, .assign v.id e.holder]
        (v.id :: mid) := .setUp hread (.nil _)
    refine ⟨v.id :: mid, he.stores.append hset, List.forall_mem_cons.2 ⟨?_, ?_⟩⟩
    · exact fun hmutable => ⟨List.mem_cons_self .., hMv v (List.mem_singleton_self v) hmutable⟩
    · exact (he.stores.append hset).knows hknows
  | .assign t e, vs, seen, h, hplain, hknows, hM => by
    obtain ⟨hMe, hMt⟩ := forall_mutable_append hM
    obtain ⟨mid, he⟩ := exists_stored e h.2.2 hplain.2.2 hknows hMe
    obtain ⟨out, ht⟩ := exists_stored t h.2.1 hplain.2.1 (he.stores.knows hknows) hMt
    -- the target is storage that was set up and may change
    obtain ⟨hplace, hmay⟩ := ht.place h.1.1.1
    have hchange : Stores M out [.assign t.holder e.holder] out := .change hmay hplace (.nil out)
    have hall := (he.stores.append ht.stores).append hchange
    exact ⟨out, hall, hall.knows hknows⟩
  | .returnValue e, vs, seen, h, hplain, hknows, hM => by
    obtain ⟨out, he⟩ := exists_stored e h.2 hplain.2 hknows hM
    have hall : Stores M seen
        (e.events ++ [if e.type.isVoid then .returnVoid else .returnValue e.holder]) out := by
      refine stores_snoc he.stores ?_ ?_ <;> split <;> rfl
    exact ⟨out, hall, hall.knows hknows⟩
  | .returnVoid, vs, seen, h, hplain, hknows, hM =>
    ⟨seen, .other rfl rfl (.nil seen), hknows⟩

/-- **The events of statements** write only where they may, and what they define is known. -/
theorem exists_stmtStoresAll : ∀ (ss : List TypedStmt) {vs : List Variable} {seen : List ValueId},
    StmtsObey X.rule vs ss → StmtsObey .plainConditionals vs ss → Knows M seen vs →
    (∀ v ∈ stmtLocalsAll ss, v.type.isMutable = true → M v.id) →
    ∃ out, Stores M seen (stmtEventsAll ss) out ∧ Knows M out (TypedStmt.bindAll vs ss)
  | [], vs, seen, h, hplain, hknows, hM => ⟨seen, .nil seen, hknows⟩
  | st :: ss, vs, seen, h, hplain, hknows, hM => by
    obtain ⟨hMst, hMss⟩ := forall_mutable_append hM
    obtain ⟨mid, hst, hbind⟩ := exists_stmtStores st h.1 hplain.1 hknows hMst
    obtain ⟨out, hss, hall⟩ := exists_stmtStoresAll ss h.2 hplain.2 hbind hMss
    exact ⟨out, hst.append hss, hall⟩
end

theorem allocations_castEvents (op : CastOp) (id source : ValueId) (type sourceType : Ty) :
    allocations (castEvents op id type source sourceType) = [] :=
  List.filterMap_eq_nil_iff.2 fun e he => (silent_castEvents op id source type sourceType e he).1

mutual
/-- **The storage that an expression sets up** is that of the variables inside it. -/
theorem allocations_events : ∀ e : TypedExpr,
    allocations e.events = e.locals.map fun v => (v.id, v.name)
  | .int _ _ | .bool _ _ | .null _ | .variable _ _ => rfl
  | .cast i op s => by
    rw [events, allocations_append, allocations_events s, allocations_castEvents, List.append_nil,
      locals]
  | .call i f as => by
    rw [events, allocations_append, allocations_eventsAll as, locals]
    exact List.append_nil _
  | .binary i op l r => by
    rw [events, allocations_append, allocations_append, allocations_events l, allocations_events r,
      locals, List.map_append]
    exact List.append_nil _
  | .logicalNot i e => by
    rw [events, allocations_append, allocations_events e, locals]
    exact List.append_nil _
  | .block i ss => allocations_stmtEventsAll ss
  | .valueBlock i ss r => by
    rw [events, allocations_append, allocations_stmtEventsAll ss, allocations_events r, locals,
      List.map_append]
  | .ifThen i t a p => by
    simp [events, allocations_events t, allocations_events a, locals, allocations_cons, allocates?]
  | .ifElse i t a b p q => by
    simp [events, allocations_events t, allocations_events a, allocations_events b, locals,
      allocations_cons, allocates?]
  | .dereference i p => allocations_events p

theorem allocations_eventsAll : ∀ es : List TypedExpr,
    allocations (eventsAll es) = (localsAll es).map fun v => (v.id, v.name)
  | [] => rfl
  | e :: es => by
    rw [eventsAll, allocations_append, allocations_events e, allocations_eventsAll es, localsAll,
      List.map_append]

theorem allocations_stmtEvents : ∀ st : TypedStmt,
    allocations (stmtEvents st) = (stmtLocals st).map fun v => (v.id, v.name)
  | .expression e => allocations_events e
  | .define v e => by
    rw [stmtEvents, allocations_append, allocations_events e, stmtLocals, List.map_append]
    rfl
  | .assign t e => by
    rw [stmtEvents, allocations_append, allocations_append, allocations_events e,
      allocations_events t, stmtLocals, List.map_append]
    exact List.append_nil _
  | .returnValue e => by
    have hnone : allocates? (if e.type.isVoid then .returnVoid else .returnValue e.holder) = none := by
      split <;> rfl
    rw [stmtEvents, allocations_append, allocations_events e, allocations_cons_none hnone, stmtLocals]
    exact List.append_nil _
  | .returnVoid => rfl

theorem allocations_stmtEventsAll : ∀ ss : List TypedStmt,
    allocations (stmtEventsAll ss) = (stmtLocalsAll ss).map fun v => (v.id, v.name)
  | [] => rfl
  | st :: ss => by
    rw [stmtEventsAll, allocations_append, allocations_stmtEvents st, allocations_stmtEventsAll ss,
      stmtLocalsAll, List.map_append]
end

end TypedExpr

/-! ### Functions -/

/-- **A stream respects the slots of a function**, whose parameters have the given identities. -/
structure Event.KeepsSlots (parameters : List ValueId) (slots : List Slot) (es : List Event) :
    Prop where
  /-- Storage is set up before it is written to. -/
  allocated : ∀ before target value after, es = before ++ assign target value :: after →
    target ∈ (allocations before).map Prod.fst
  /-- Every slot is set up, in order, and written to exactly once if it is not mutable. -/
  slots : List.Forall₂ (fun slot storage => storage.2 = slot.name ∧
    (slot.isMutable = false → AssignedOnce es storage.1)) slots (allocations es)
  /-- Parameters are not written to. -/
  parameters : ∀ i ∈ parameters, ∀ e ∈ es, e.assigns? ≠ some i

namespace Setting.Defines

open Event

variable {X : Setting} {f : TypedFunction} {vs : List Variable} {slots : List Slot} {file : String}

/-- The variables of the parameters cannot be changed. -/
theorem isMutable_eq_false (h : X.Defines f vs) : ∀ v ∈ vs, v.type.isMutable = false := by
  intro v hv
  obtain ⟨i, hi, hget⟩ := List.mem_iff_getElem.1 (List.mem_reverse.2 hv)
  have hlen := h.parameters.length_eq
  have hholds := h.parameters.get (i := i) (by omega) hi
  rw [List.get_eq_getElem, List.get_eq_getElem, hget] at hholds
  rw [hholds.type, Ty.isMutable, Ty.flags_withFlags]
  rfl

/-- The events behind the body have nothing to do with storage. -/
theorem silent_closing (f : TypedFunction) :
    ∀ e ∈ f.closing, e.allocates? = none ∧ e.assigns? = none := by
  have hreturn : ∀ e : Event, e.isReturn = true → e.allocates? = none ∧ e.assigns? = none := by
    intro e he
    cases e <;> first | exact ⟨rfl, rfl⟩ | cases he
  refine List.forall_mem_append.2 ⟨?_, List.forall_mem_singleton.2 ⟨rfl, rfl⟩⟩
  split
  · exact fun e he => absurd he List.not_mem_nil
  · refine List.forall_mem_singleton.2 (hreturn _ ?_)
    split <;> rfl

/-- **A function that is defined well respects its slots**, if its identities are different. -/
theorem keepsSlots (h : X.Defines f vs) (hbody : f.body.Mirrors slots)
    (hnodup : (produced (f.events file)).Nodup) :
    KeepsSlots (f.parameters.map (·.id)) slots (f.events file) := by
  -- what may be written to again: the variables of the body that are mutable
  let M : ValueId → Prop := fun i => ∃ v ∈ f.body.locals, v.id = i ∧ v.type.isMutable = true
  have hknows : Knows M [] vs := by
    intro v hv hmutable
    rw [h.isMutable_eq_false v hv] at hmutable
    cases hmutable
  obtain ⟨out, hstored⟩ := TypedExpr.exists_stored f.body h.obeys (hbody.plain vs) hknows
    fun v hv hmutable => ⟨v, hv, rfl, hmutable⟩
  have hrest : Stores M [] (f.body.events ++ f.closing) out :=
    hstored.stores.append (.silent (silent_closing f))
  have hstores : Stores M [] (f.events file) out := by
    rw [f.events_eq]
    exact .other rfl rfl hrest
  have hallocations : allocations (f.events file) = f.body.locals.map fun v => (v.id, v.name) := by
    have hclosing : allocations f.closing = [] :=
      List.filterMap_eq_nil_iff.2 fun e he => (silent_closing f e he).1
    rw [f.events_eq, allocations_cons_none rfl, allocations_append, hclosing, List.append_nil,
      TypedExpr.allocations_events]
  have hids : (allocations (f.events file)).map Prod.fst = f.body.locals.map (·.id) := by
    rw [hallocations, List.map_map]
    rfl
  have hdifferent := hstores.sublist_produced.nodup hnodup
  refine ⟨?_, ?_, ?_⟩
  · intro before target value after heq
    exact (hstores.mem_allocations heq).resolve_left List.not_mem_nil
  · rw [hallocations, ← hbody.slots, List.forall₂_map_left_iff, List.forall₂_map_right_iff,
      List.forall₂_same]
    refine fun v hv => ⟨rfl, fun himmutable => hstores.assignedOnce ?_ hdifferent ?_⟩
    · rintro ⟨w, hw, hid, hmutable⟩
      rw [hids] at hdifferent
      obtain rfl := List.inj_on_of_nodup_map hdifferent hw hv hid
      have himmutable : w.type.isMutable = false := himmutable
      rw [himmutable] at hmutable
      cases hmutable
    · rw [hids]
      exact List.mem_map_of_mem hv
  · -- parameters are produced before the body, so the body does not set them up
    intro i hi
    have hread : i ≠ .unread := by
      rw [Parameter.map_id_of_holds h.parameters] at hi
      obtain ⟨v, hv, rfl⟩ := List.mem_map.1 hi
      exact (h.declares v (List.mem_reverse.1 hv)).read
    have hnew : i ∉ (allocations (f.events file)).map Prod.fst := by
      rw [f.events_eq, produced_cons] at hnodup
      rw [f.events_eq, allocations_cons_none rfl]
      intro hmem
      refine (List.nodup_append.1 hnodup).2.2 i ?_ i (hrest.sublist_produced.subset hmem) rfl
      exact List.mem_filter.2 ⟨hi, decide_eq_true hread⟩
    refine hstores.assigns_ne ?_ hnew
    rintro ⟨w, hw, rfl, -⟩
    rw [hids] at hnew
    exact hnew (List.mem_map_of_mem hw)

end Setting.Defines

/-! ### Modules -/

/-- Proper surroundings have types without qualifiers. -/
theorem Env.Proper.unqualified {X : Setting} {vs : List Variable} {fresh : Fresh} {env : Env}
    (h : env.Proper X vs fresh) : env.Unqualified where
  written _ _ ht := (LookupContext.plain_of_resolveType h.scopes ht).flags
  returned := by
    rw [h.returnType]
    exact X.returnType_plain.2

namespace Signature

variable {env env' : Env} {fresh fresh' : Fresh} {sig : Signature}

theorem unqualified_parameterList {arguments : List Source.Argument} {types : List Ty}
    {parameters : List Parameter} (henv : env.Unqualified)
    (h : parameterList env arguments types fresh = .ok ((parameters, env'), fresh')) :
    env'.Unqualified := by
  induction arguments generalizing env fresh types parameters with
  | nil =>
    cases h
    exact henv
  | cons a as ih =>
    cases types with
    | nil =>
      cases h
      exact henv
    | cons t ts =>
      obtain ⟨range, s₀, -, h⟩ := Analysis.bind_ok h
      obtain ⟨⟨v, env₁⟩, s₁, hdeclare, h⟩ := Analysis.bind_ok h
      obtain ⟨⟨rest, env₂⟩, s₂, hrest, h⟩ := Analysis.bind_ok h
      cases h
      exact ih (henv.declare hdeclare).2 hrest

/-- **An analysed function mirrors the slots of its source.** -/
theorem mirrors_analyze {f : TypedFunction} (henv : env.Unqualified)
    (hr : sig.result.flags = .none) (h : sig.analyze env fresh = .ok (f, fresh')) :
    f.body.Mirrors sig.definition.body.slots := by
  obtain ⟨parameters, inner, s₁, body, b, hparameters, hbody, -, rfl⟩ := exists_body h
  have hinner : (sig.surroundings env).Unqualified := by
    refine Env.Unqualified.enter ?_
    exact ⟨henv.written, hr⟩
  have hhint : Env.UnqualifiedHint sig.expected := by
    unfold expected
    split
    · exact Env.unqualifiedHint_none
    · exact Env.unqualifiedHint_some hr
  have hmirrors := (unqualified_parameterList hinner hparameters).mirrors_block _ hhint hbody
  dsimp only
  split
  · exact hmirrors.discard
  · exact hmirrors

end Signature

namespace Session

variable {cookie : Registration → Nat} {s s' : Session} {options : Options} {m : Source.Module}
  {typed : TypedModule}

/-- **What is not declared mutable is assigned once.**  In the stream of every function of an
analysed module, storage is set up before it is assigned; each variable definition of the source sets
up storage, in order, which is assigned only directly afterwards if the variable is not mutable; and
parameters are never assigned. -/
theorem keepsSlots_events (hs : Reached cookie s) (h : s.analyze options m = .ok (.ok typed, s')) :
    List.Forall₂ (fun (d : Source.FunctionDef) (f : TypedFunction) =>
      Event.KeepsSlots (f.parameters.map (·.id)) d.body.slots (f.events typed.location.file))
      m.functions typed.functions := by
  obtain ⟨env, X, -, -, hfunctions⟩ := hs.exists_implemented h
  refine hfunctions.imp ?_
  rintro _ f ⟨sig, rfl, himplemented⟩
  obtain ⟨fresh, fresh', hp, hanalyze⟩ := himplemented.analyze
  obtain ⟨⟨-, -, -, -, hr, vs, hdefines⟩, hdrew⟩ := Signature.analyze_ok hp himplemented.parameters
    himplemented.result himplemented.arity hanalyze
  have hbody := Signature.mirrors_analyze hp.unqualified himplemented.result.flags hanalyze
  exact hdefines.keepsSlots hbody ((hdrew typed.location.file).values.nodup.of_map _)

/-- A module with one function, which defines a constant and a variable, and assigns to the variable
and to a block that ends in one. -/
def steady : Source.Module :=
  let node : Source.Node := ⟨0, ⟨1, 1, "steady"⟩⟩
  let name (text : String) : Source.Name := ⟨node, text⟩
  let var (text : String) : Source.Expr := .identifier (name text)
  let u32 : Source.TypeExpr := .simple node "U32"
  ⟨node, "steady", [.function
    ⟨node, name "steady", [⟨node, name "x", .simple node "U8"⟩], some u32,
      .value node
        [.define node (name "a") false none (var "x"),
          .define node (name "b") true (some u32) (var "a"),
          .assign node (.block (.value node
            [.define node (name "c") true (some u32) (.number node "1")] (var "c")))
            (.number node "2"),
          .assign node (var "b") (var "a")]
        (var "b")⟩]⟩

set_option maxRecDepth 10000 in
/-- The constant is assigned once, and the two variables may be assigned again. -/
theorem keepsSlots_steady : ∃ typed s', (start fun _ => 0).analyze .default steady =
    .ok (.ok typed, s') ∧
    steady.functions.map (·.body.slots) = [[⟨"a", false⟩, ⟨"b", true⟩, ⟨"c", true⟩]] ∧
    List.Forall₂ (fun (d : Source.FunctionDef) (f : TypedFunction) =>
      Event.KeepsSlots (f.parameters.map (·.id)) d.body.slots (f.events typed.location.file))
      steady.functions typed.functions := by
  obtain ⟨typed, s', h, -⟩ := exists_typed_of_test
    (x := (start fun _ => 0).analyze .default steady) (p := fun _ => true) (by decide +kernel)
  exact ⟨typed, s', h, rfl, keepsSlots_events .start h⟩

end Session

end RangeTyping
