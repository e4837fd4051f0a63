import Mathlib
import RangeTyping.Proofs.Intact.Module
import RangeTyping.Proofs.Order.Module
import RangeTyping.Proofs.Structs.Layout

/-!
# Which structs get defined

A struct of a module can be defined if its members have different names and types that can be read,
and if each of these types has a size once the structs that it holds are defined
(`DeclaredStruct.Definable`).  Rounds of attempts define the least set of structs that is closed
under this rule: what is defined belongs to every closed set
(`DeclaredStruct.Chain.subset_of_closed`), and what is left in the end cannot be defined
(`DeclaredStruct.exists_blamed`).

Each struct that is left is blamed once.  It may be refused in an early round, when fewer structs
were defined, but what was wrong with it then is still wrong in the end
(`DeclaredStruct.define_cases`).
-/

namespace RangeTyping

/-! ### Types that have a size -/

/-- Whether the type has a size when exactly the structs of `L` are defined. -/
def Ty.HasSize (L : Set StructId) : Ty → Prop
  | scalar _ s => s.kind ≠ .void
  | function _ _ _ | pointer _ _ => True
  | array _ t n => t.HasSize L ∧ n ≠ 0
  | struct _ i => i ∈ L

/-- The structs among those that are `declared` that are defined. -/
def StructStore.completed (declared : StructId → Prop) (S : StructStore) : Set StructId :=
  {i | declared i ∧ S.isComplete i}

/-- The structs that are `declared` are in the store, and their layouts have a size. -/
structure StructStore.Holds (declared : StructId → Prop) (S : StructStore) : Prop where
  bound : ∀ i, declared i → i < S.size
  sizes : ∀ i l, declared i → S.layout? i = some l → l.size ≠ 0

namespace Ty

variable {L M : Set StructId} {cookie : Registration → Nat} {declared : StructId → Prop}
  {S T : StructStore}

theorem HasSize.mono (h : L ⊆ M) : ∀ {t : Ty}, t.HasSize L → t.HasSize M
  | .scalar _ _, ht => ht
  | .function _ _ _, _ => trivial
  | .pointer _ _, _ => trivial
  | .array _ t _, ht => ⟨HasSize.mono h (t := t) ht.1, ht.2⟩
  | .struct _ _, ht => h ht

/-- The builtin scalar without values takes no bytes. -/
theorem size_of_void {s : Scalar} (h : s ∈ (BuiltinTypes.ofBackend cookie).all)
    (hv : s.kind = .void) : s.size = 0 := by
  simp only [BuiltinTypes.all, BuiltinTypes.ofBackend, List.mem_cons, List.not_mem_nil,
    or_false] at h
  rcases h with rfl | rfl | rfl | rfl | rfl | rfl | rfl | rfl | rfl | rfl | rfl
  · rfl
  all_goals cases hv

/-- **A type has a size exactly if it is not zero.** -/
theorem size_ne_zero_iff (hS : S.Holds declared) : ∀ {t : Ty},
    t.KnownIn (.ofBackend cookie) declared → (t.size S ≠ 0 ↔ t.HasSize (S.completed declared))
  | .scalar _ s, ht => by
    rw [size, HasSize]
    constructor
    · exact fun hsize hvoid => hsize (size_of_void ht hvoid)
    · intro hkind
      exact Nat.pos_iff_ne_zero.1 (BuiltinTypes.sized_of_mem ht hkind).1
  | .pointer _ _, _ => iff_of_true (by decide : pointerSize ≠ 0) trivial
  | .array _ t n, ht => by
    rw [size, HasSize, ← size_ne_zero_iff hS (t := t) ht.1, ← Nat.mul_ne_zero_iff]
    -- a product that is too large is cut off, but not to zero
    have hmax : maxSize ≠ 0 := by decide
    omega
  | .struct _ i, ht => by
    have hdeclared : declared i := ht
    rw [size, HasSize]
    cases hl : S.layout? i with
    | none => simp [StructStore.completed, StructStore.isComplete, hl]
    | some l =>
      have hsize := hS.sizes i l ht hl
      simp [StructStore.completed, StructStore.isComplete, hl, hsize, hdeclared]

end Ty

/-! ### Structs that can be defined -/

namespace DeclaredStruct

variable {cookie : Registration → Nat} {declared : StructId → Prop} {c : LookupContext}
  {S T : StructStore} {L M : Set StructId} {d : DeclaredStruct} {i : StructId}
  {written : List Source.MemberDef} {ms : List (String × Ty)}

/-- **The struct can be defined when exactly the structs of `L` are**: its members have different
names, their types can be read, and these types have a size. -/
structure Definable (c : LookupContext) (L : Set StructId) (d : DeclaredStruct) : Prop where
  distinct : (d.definition.members.map (·.name.text)).Nodup
  sizes : ∀ m ∈ d.definition.members, ∃ t, c.resolveType m.type = .ok t ∧ t.HasSize L

/-- The set holds every one of the structs that can be defined when the set is. -/
def Closed (c : LookupContext) (ds : List DeclaredStruct) (L : Set StructId) : Prop :=
  ∀ d ∈ ds, ∀ i, d.id? = some i → Definable c L d → i ∈ L

theorem Definable.mono (h : L ⊆ M) (hd : Definable c L d) : Definable c M d := by
  refine ⟨hd.distinct, fun m hm => ?_⟩
  obtain ⟨t, ht, hsize⟩ := hd.sizes m hm
  exact ⟨t, ht, hsize.mono h⟩

/-- Members that can be read are those that are written, each with the type that is read. -/
theorem members_ok (h : members c written = .ok ms) :
    ms.map (·.1) = written.map (·.name.text) ∧
      (∀ w ∈ written, ∃ m ∈ ms, c.resolveType w.type = .ok m.2) ∧
      ∀ m ∈ ms, ∃ w ∈ written, c.resolveType w.type = .ok m.2 := by
  induction written generalizing ms with
  | nil =>
    cases h
    simp
  | cons w rest ih =>
    obtain ⟨t, ht, h⟩ := Outcome.bind_ok h
    obtain ⟨ts, hts, h⟩ := Outcome.bind_ok h
    cases h
    obtain ⟨hnames, hread, hwritten⟩ := ih hts
    simp only [List.map_cons, List.forall_mem_cons, List.exists_mem_cons_iff, hnames, ht, true_or,
      true_and]
    exact ⟨fun w' hw' => .inr (hread w' hw'), fun m hm => .inr (hwritten m hm)⟩

/-- If members cannot be read, the type of one of them cannot. -/
theorem members_error {e : Diagnostic} (h : members c written = .error e) :
    ∃ w ∈ written, c.resolveType w.type = .error e := by
  induction written with
  | nil => cases h
  | cons w rest ih =>
    rw [members] at h
    cases ht : c.resolveType w.type with
    | error e' =>
      rw [ht] at h
      cases h
      exact ⟨w, List.mem_cons_self .., ht⟩
    | ok t =>
      rw [ht] at h
      cases hrest : members c rest with
      | ok ts =>
        simp only [hrest, bind, Except.bind] at h
        cases h
      | error e' =>
        simp only [hrest, bind, Except.bind] at h
        cases h
        obtain ⟨w', hw', herror⟩ := ih hrest
        exact ⟨w', List.mem_cons_of_mem _ hw', herror⟩

/-- Definability in terms of the members that are read. -/
theorem definable_iff (h : members c d.definition.members = .ok ms) :
    Definable c L d ↔ (ms.map (·.1)).Nodup ∧ ∀ m ∈ ms, m.2.HasSize L := by
  obtain ⟨hnames, hread, hwritten⟩ := members_ok h
  rw [hnames]
  constructor
  · rintro ⟨hdistinct, hsizes⟩
    refine ⟨hdistinct, fun m hm => ?_⟩
    obtain ⟨w, hw, hm⟩ := hwritten m hm
    obtain ⟨t, ht, hsize⟩ := hsizes w hw
    cases hm.symm.trans ht
    exact hsize
  · rintro ⟨hdistinct, hsizes⟩
    refine ⟨hdistinct, fun w hw => ?_⟩
    obtain ⟨m, hm, ht⟩ := hread w hw
    exact ⟨m.2, ht, hsizes m hm⟩

end DeclaredStruct

/-! ### Stores that grow -/

/-- The store `T` has all layouts of `S`, and perhaps more. -/
structure StructStore.Grows (S T : StructStore) : Prop where
  names : ∀ i, T.name? i = S.name? i
  layouts : ∀ i l, S.layout? i = some l → T.layout? i = some l

namespace StructStore.Grows

variable {S T U : StructStore} {i : StructId}

theorem refl (S : StructStore) : S.Grows S := ⟨fun _ => rfl, fun _ _ h => h⟩

theorem trans (h : S.Grows T) (h' : T.Grows U) : S.Grows U :=
  ⟨fun i => (h'.names i).trans (h.names i), fun i l hl => h'.layouts i l (h.layouts i l hl)⟩

theorem setLayout (hi : i < S.size) (hnone : S.layout? i = none) (l : Layout) :
    S.Grows (S.setLayout i l) := by
  refine ⟨fun _ => name?_setLayout l, fun j l' hl' => ?_⟩
  rw [layout?_setLayout hi, if_neg, hl']
  rintro rfl
  rw [hnone] at hl'
  cases hl'

/-- Giving a struct the layout that it has in the larger store keeps the order. -/
theorem setLayout_left {l : Layout} (h : S.Grows T) (hl : T.layout? i = some l) :
    (S.setLayout i l).Grows T := by
  refine ⟨fun j => (h.names j).trans (name?_setLayout l).symm, fun j l' hl' => ?_⟩
  simp only [StructStore.setLayout, layout?, Array.getElem?_modify] at hl'
  split at hl'
  · rename_i hij
    obtain ⟨body, hmap, hbody⟩ := Option.bind_eq_some_iff.1 hl'
    obtain ⟨old, -, rfl⟩ := Option.map_eq_some_iff.1 hmap
    rw [← hij, hl]
    exact hbody
  · exact h.layouts j l' hl'

/-- A type that has a size keeps it, with its alignment. -/
theorem size_eq (h : S.Grows T) {t : Ty} (hsize : t.size S ≠ 0) :
    t.size T = t.size S ∧ t.alignment T = t.alignment S := by
  refine Ty.size_congr fun i hi => ?_
  obtain ⟨l, hl⟩ := Option.ne_none_iff_exists'.1 (Ty.layout_ne_none_of_held hi hsize)
  rw [hl, h.layouts i l hl]

end StructStore.Grows

/-! ### One attempt -/

namespace Placement

variable {S T : StructStore} {p : Placement} {struct : String} {members : List (String × Ty)}
  {e : TypeError}

/-- **Why members cannot be placed.**  Two of them have the same name, and this shows also in a
store that has grown; or one of them has no size. -/
theorem addAll_fail (h : p.addAll S struct members = .fail e) :
    (∃ member, e = .duplicateMember struct member ∧
      ¬ (p.members.map (·.name) ++ members.map (·.1)).Nodup ∧
      ∀ T, S.Grows T → p.addAll T struct members = .fail e) ∨
    (∃ member text, e = .incompleteMember struct member text) ∧ ∃ m ∈ members, m.2.size S = 0 := by
  induction members generalizing p with
  | nil => cases h
  | cons m rest ih =>
    obtain ⟨name, type⟩ := m
    rw [addAll_cons] at h
    split at h
    · rename_i hold
      cases h
      refine .inl ⟨name, rfl, fun hnodup => ?_, fun T _ => ?_⟩
      · exact (List.nodup_append.1 hnodup).2.2 name (any_name_iff.1 hold) name
          (List.mem_cons_self ..) rfl
      · rw [addAll_cons, if_pos hold]
    rename_i hnew
    split at h
    · rename_i hzero
      cases h
      exact .inr ⟨⟨_, _, rfl⟩, _, List.mem_cons_self .., hzero⟩
    rename_i hsize
    split at h
    · rename_i q hadd
      have hnames : q.members.map (·.name) = p.members.map (·.name) ++ [name] := by
        rcases Nat.lt_or_ge (stopFrom S p.next type) wordCount with hstop | hstop
        · rw [add_of_lt name hstop] at hadd
          cases hadd
          exact map_name_append _ _ _ _
        · obtain ⟨op, hop⟩ := add_of_le name hstop
          rw [hop] at hadd
          cases hadd
      rcases ih h with ⟨member, rfl, hnodup, hstays⟩ | ⟨hincomplete, m, hm, hzero⟩
      · refine .inl ⟨member, rfl, ?_, fun T hT => ?_⟩
        · rwa [hnames, List.append_assoc] at hnodup
        · -- this member is placed alike in the larger store, so the second of the name is met there
          obtain ⟨hsizeT, halignmentT⟩ := hT.size_eq hsize
          have hadd' : p.add T name type = .ok q := by
            rw [← hadd]
            simp only [add, hsizeT, halignmentT]
          rw [addAll_cons, if_neg hnew, if_neg (hsizeT ▸ hsize), hadd']
          exact hstays T hT
      · exact .inr ⟨hincomplete, m, List.mem_cons_of_mem _ hm, hzero⟩
    · cases h

end Placement

namespace Layout

variable {S : StructStore} {struct : String} {members : List (String × Ty)} {l : Layout}
  {e : TypeError}

/-- A layout has at least one byte. -/
theorem size_ne_zero (h : ofMembers S struct members = .ok l) : l.size ≠ 0 := by
  obtain ⟨-, -, rfl⟩ := ofMembers_eq_ok_iff.1 h
  exact Nat.pos_iff_ne_zero.1 (Nat.le_max_right _ 1)

/-- **Why members have no layout**, unless they overflow. -/
theorem ofMembers_fail (h : ofMembers S struct members = .fail e) :
    (∃ member, e = .duplicateMember struct member ∧ ¬ (members.map (·.1)).Nodup ∧
      ∀ T, S.Grows T → ofMembers T struct members = .fail e) ∨
    (∃ member text, e = .incompleteMember struct member text) ∧ ∃ m ∈ members, m.2.size S = 0 := by
  rcases Outcome.bind_error h with hfail | ⟨placed, -, hlayout⟩
  · refine (Placement.addAll_fail hfail).imp_left ?_
    rintro ⟨member, rfl, hnodup, hstays⟩
    refine ⟨member, rfl, hnodup, fun T hT => ?_⟩
    rw [ofMembers, hstays T hT]
    rfl
  · exact absurd hlayout Outcome.ofInternal_ne_error

end Layout

/-- The types that can be read are built from builtin scalars and from structs that are
`declared`. -/
def LookupContext.Reads (cookie : Registration → Nat) (declared : StructId → Prop)
    (c : LookupContext) : Prop :=
  ∀ written t, c.resolveType written = .ok t → t.KnownIn (.ofBackend cookie) declared

theorem StructStore.Holds.setLayout {declared : StructId → Prop} {S : StructStore} {i : StructId}
    (h : S.Holds declared) (hi : declared i) {l : Layout} (hl : l.size ≠ 0) :
    (S.setLayout i l).Holds declared := by
  refine ⟨fun j hj => ?_, fun j l' hj hl' => ?_⟩
  · rw [size_setLayout]
    exact h.bound j hj
  · rw [layout?_setLayout (h.bound i hi)] at hl'
    split at hl'
    · cases hl'
      exact hl
    · exact h.sizes j l' hj hl'

namespace DeclaredStruct

variable {cookie : Registration → Nat} {declared : StructId → Prop} {c : LookupContext}
  {S T F : StructStore} {L : Set StructId} {d : DeclaredStruct} {i j : StructId}
  {ds pending : List DeclaredStruct} {errors : List Diagnostic}

/-- What is wrong with a struct that is not defined. -/
def Attempt.complaint? : Attempt → Option Diagnostic
  | defined => none
  | deferred d | refused d => some d

/-- **What comes of an attempt.**  The struct is defined if it can be, unless it overflows.  Otherwise
it has to wait, or it can never be defined, and then the same is wrong with it in every store that has
grown. -/
theorem define_cases (hc : c.Reads cookie declared) (hS : S.Holds declared) (hi : d.id? = some i)
    (hnone : S.layout? i = none) :
    (∃ l, l.size ≠ 0 ∧ define c S d = .ok (.defined, S.setLayout i l) ∧
      Definable c (S.completed declared) d) ∨
    (∃ e, define c S d = .ok (.deferred e, S) ∧ ¬ Definable c (S.completed declared) d) ∨
    (∃ e, (∀ L, ¬ Definable c L d) ∧
      ∀ T, S.Grows T → T.layout? i = none → define c T d = .ok (.refused e, T)) ∨
    ∃ e, define c S d = .error e := by
  cases hms : members c d.definition.members with
  | error e =>
    obtain ⟨w, hw, herror⟩ := members_error hms
    refine .inr (.inr (.inl ⟨e, fun L hd => ?_, fun T _ _ => by rw [define, hms]⟩))
    obtain ⟨t, ht, -⟩ := hd.sizes w hw
    rw [herror] at ht
    cases ht
  | ok ms =>
    have hsizes : ∀ m ∈ ms, (m.2.size S ≠ 0 ↔ m.2.HasSize (S.completed declared)) := by
      intro m hm
      obtain ⟨w, -, ht⟩ := (members_ok hms).2.2 m hm
      exact Ty.size_ne_zero_iff hS (hc _ _ ht)
    rw [define_of_members hi hms hnone]
    cases hlayout : Layout.ofMembers S (S.displayName i) ms with
    | ok l =>
      obtain ⟨hplaceable, -, -⟩ := Layout.ofMembers_eq_ok_iff.1 hlayout
      refine .inl ⟨l, Layout.size_ne_zero hlayout, rfl, (definable_iff hms).2 ?_⟩
      exact ⟨hplaceable.distinct, fun m hm => (hsizes m hm).1 (hplaceable.sizes m hm)⟩
    | error failure =>
      cases failure with
      | internal e => exact .inr (.inr (.inr ⟨e, rfl⟩))
      | error e =>
        rcases Layout.ofMembers_fail hlayout with
          ⟨member, rfl, hnodup, hstays⟩ | ⟨⟨member, text, rfl⟩, m, hm, hzero⟩
        · -- a name stands twice, in whatever store
          refine .inr (.inr (.inl ⟨⟨.type (.duplicateMember (S.displayName i) member),
            d.definition.node.location⟩, fun L hd => hnodup ((definable_iff hms).1 hd).1, ?_⟩))
          intro T hT hTnone
          have hname : T.displayName i = S.displayName i := by
            rw [StructStore.displayName, hT.names i]
            rfl
          rw [define_of_members hi hms hTnone, hname, hstays T hT]
          rfl
        · -- a member has no size yet
          refine .inr (.inl ⟨_, rfl, fun hd => ?_⟩)
          exact (hsizes m hm).2 (((definable_iff hms).1 hd).2 m hm) hzero

/-! ### What gets defined -/

namespace Chain

/-- The structs of a chain are defined in the end, and no others get defined. -/
theorem layout?_ne_none_iff (h : Chain c S ds F)
    (hbound : ∀ d ∈ ds, ∀ i, d.id? = some i → i < S.size) :
    F.layout? j ≠ none ↔ S.layout? j ≠ none ∨ ∃ d ∈ ds, d.id? = some j := by
  induction h with
  | nil => simp
  | cons hd _ ih =>
    rw [List.forall_mem_cons] at hbound
    obtain ⟨i, ms, l, hi, -, -, -, rfl⟩ := define_defined hd
    rw [ih (by simpa using hbound.2), StructStore.layout?_setLayout (hbound.1 i hi),
      List.exists_mem_cons_iff, hi, ← or_assoc]
    refine or_congr_left ?_
    split
    · rename_i hij
      simp [hij]
    · rename_i hij
      simp [hij]

/-- Along a chain the store grows. -/
theorem grows (h : Chain c S ds F) (hS : S.Holds declared)
    (hds : ∀ d ∈ ds, ∀ i, d.id? = some i → declared i) : S.Grows F ∧ F.Holds declared := by
  induction h with
  | nil S => exact ⟨.refl S, hS⟩
  | cons hd _ ih =>
    rw [List.forall_mem_cons] at hds
    obtain ⟨i, ms, l, hi, -, hnone, hl, rfl⟩ := define_defined hd
    have hi := hds.1 i hi
    obtain ⟨hgrows, hF⟩ := ih (hS.setLayout hi (Layout.size_ne_zero hl)) hds.2
    exact ⟨(StructStore.Grows.setLayout (hS.bound i hi) hnone _).trans hgrows, hF⟩

/-- **What is defined belongs to every closed set.** -/
theorem subset_of_closed (h : Chain c S ds F) (hc : c.Reads cookie declared)
    (hS : S.Holds declared) (hds : ∀ d ∈ ds, ∀ i, d.id? = some i → declared i)
    (hclosed : Closed c ds L) (hsub : S.completed declared ⊆ L) : F.completed declared ⊆ L := by
  induction h with
  | nil => exact hsub
  | @cons S T F d ds hd _ ih =>
    rw [List.forall_mem_cons] at hds
    obtain ⟨i, ms, l, hi, -, hnone, hl, rfl⟩ := define_defined hd
    have hi' := hds.1 i hi
    have hdefinable : Definable c (S.completed declared) d := by
      rcases define_cases hc hS hi hnone with ⟨-, -, -, h⟩ | ⟨e, h, -⟩ | ⟨e, -, h⟩ | ⟨e, h⟩
      · exact h
      · rw [hd] at h
        cases h
      · rw [h S (.refl S) hnone] at hd
        cases hd
      · rw [hd] at h
        cases h
    refine ih (hS.setLayout hi' (Layout.size_ne_zero hl)) hds.2 ?_ ?_
    · exact fun e he => hclosed e (List.mem_cons_of_mem _ he)
    · rintro j ⟨hj, hcomplete⟩
      rw [StructStore.isComplete, StructStore.layout?_setLayout (hS.bound i hi')] at hcomplete
      split at hcomplete
      · rename_i hij
        exact hij ▸ hclosed d (List.mem_cons_self ..) i hi (hdefinable.mono hsub)
      · exact hsub ⟨hj, hcomplete⟩

end Chain

/-! ### Rounds -/

/-- The structs are declared under different numbers and not defined yet. -/
structure Pending (declared : StructId → Prop) (S : StructStore) (pending : List DeclaredStruct) :
    Prop where
  ids : ∀ d ∈ pending, ∃ i, d.id? = some i ∧ declared i ∧ S.layout? i = none
  distinct : (pending.map id?).Nodup

theorem Pending.declared_of_id (h : Pending declared S pending) (hd : d ∈ pending)
    (hi : d.id? = some i) : declared i := by
  obtain ⟨j, hj, hdeclared, -⟩ := h.ids d hd
  cases hj.symm.trans hi
  exact hdeclared

/-- The first of the structs are declared, in whatever order all of them are. -/
theorem Pending.declared_left {done rest : List DeclaredStruct} (h : Pending declared S pending)
    (hperm : (done ++ rest).Perm pending) : ∀ d ∈ done, ∀ i, d.id? = some i → declared i :=
  fun _ hd _ hi => h.declared_of_id (hperm.subset (List.mem_append_left _ hd)) hi

theorem Pending.tail (h : Pending declared S (d :: pending)) : Pending declared S pending :=
  ⟨(List.forall_mem_cons.1 h.ids).2, (List.nodup_cons.1 h.distinct).2⟩

theorem Pending.perm (h : Pending declared S pending) (hperm : ds.Perm pending) :
    Pending declared S ds :=
  ⟨fun d hd => h.ids d (hperm.subset hd), (hperm.map id?).nodup_iff.2 h.distinct⟩

/-- **Structs that do not belong to a chain are still to be defined** after it. -/
theorem Pending.right (done : List DeclaredStruct) (h : Pending declared S (done ++ pending))
    (hS : S.Holds declared) (hchain : Chain c S done F) : Pending declared F pending := by
  have hdistinct := h.distinct
  rw [List.map_append, List.nodup_append] at hdistinct
  refine ⟨fun d hd => ?_, hdistinct.2.1⟩
  obtain ⟨i, hi, hdeclared, hnone⟩ := h.ids d (List.mem_append_right _ hd)
  refine ⟨i, hi, hdeclared, by_contra fun hne => ?_⟩
  have hbound : ∀ e ∈ done, ∀ j, e.id? = some j → j < S.size := fun e he j hj =>
    hS.bound j (h.declared_of_id (List.mem_append_left _ he) hj)
  rcases (hchain.layout?_ne_none_iff hbound).1 hne with hne | ⟨e, he, hei⟩
  · exact hne hnone
  · refine hdistinct.2.2 _ (List.mem_map_of_mem he) _ (List.mem_map_of_mem hd) ?_
    rw [hei, hi]

/-- The struct was refused with a diagnostic when the store was `S`: it can never be defined, and
the diagnostic stays right. -/
structure Hopeless (c : LookupContext) (S : StructStore) (p : DeclaredStruct × Diagnostic) :
    Prop where
  never : ∀ L, ¬ Definable c L p.1
  stays : ∀ T i, p.1.id? = some i → S.Grows T → T.layout? i = none →
    define c T p.1 = .ok (.refused p.2, T)

/-- **What comes of a round**: some structs are defined one after another, some are hopeless, and
the others wait. -/
theorem exists_of_round {r : Round} (hc : c.Reads cookie declared) (hS : S.Holds declared)
    (h : Pending declared S pending) (hround : round c S pending = .ok r) :
    ∃ (done : List DeclaredStruct) (blamed : List (DeclaredStruct × Diagnostic)),
      Chain c S done r.structs ∧ blamed.map (·.2) = r.refused ∧
      (done ++ (blamed.map (·.1) ++ r.deferred.map (·.1))).Perm pending ∧
      ∀ p ∈ blamed, Hopeless c r.structs p := by
  induction pending generalizing S r with
  | nil =>
    cases hround
    exact ⟨[], [], .nil S, rfl, .refl _, fun p hp => absurd hp List.not_mem_nil⟩
  | cons d rest ih =>
    obtain ⟨attempt, T, r, hdefine, hround, rfl⟩ := round_cons_ok hround
    obtain ⟨i, hi, hdeclared, hnone⟩ := h.ids d (List.mem_cons_self ..)
    rcases define_cases hc hS hi hnone with
      ⟨l, hl, hd, -⟩ | ⟨e, hd, -⟩ | ⟨e, hnever, hstays⟩ | ⟨e, hd⟩
    · -- it is defined
      have hrest := h.right [d] hS (.cons hd (.nil _))
      cases hd.symm.trans hdefine
      obtain ⟨done, blamed, hchain, hblamed, hperm, hhopeless⟩ :=
        ih (hS.setLayout hdeclared hl) hrest hround
      exact ⟨d :: done, blamed, .cons hd hchain, hblamed, hperm.cons d, hhopeless⟩
    · -- it waits
      cases hd.symm.trans hdefine
      obtain ⟨done, blamed, hchain, hblamed, hperm, hhopeless⟩ := ih hS h.tail hround
      refine ⟨done, blamed, hchain, hblamed, ?_, hhopeless⟩
      show (done ++ (blamed.map (·.1) ++ d :: r.deferred.map (·.1))).Perm _
      rw [← List.append_assoc]
      refine List.perm_middle.trans (.cons d ?_)
      rwa [List.append_assoc]
    · -- it is hopeless, and remains so as the store grows
      cases (hstays S (.refl S) hnone).symm.trans hdefine
      obtain ⟨done, blamed, hchain, hblamed, hperm, hhopeless⟩ := ih hS h.tail hround
      refine ⟨done, (d, e) :: blamed, hchain, ?_, ?_, ?_⟩
      · rw [List.map_cons, hblamed]
        rfl
      · exact List.perm_middle.trans (.cons d hperm)
      · rw [List.forall_mem_cons]
        refine ⟨⟨hnever, fun T j hj hT => ?_⟩, hhopeless⟩
        cases hj.symm.trans hi
        exact hstays T ((hchain.grows hS (h.tail.declared_left hperm)).1.trans hT)
    · cases hd.symm.trans hdefine

theorem length_deferred_le {r : Round} (h : round c S pending = .ok r) :
    r.deferred.length ≤ pending.length := by
  induction pending generalizing S r with
  | nil =>
    cases h
    exact le_rfl
  | cons d rest ih =>
    obtain ⟨attempt, T, r, -, hround, rfl⟩ := round_cons_ok h
    cases attempt with
    | defined | refused _ => exact (ih hround).trans (Nat.le_succ _)
    | deferred _ => exact Nat.succ_le_succ (ih hround)

/-- **A round that defers all structs changes nothing.** -/
theorem round_of_stuck {r : Round} (hround : round c S pending = .ok r)
    (h : pending.length ≤ r.deferred.length) :
    r.structs = S ∧ r.refused = [] ∧ r.deferred.map (·.1) = pending ∧
      ∀ p ∈ r.deferred, define c S p.1 = .ok (.deferred p.2, S) := by
  induction pending generalizing S r with
  | nil =>
    cases hround
    exact ⟨rfl, rfl, rfl, fun p hp => absurd hp List.not_mem_nil⟩
  | cons d rest ih =>
    obtain ⟨attempt, T, r, hdefine, hrest, rfl⟩ := round_cons_ok hround
    have hle : r.deferred.length ≤ rest.length := length_deferred_le hrest
    cases attempt with
    | defined | refused _ => exact absurd h (Nat.not_le.2 (Nat.lt_succ_of_le hle))
    | deferred e =>
      rcases define_ok hdefine with ⟨heq, -⟩ | ⟨-, rfl⟩
      · cases heq
      obtain ⟨hstructs, hrefused, hdeferred, hall⟩ := ih hrest (Nat.le_of_succ_le_succ h)
      refine ⟨hstructs, hrefused, ?_, List.forall_mem_cons.2 ⟨hdefine, hall⟩⟩
      show d :: r.deferred.map (·.1) = _
      rw [hdeferred]

/-- The struct is not defined in the store `S`, for what the diagnostic says. -/
def Blamed (c : LookupContext) (S : StructStore) (p : DeclaredStruct × Diagnostic) : Prop :=
  ∃ attempt, define c S p.1 = .ok (attempt, S) ∧ attempt.complaint? = some p.2

/-- **The structs that are not defined in the end** can not be, and each is blamed once for what is
wrong with it. -/
theorem exists_blamed (hc : c.Reads cookie declared) (hS : S.Holds declared)
    (h : Pending declared S pending) (hrun : defineAll c S pending = .ok (F, errors)) :
    ∃ (done : List DeclaredStruct) (blamed : List (DeclaredStruct × Diagnostic)),
      Chain c S done F ∧ blamed.map (·.2) = errors ∧ (done ++ blamed.map (·.1)).Perm pending ∧
      ∀ p ∈ blamed, ¬ Definable c (F.completed declared) p.1 ∧ Blamed c F p := by
  refine defineAll_induction (P := fun S pending F errors => S.Holds declared →
    Pending declared S pending →
    ∃ (done : List DeclaredStruct) (blamed : List (DeclaredStruct × Diagnostic)),
      Chain c S done F ∧ blamed.map (·.2) = errors ∧ (done ++ blamed.map (·.1)).Perm pending ∧
      ∀ p ∈ blamed, ¬ Definable c (F.completed declared) p.1 ∧ Blamed c F p) ?_ ?_ hrun hS h
  · intro S F pending r errors hround _ _ ih hS h
    obtain ⟨done, blamed, hchain, hblamed, hperm, hhopeless⟩ := exists_of_round hc hS h hround
    obtain ⟨hgrows, hS'⟩ := hchain.grows hS (h.declared_left hperm)
    -- what the round left waits for the rounds that follow
    have hleft := (h.perm hperm).right done hS hchain
    have hrest : Pending declared r.structs (r.deferred.map (·.1)) :=
      ⟨fun d hd => hleft.ids d (List.mem_append_right _ hd),
        (List.nodup_append.1 (List.map_append ▸ hleft.distinct)).2.1⟩
    obtain ⟨done', blamed', hchain', hblamed', hperm', hblame⟩ := ih hS' hrest
    have hall : (done ++ done' ++ (blamed ++ blamed').map (·.1)).Perm pending := by
      rw [List.map_append, List.append_assoc]
      refine (List.Perm.append_left done ?_).trans hperm
      exact (List.perm_append_comm_assoc ..).trans (hperm'.append_left _)
    have hopen := (h.perm hall).right _ hS (hchain.append hchain')
    refine ⟨done ++ done', blamed ++ blamed', hchain.append hchain', ?_, hall, ?_⟩
    · rw [List.map_append, hblamed, hblamed']
    · rw [List.forall_mem_append]
      refine ⟨fun p hp => ?_, hblame⟩
      obtain ⟨i, hi, -, hnone⟩ := hopen.ids p.1 (by
        rw [List.map_append]
        exact List.mem_append_left _ (List.mem_map_of_mem hp))
      have hgrows' := (hchain'.grows hS' (hrest.declared_left hperm')).1
      -- what was refused in this round would be refused in the end
      exact ⟨(hhopeless p hp).never _, _, (hhopeless p hp).stays F i hi hgrows' hnone, rfl⟩
  · intro S pending r hround hlt hS h
    obtain ⟨hstructs, hrefused, hdeferred, hall⟩ := round_of_stuck hround (Nat.not_lt.1 hlt)
    -- the store stays the same, so all structs that wait are blamed for what is wrong with them now
    refine ⟨[], r.deferred, ?_, ?_, ?_, fun p hp => ?_⟩
    · rw [hstructs]
      exact .nil S
    · rw [hrefused, List.nil_append]
    · rw [hdeferred, List.nil_append]
    · obtain ⟨i, hi, -, hnone⟩ := h.ids p.1 (hdeferred ▸ List.mem_map_of_mem hp)
      rw [hstructs]
      refine ⟨?_, _, hall p hp, rfl⟩
      rcases define_cases hc hS hi hnone with
        ⟨l, -, hd, -⟩ | ⟨e, -, hd⟩ | ⟨e, hnever, -⟩ | ⟨e, hd⟩
      · cases hd.symm.trans (hall p hp)
      · exact hd
      · exact hnever _
      · cases hd.symm.trans (hall p hp)

/-- **What is defined in the end is the least closed set**, if nothing was defined before. -/
theorem isLeast_completed (hc : c.Reads cookie declared) (hS : S.Holds declared)
    (h : Pending declared S pending) (hempty : S.completed declared = ∅)
    (hrun : defineAll c S pending = .ok (F, errors)) :
    IsLeast {L | Closed c pending L} (F.completed declared) := by
  obtain ⟨done, blamed, hchain, -, hperm, hblame⟩ := exists_blamed hc hS h hrun
  have hdone := h.declared_left hperm
  have hbound : ∀ e ∈ done, ∀ j, e.id? = some j → j < S.size := fun e he j hj =>
    hS.bound j (hdone e he j hj)
  constructor
  · intro d hd i hi hdefinable
    rcases List.mem_append.1 (hperm.symm.subset hd) with hd' | hd'
    · refine ⟨h.declared_of_id hd hi, Option.isSome_iff_ne_none.2 ?_⟩
      exact (hchain.layout?_ne_none_iff hbound).2 (.inr ⟨d, hd', hi⟩)
    · obtain ⟨p, hp, rfl⟩ := List.mem_map.1 hd'
      exact absurd hdefinable (hblame p hp).1
  · intro L hL
    refine hchain.subset_of_closed hc hS hdone (fun e he => hL e ?_) (hempty ▸ Set.empty_subset L)
    exact hperm.subset (List.mem_append_left _ he)

/-- Whether the struct is defined. -/
def isComplete (T : StructStore) (d : DeclaredStruct) : Bool := d.id?.any T.isComplete

/-- **Exactly the structs that are not defined are blamed**, each once. -/
theorem exists_blamed_perm (hc : c.Reads cookie declared) (hS : S.Holds declared)
    (h : Pending declared S pending) (hrun : defineAll c S pending = .ok (F, errors)) :
    ∃ blamed : List (DeclaredStruct × Diagnostic), blamed.map (·.2) = errors ∧
      (blamed.map (·.1)).Perm (pending.filter fun d => !d.isComplete F) ∧
      ∀ p ∈ blamed, Blamed c F p := by
  obtain ⟨done, blamed, hchain, hblamed, hperm, hblame⟩ := exists_blamed hc hS h hrun
  refine ⟨blamed, hblamed, ?_, fun p hp => (hblame p hp).2⟩
  have hopen := (h.perm hperm).right done hS hchain
  have hbound : ∀ e ∈ done, ∀ j, e.id? = some j → j < S.size := fun e he j hj =>
    hS.bound j (h.declared_left hperm e he j hj)
  -- what was defined is complete, and what is blamed is not
  have hdone : done.filter (fun d => !d.isComplete F) = [] := by
    refine List.filter_eq_nil_iff.2 fun d hd => ?_
    obtain ⟨i, hi, -⟩ := h.ids d (hperm.subset (List.mem_append_left _ hd))
    have hne := (hchain.layout?_ne_none_iff hbound).2 (.inr ⟨d, hd, hi⟩)
    simp [isComplete, hi, StructStore.isComplete, Option.isSome_iff_ne_none.2 hne]
  have hleft : (blamed.map (·.1)).filter (fun d => !d.isComplete F) = blamed.map (·.1) := by
    refine List.filter_eq_self.2 fun d hd => ?_
    obtain ⟨i, hi, -, hnone⟩ := hopen.ids d hd
    simp [isComplete, hi, StructStore.isComplete, hnone]
  have hfilter := hperm.filter fun d => !d.isComplete F
  rwa [List.filter_append, hdone, hleft, List.nil_append] at hfilter

/-- **The loop over rounds**, with their number: it stops when nothing is left to define and after a
round that defers all structs. -/
inductive Rounds (c : LookupContext) :
    Nat → StructStore → List DeclaredStruct → StructStore → List Diagnostic → Prop where
  | done (S : StructStore) : Rounds c 0 S [] S []
  | stuck {S : StructStore} {pending : List DeclaredStruct} {r : Round} (hne : pending ≠ [])
      (hround : round c S pending = .ok r) (h : r.deferred.length = pending.length) :
      Rounds c 1 S pending r.structs (r.refused ++ r.deferred.map (·.2))
  | again {n : Nat} {S T : StructStore} {pending : List DeclaredStruct} {r : Round}
      {errors : List Diagnostic} (hround : round c S pending = .ok r)
      (h : r.deferred.length < pending.length)
      (rest : Rounds c n r.structs (r.deferred.map (·.1)) T errors) :
      Rounds c (n + 1) S pending T (r.refused ++ errors)

/-- **The loop ends** after at most as many rounds as there are structs. -/
theorem exists_rounds (hrun : defineAll c S pending = .ok (F, errors)) :
    ∃ n ≤ pending.length, Rounds c n S pending F errors := by
  refine defineAll_induction (P := fun S pending F errors =>
    ∃ n ≤ pending.length, Rounds c n S pending F errors) ?_ ?_ hrun
  · rintro S F pending r errors hround hlt - ⟨n, hn, hrounds⟩
    rw [List.length_map] at hn
    exact ⟨n + 1, hn.trans_lt hlt, .again hround hlt hrounds⟩
  · intro S pending r hround hlt
    by_cases hnil : pending = []
    · subst hnil
      cases hround
      exact ⟨0, le_rfl, .done S⟩
    · refine ⟨1, List.length_pos_of_ne_nil hnil, .stuck hnil hround ?_⟩
      exact Nat.le_antisymm (length_deferred_le hround) (Nat.not_lt.1 hlt)

/-! ### The structs of a module -/

/-- Structs that are declared have different numbers and no layouts yet. -/
theorem of_collect_declare {defs : List Source.StructDef} {c' : LookupContext}
    {errors : List Diagnostic} (h : collect declare (S, c) defs = .ok (ds, errors, T, c')) :
    (ds.map id?).Nodup ∧ ∀ d ∈ ds, ∃ i, d.type = .struct .none i ∧ i < T.size ∧
      T.layout? i = none := by
  refine collect_induction (I := fun ds s => (ds.map id?).Nodup ∧
    ∀ d ∈ ds, ∃ i, d.type = .struct .none i ∧ i < s.1.size ∧ s.1.layout? i = none) h
    ⟨List.nodup_nil, fun d hd => absurd hd List.not_mem_nil⟩ ?_
  rintro ds ⟨S, c⟩ definition d ⟨S', c'⟩ - ⟨hnodup, hids⟩ hd
  obtain ⟨rfl, rfl, -, -⟩ := declare_ok hd
  have hsize : (S.declare (some definition.name.text)).1.size = S.size + 1 := by
    simp [StructStore.declare, StructStore.size]
  have hlayout : ∀ i, (S.declare (some definition.name.text)).1.layout? i = S.layout? i := by
    intro i
    simp only [StructStore.declare, StructStore.layout?, Array.getElem?_push]
    split
    · rename_i heq
      simp [heq]
    · rfl
  simp only [hsize, hlayout]
  constructor
  · rw [List.map_append, List.nodup_append]
    refine ⟨hnodup, List.nodup_singleton _, ?_⟩
    intro a ha b hb hab
    obtain ⟨e, he, rfl⟩ := List.mem_map.1 ha
    obtain ⟨i, htype, hlt, -⟩ := hids e he
    rw [List.map_singleton, List.mem_singleton] at hb
    rw [hb, id?, id?, htype] at hab
    exact absurd (Option.some.inj hab) (Nat.ne_of_lt hlt)
  · rw [List.forall_mem_append, List.forall_mem_singleton]
    constructor
    · intro e he
      obtain ⟨i, htype, hlt, hnone⟩ := hids e he
      exact ⟨i, htype, Nat.lt_succ_of_lt hlt, hnone⟩
    · refine ⟨S.size, rfl, Nat.lt_succ_self _, ?_⟩
      simp [StructStore.layout?, StructStore.size]

/-- **What is known when the structs of a module are declared**: its context declares them and reads
no other structs, and all of them are still to be defined. -/
theorem pending_of_collect {defs : List Source.StructDef} {errors : List Diagnostic}
    (h : collect declare (S, (Builtins.prepare cookie).moduleContext) defs =
      .ok (ds, errors, T, c)) :
    (∀ i, c.Declares i ↔ ∃ d ∈ ds, d.id? = some i) ∧ c.Reads cookie c.Declares ∧
      T.Holds c.Declares ∧ T.completed c.Declares = ∅ ∧ Pending c.Declares T ds := by
  have hc := (LookupContext.Registered.moduleContext cookie S).collect_declare h
  have htypes := (types_collect_declare h).1
  obtain ⟨hdistinct, hfacts⟩ := of_collect_declare h
  have hids : ∀ d ∈ ds, ∃ i, d.id? = some i ∧ c.Declares i ∧ i < T.size ∧ T.layout? i = none := by
    intro d hd
    obtain ⟨i, hi, hlt, hnone⟩ := hfacts d hd
    refine ⟨i, by rw [id?, hi]; rfl, ⟨d.definition.name.text, ?_⟩, hlt, hnone⟩
    rw [htypes, ← hi]
    exact List.mem_append_right _ (List.mem_map_of_mem hd)
  have hdeclares : ∀ i, c.Declares i ↔ ∃ d ∈ ds, d.id? = some i := by
    refine fun i => ⟨exists_of_declares htypes, ?_⟩
    rintro ⟨d, hd, hi⟩
    obtain ⟨j, hj, hdeclared, -⟩ := hids d hd
    cases hj.symm.trans hi
    exact hdeclared
  have hfresh : ∀ i, c.Declares i → i < T.size ∧ T.layout? i = none := by
    intro i hi
    obtain ⟨d, hd, hid⟩ := (hdeclares i).1 hi
    obtain ⟨j, hj, -, hfact⟩ := hids d hd
    cases hj.symm.trans hid
    exact hfact
  refine ⟨hdeclares, ?_, ⟨fun i hi => (hfresh i hi).1, fun i l hi hl => ?_⟩, ?_, ?_, hdistinct⟩
  · exact fun written t ht => (LookupContext.plain_of_resolveType hc.scopes ht).known
  · rw [(hfresh i hi).2] at hl
    cases hl
  · refine Set.eq_empty_of_forall_notMem ?_
    rintro i ⟨hi, hcomplete⟩
    rw [StructStore.isComplete, (hfresh i hi).2] at hcomplete
    cases hcomplete
  · intro d hd
    obtain ⟨i, hi, hdeclared, -, hnone⟩ := hids d hd
    exact ⟨i, hi, hdeclared, hnone⟩

end DeclaredStruct

end RangeTyping
