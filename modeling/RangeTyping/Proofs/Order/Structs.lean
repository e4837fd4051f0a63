import Mathlib
import RangeTyping.Proofs.Analysis.Registration
import RangeTyping.Proofs.Renaming.Body

/-!
# Structs in any order

A struct can be defined once all structs that it holds by value are.  A run that defines everything
has found an order in which this is so, and gives every struct a rank: it holds only structs of
smaller rank (`DeclaredStruct.Chain.exists_rank`).

Another run may try the structs in another order and under other numbers.  No attempt is refused
there (`DeclaredStruct.Rerun.define`), and among the structs that are left those of smallest rank
need not wait (`DeclaredStruct.Rerun.eq_nil_of_waits`), so every round gets further.  In the end all
structs have their layouts from the first run (`DeclaredStruct.exists_defineAll`).
-/

namespace RangeTyping

/-! ### Sizes -/

namespace Ty

/-- The struct that values of the type hold, by itself or in an array. -/
def held? : Ty → Option StructId
  | struct _ i => some i
  | array _ t _ => held? t
  | _ => none

variable {S T : StructStore} {ρ : StructId → StructId} {f : Ty → Ty}

theorem held_renumber {i : StructId} :
    ∀ {t : Ty}, t.held? = some i → (t.renumber ρ).held? = some (ρ i)
  | .array _ t _, hi => held_renumber (t := t) hi
  | .struct _ _, rfl => rfl

/-- A type that has a size holds no struct that lacks a layout. -/
theorem layout_ne_none_of_held {i : StructId} :
    ∀ {t : Ty}, t.held? = some i → t.size S ≠ 0 → S.layout? i ≠ none
  | .array _ t n, hi, hsize => by
    refine layout_ne_none_of_held (t := t) hi fun hzero => hsize ?_
    rw [size, hzero, Nat.zero_mul, Nat.zero_min]
  | .struct _ _, rfl, hsize => fun hnone => hsize (by rw [size, hnone]; rfl)

/-- **Size and alignment depend only on the struct that is held.** -/
theorem size_renumber : ∀ {t : Ty},
    (∀ i, t.held? = some i → T.layout? (ρ i) = (S.layout? i).map (Layout.mapTypes f)) →
    (t.renumber ρ).size T = t.size S ∧ (t.renumber ρ).alignment T = t.alignment S
  | .scalar _ _, _ => ⟨rfl, rfl⟩
  | .function _ _ _, _ => ⟨rfl, rfl⟩
  | .pointer _ _, _ => ⟨rfl, rfl⟩
  | .array _ t _, h => by
    obtain ⟨hsize, halignment⟩ := size_renumber (t := t) h
    refine ⟨?_, halignment⟩
    rw [renumber, size, size, hsize]
  | .struct _ i, h => by
    rw [renumber, size, size, alignment, alignment, h i rfl]
    cases S.layout? i <;> exact ⟨rfl, rfl⟩

end Ty

/-! ### Placement -/

namespace Placement

variable {S T : StructStore} {f : Ty → Ty} {struct name : String} {type : Ty}
  {p q placed : Placement} {members rest : List (String × Ty)}

/-- The first of several members is placed, unless its name is taken or it has no size. -/
theorem addAll_cons : p.addAll S struct ((name, type) :: rest) =
    if p.members.any (·.name == name) then .fail (.duplicateMember struct name)
    else if type.size S = 0 then .fail (.incompleteMember struct name (type.text S))
    else match p.add S name type with
      | .ok q => q.addAll S struct rest
      | .error e => .error (.internal e) := by
  rw [addAll]
  split
  · rfl
  split
  · rfl
  cases p.add S name type <;> rfl

/-- What was placed is the first member and then the others. -/
theorem addAll_cons_ok (h : p.addAll S struct ((name, type) :: rest) = .ok placed) :
    ¬ (p.members.any (·.name == name)) = true ∧ type.size S ≠ 0 ∧
      ∃ q, p.add S name type = .ok q ∧ q.addAll S struct rest = .ok placed := by
  rw [addAll_cons] at h
  split at h
  · cases h
  rename_i hnew
  split at h
  · cases h
  rename_i hsize
  split at h
  · rename_i q hadd
    exact ⟨hnew, hsize, q, hadd, h⟩
  · cases h

/-- The placement with other types in the same places. -/
def mapTypes (f : Ty → Ty) (p : Placement) : Placement :=
  { p with members := p.members.map fun m => { m with type := f m.type } }

theorem any_mapTypes : (p.mapTypes f).members.any (·.name == name) =
    p.members.any (·.name == name) := by
  rw [mapTypes, List.any_map]
  rfl

/-- A member is placed alike if its size and alignment are the same. -/
theorem add_mapTypes (hsize : (f type).size T = type.size S)
    (halignment : (f type).alignment T = type.alignment S) :
    (p.mapTypes f).add T name (f type) = (p.add S name type).map (mapTypes f) := by
  simp only [add, hsize, halignment, show (p.mapTypes f).next = p.next from rfl]
  cases alignUp p.next (max (type.alignment S) 1) with
  | error e => rfl
  | ok offset =>
    simp only [bind, Except.bind]
    cases WordOperation.add.check (offset + type.size S) with
    | error e => rfl
    | ok next => simp [mapTypes, pure, Except.pure, Except.map]

theorem layout_mapTypes : (p.mapTypes f).layout = p.layout.map (Layout.mapTypes f) := by
  simp only [layout, show (p.mapTypes f).next = p.next from rfl,
    show (p.mapTypes f).alignment = p.alignment from rfl]
  cases alignUp p.next p.alignment <;> rfl

/-- **Members are placed alike if sizes and alignments are the same**; a member without a size makes
the struct incomplete. -/
theorem addAll_mapTypes (struct' : String) (h : p.addAll S struct members = .ok placed)
    (hsame : ∀ m ∈ members, (f m.2).size T = 0 ∨
      (f m.2).size T = m.2.size S ∧ (f m.2).alignment T = m.2.alignment S) :
    (p.mapTypes f).addAll T struct' (members.map fun m => (m.1, f m.2)) = .ok (placed.mapTypes f) ∨
      (∃ m ∈ members, (f m.2).size T = 0) ∧ ∃ a b c,
        (p.mapTypes f).addAll T struct' (members.map fun m => (m.1, f m.2)) =
          .fail (.incompleteMember a b c) := by
  induction members generalizing p with
  | nil =>
    cases h
    exact .inl rfl
  | cons m rest ih =>
    obtain ⟨name, type⟩ := m
    rw [List.forall_mem_cons] at hsame
    obtain ⟨hnew, hsize, q, hadd, hrest⟩ := addAll_cons_ok h
    rw [List.map_cons, addAll_cons, any_mapTypes, if_neg hnew]
    -- placing ends at the first member without a size
    by_cases hzero : (f type).size T = 0
    · rw [if_pos hzero]
      exact .inr ⟨⟨_, List.mem_cons_self .., hzero⟩, _, _, _, rfl⟩
    · rw [if_neg hzero]
      obtain ⟨hsizes, halignments⟩ := hsame.1.resolve_left hzero
      rw [add_mapTypes hsizes halignments, hadd]
      refine (ih hrest hsame.2).imp id fun hincomplete => ⟨?_, hincomplete.2⟩
      obtain ⟨m, hm, hmzero⟩ := hincomplete.1
      exact ⟨m, List.mem_cons_of_mem _ hm, hmzero⟩

theorem size_ne_zero_of_addAll (h : p.addAll S struct members = .ok placed) :
    ∀ m ∈ members, m.2.size S ≠ 0 := by
  induction members generalizing p with
  | nil => exact fun m hm => absurd hm List.not_mem_nil
  | cons m rest ih =>
    obtain ⟨-, hsize, q, -, hrest⟩ := addAll_cons_ok h
    rw [List.forall_mem_cons]
    exact ⟨hsize, ih hrest⟩

end Placement

namespace Layout

variable {S T : StructStore} {f : Ty → Ty} {struct : String} {l : Layout}
  {members : List (String × Ty)}

/-- A layout is that of the members that were placed. -/
theorem ofMembers_ok (h : ofMembers S struct members = .ok l) :
    ∃ placed, Placement.start.addAll S struct members = .ok placed ∧ placed.layout = .ok l := by
  obtain ⟨placed, hplaced, h⟩ := Outcome.bind_ok h
  exact ⟨placed, hplaced, Outcome.ofInternal_ok h⟩

theorem ofMembers_of_addAll {placed : Placement}
    (h : Placement.start.addAll S struct members = .ok placed) :
    ofMembers S struct members = .ofInternal placed.layout := by
  rw [ofMembers, h]
  rfl

/-- **Members have the same layout if sizes and alignments are the same**; a member without a size
makes the struct incomplete. -/
theorem ofMembers_mapTypes (struct' : String) (h : ofMembers S struct members = .ok l)
    (hsame : ∀ m ∈ members, (f m.2).size T = 0 ∨
      (f m.2).size T = m.2.size S ∧ (f m.2).alignment T = m.2.alignment S) :
    ofMembers T struct' (members.map fun m => (m.1, f m.2)) = .ok (l.mapTypes f) ∨
      (∃ m ∈ members, (f m.2).size T = 0) ∧ ∃ a b c,
        ofMembers T struct' (members.map fun m => (m.1, f m.2)) =
          .fail (.incompleteMember a b c) := by
  obtain ⟨placed, hplaced, hlayout⟩ := ofMembers_ok h
  rcases Placement.addAll_mapTypes (p := .start) struct' hplaced hsame with
    hplaced' | ⟨hzero, a, b, c, hfail⟩
  · refine .inl ?_
    rw [ofMembers_of_addAll hplaced', Placement.layout_mapTypes, hlayout]
    rfl
  · refine .inr ⟨hzero, a, b, c, ?_⟩
    rw [ofMembers]
    exact congrArg (· >>= _) hfail

theorem size_ne_zero_of_ofMembers (h : ofMembers S struct members = .ok l) :
    ∀ m ∈ members, m.2.size S ≠ 0 := by
  obtain ⟨placed, hplaced, -⟩ := ofMembers_ok h
  exact Placement.size_ne_zero_of_addAll hplaced

end Layout

/-! ### One definition -/

namespace StructStore

variable {S : StructStore} {i j : StructId} {l : Layout}

@[simp] theorem size_setLayout : (S.setLayout i l).size = S.size := by
  simp [setLayout, size]

theorem layout?_setLayout (h : i < S.size) :
    (S.setLayout i l).layout? j = if i = j then some l else S.layout? j := by
  rw [size] at h
  simp only [setLayout, layout?, Array.getElem?_modify]
  split
  · rename_i heq
    subst heq
    rw [Array.getElem?_eq_getElem h]
    rfl
  · rfl

end StructStore

namespace DeclaredStruct

variable {context context' : LookupContext} {S T F : StructStore} {ρ : StructId → StructId}
  {d : DeclaredStruct} {ds pending : List DeclaredStruct} {i j : StructId}

/-- The struct under another number. -/
def renumber (ρ : StructId → StructId) (d : DeclaredStruct) : DeclaredStruct :=
  { d with type := d.type.renumber ρ }

theorem id?_renumber : (d.renumber ρ).id? = d.id?.map ρ := by
  rw [id?, id?, renumber]
  cases d.type <;> rfl

/-- The members of a struct are the same after renumbering. -/
theorem members_renumber
    (h : ∀ name, context'.type? name = (context.type? name).map (Ty.renumber ρ))
    (written : List Source.MemberDef) : members context' written =
      (members context written).map (List.map fun m => (m.1, m.2.renumber ρ)) := by
  induction written with
  | nil => rfl
  | cons m rest ih =>
    rw [members, members, LookupContext.resolveType_renumber h, ih]
    cases context.resolveType m.type with
    | error d => rfl
    | ok t => cases members context rest <;> rfl

/-- What a definition that succeeds does. -/
theorem define_defined (h : define context S d = .ok (.defined, T)) :
    ∃ i ms l, d.id? = some i ∧ members context d.definition.members = .ok ms ∧
      S.layout? i = none ∧ Layout.ofMembers S (S.displayName i) ms = .ok l ∧
      T = S.setLayout i l := by
  rcases define_ok h with ⟨-, hdefined⟩ | ⟨hne, -⟩
  · exact hdefined
  · exact absurd rfl hne

/-! ### A run that defines everything -/

/-- Definitions that succeed one after another. -/
inductive Chain (context : LookupContext) :
    StructStore → List DeclaredStruct → StructStore → Prop where
  | nil (S : StructStore) : Chain context S [] S
  | cons {S T F : StructStore} {d : DeclaredStruct} {ds : List DeclaredStruct}
      (h : define context S d = .ok (.defined, T)) (rest : Chain context T ds F) :
      Chain context S (d :: ds) F

namespace Chain

theorem append {es : List DeclaredStruct} (h : Chain context S ds T) (h' : Chain context T es F) :
    Chain context S (ds ++ es) F := by
  induction h with
  | nil => exact h'
  | cons hd _ ih => exact .cons hd (ih h')

/-- A round defines some of the structs and, if none is refused, leaves the others for the next. -/
theorem of_round {r : Round} (h : round context S pending = .ok r) :
    ∃ done, Chain context S done r.structs ∧
      (r.refused = [] → (done ++ r.deferred.map (·.1)).Perm pending) := by
  induction pending generalizing S r with
  | nil =>
    cases h
    exact ⟨[], .nil S, fun _ => .refl _⟩
  | cons d rest ih =>
    obtain ⟨attempt, T, r', hd, hround, rfl⟩ := round_cons_ok h
    obtain ⟨done, hchain, hperm⟩ := ih hround
    cases attempt with
    | defined => exact ⟨d :: done, .cons hd hchain, fun hrefused => (hperm hrefused).cons d⟩
    | deferred e =>
      obtain rfl : T = S := ((define_ok hd).resolve_left fun h => nomatch h.1).2
      refine ⟨done, hchain, fun hrefused => ?_⟩
      exact List.perm_middle.trans ((hperm hrefused).cons d)
    | refused e =>
      obtain rfl : T = S := ((define_ok hd).resolve_left fun h => nomatch h.1).2
      exact ⟨done, hchain, fun hrefused => absurd hrefused (List.cons_ne_nil _ _)⟩

/-- **A run that reports nothing defined every struct**, in some order. -/
theorem of_defineAll (h : defineAll context S pending = .ok (F, [])) :
    ∃ order, Chain context S order F ∧ order.Perm pending := by
  suffices hall : ∀ {errors}, defineAll context S pending = .ok (F, errors) → errors = [] →
      ∃ order, Chain context S order F ∧ order.Perm pending from hall h rfl
  intro errors
  refine defineAll_induction (P := fun S pending F errors => errors = [] →
    ∃ order, Chain context S order F ∧ order.Perm pending) ?_ ?_
  · intro S F pending r errors hround _ _ ih hnil
    obtain ⟨hrefused, hnil⟩ := List.append_eq_nil_iff.1 hnil
    obtain ⟨done, hdone, hperm⟩ := of_round hround
    obtain ⟨order, horder, hrest⟩ := ih hnil
    exact ⟨done ++ order, hdone.append horder,
      (List.Perm.append_left done hrest).trans (hperm hrefused)⟩
  · intro S pending r hround _ hnil
    obtain ⟨hrefused, hdeferred⟩ := List.append_eq_nil_iff.1 hnil
    obtain ⟨done, hdone, hperm⟩ := of_round hround
    refine ⟨done, hdone, ?_⟩
    have hdone := hperm hrefused
    rwa [List.map_eq_nil_iff.1 hdeferred, List.map_nil, List.append_nil] at hdone

/-- Structs keep their layouts. -/
theorem layout?_of_some (h : Chain context S ds F)
    (hbound : ∀ d ∈ ds, ∀ i, d.id? = some i → i < S.size) {l' : Layout}
    (hl : S.layout? j = some l') : F.layout? j = some l' := by
  induction h with
  | nil => exact hl
  | cons hd _ ih =>
    rw [List.forall_mem_cons] at hbound
    obtain ⟨i, ms, l, hi, -, hnone, -, rfl⟩ := define_defined hd
    refine ih ?_ ?_
    · simpa using hbound.2
    · rw [StructStore.layout?_setLayout (hbound.1 i hi), if_neg, hl]
      rintro rfl
      rw [hl] at hnone
      cases hnone

end Chain

/-- The place of a struct in a run from `S` to `F` that defines it: it was placed in the store `U`,
when all that it holds had been defined.  Structs of smaller rank were defined earlier. -/
structure Settled (context : LookupContext) (S F : StructStore) (rank : StructId → Nat)
    (d : DeclaredStruct) (i : StructId) (ms : List (String × Ty)) (U : StructStore) (l : Layout) :
    Prop where
  id : d.id? = some i
  members : members context d.definition.members = .ok ms
  fresh : S.layout? i = none
  place : Layout.ofMembers U (U.displayName i) ms = .ok l
  layout : F.layout? i = some l
  kept : ∀ m ∈ ms, ∀ j, m.2.held? = some j → F.layout? j = U.layout? j
  earlier : ∀ m ∈ ms, ∀ j, m.2.held? = some j → S.layout? j ≠ none ∨ rank j < rank i

/-- **Structs that were defined one after another can be ranked**: each holds only structs of
smaller rank. -/
theorem Chain.exists_rank (h : Chain context S ds F)
    (hbound : ∀ d ∈ ds, ∀ i, d.id? = some i → i < S.size) :
    ∃ rank, ∀ d ∈ ds, ∃ i ms U l, Settled context S F rank d i ms U l := by
  induction h with
  | nil => exact ⟨fun _ => 0, fun d hd => absurd hd List.not_mem_nil⟩
  | @cons S T F d ds hd hrest ih =>
    rw [List.forall_mem_cons] at hbound
    obtain ⟨i, ms, l, hi, hms, hnone, hl, rfl⟩ := define_defined hd
    have hbound' : ∀ e ∈ ds, ∀ j, e.id? = some j → j < (S.setLayout i l).size := by
      simpa using hbound.2
    obtain ⟨rank, hrank⟩ := ih hbound'
    have hset := fun j => StructStore.layout?_setLayout (j := j) (l := l)
      (hbound.1 i hi)
    -- what has a layout by now comes first
    refine ⟨fun j => if ((S.setLayout i l).layout? j).isSome then 0 else rank j + 1, ?_⟩
    rw [List.forall_mem_cons]
    constructor
    · have hheld : ∀ m ∈ ms, ∀ j, m.2.held? = some j → S.layout? j ≠ none := fun m hm j hj =>
        Ty.layout_ne_none_of_held hj (Layout.size_ne_zero_of_ofMembers hl m hm)
      refine ⟨i, ms, S, l, hi, hms, hnone, hl, ?_, ?_, fun m hm j hj =>
        .inl (hheld m hm j hj)⟩
      · exact hrest.layout?_of_some hbound' (by rw [hset, if_pos rfl])
      · intro m hm j hj
        obtain ⟨l', hl'⟩ := Option.ne_none_iff_exists'.1 (hheld m hm j hj)
        rw [hl']
        refine hrest.layout?_of_some hbound' ?_
        rw [hset, if_neg, hl']
        rintro rfl
        rw [hl'] at hnone
        cases hnone
    · intro e he
      obtain ⟨k, es, U, p, hs⟩ := hrank e he
      have hk := hs.fresh
      refine ⟨k, es, U, p, hs.id, hs.members, ?_, hs.place, hs.layout, hs.kept, ?_⟩
      · rw [hset] at hk
        split at hk
        · cases hk
        · exact hk
      · intro m hm j hj
        refine .inr ?_
        rw [if_neg (c := ((S.setLayout i l).layout? k).isSome) (by rw [hk]; simp)]
        split
        · exact Nat.succ_pos _
        · rename_i hjnone
          refine Nat.succ_lt_succ ((hs.earlier m hm j hj).resolve_left fun hne => ?_)
          exact hjnone (Option.isSome_iff_ne_none.2 hne)

/-! ### Any other order -/

/-- The structs `ds` were defined in a run from `S` to `F` and are defined again, under other
numbers. -/
structure Rerun (context context' : LookupContext) (S F : StructStore) (rank : StructId → Nat)
    (ρ : StructId → StructId) (ds : List DeclaredStruct) : Prop where
  settled : ∀ d ∈ ds, ∃ i ms U l, Settled context S F rank d i ms U l
  held : ∀ d ∈ ds, ∀ ms, members context d.definition.members = .ok ms →
    ∀ m ∈ ms, ∀ j, m.2.held? = some j → ∃ e ∈ ds, e.id? = some j
  types : ∀ name, context'.type? name = (context.type? name).map (Ty.renumber ρ)
  injective : Function.Injective ρ

/-- In the store `T` some of the structs have their layouts from `F`. -/
structure Halfway (F : StructStore) (ρ : StructId → StructId) (ds : List DeclaredStruct)
    (T : StructStore) : Prop where
  bound : ∀ d ∈ ds, ∀ i, d.id? = some i → ρ i < T.size
  layout : ∀ d ∈ ds, ∀ i, d.id? = some i → T.layout? (ρ i) = none ∨
    T.layout? (ρ i) = (F.layout? i).map (Layout.mapTypes (Ty.renumber ρ))

theorem Halfway.setLayout (hρ : Function.Injective ρ) (h : Halfway F ρ ds T) {l : Layout}
    (hi : ρ i < T.size) (hl : F.layout? i = some l) :
    Halfway F ρ ds (T.setLayout (ρ i) (l.mapTypes (Ty.renumber ρ))) := by
  refine ⟨fun d hd j hj => ?_, fun d hd j hj => ?_⟩
  · rw [StructStore.size_setLayout]
    exact h.bound d hd j hj
  · rw [StructStore.layout?_setLayout hi]
    split
    · rename_i heq
      rw [← hρ heq, hl]
      exact .inr rfl
    · exact h.layout d hd j hj

namespace Rerun

variable {rank : StructId → Nat}

/-- Something that the struct `i` holds is not defined yet. -/
def Waits (rank : StructId → Nat) (ρ : StructId → StructId) (ds : List DeclaredStruct)
    (T : StructStore) (i : StructId) : Prop :=
  ∃ e ∈ ds, ∃ j, e.id? = some j ∧ rank j < rank i ∧ T.layout? (ρ j) = none

/-- A member has its size from the first run, or none as long as the struct has to wait. -/
theorem member (h : Rerun context context' S F rank ρ ds) (hT : Halfway F ρ ds T) (hd : d ∈ ds)
    {ms : List (String × Ty)} {U : StructStore} {l : Layout}
    (hs : Settled context S F rank d i ms U l) {m : String × Ty} (hm : m ∈ ms) :
    ((m.2.renumber ρ).size T = m.2.size U ∧ (m.2.renumber ρ).alignment T = m.2.alignment U) ∨
      (m.2.renumber ρ).size T = 0 ∧ Waits rank ρ ds T i := by
  -- what the member holds by value has its layout, or the member waits for it
  by_cases hall : ∀ j, m.2.held? = some j →
      T.layout? (ρ j) = (U.layout? j).map (Layout.mapTypes (Ty.renumber ρ))
  · exact .inl (Ty.size_renumber hall)
  push Not at hall
  obtain ⟨j, hj, hne⟩ := hall
  obtain ⟨e, he, hid⟩ := h.held d hd ms hs.members m hm j hj
  have hnone : T.layout? (ρ j) = none := by
    refine (hT.layout e he j hid).resolve_right fun heq => hne ?_
    rw [heq, hs.kept m hm j hj]
  refine .inr ⟨by_contra fun hsize => ?_, e, he, j, hid, ?_, hnone⟩
  · exact Ty.layout_ne_none_of_held (Ty.held_renumber hj) hsize hnone
  · -- structs of the module had no layout when the first run began
    refine (hs.earlier m hm j hj).resolve_left fun hlayout => hlayout ?_
    obtain ⟨j', _, _, _, hs'⟩ := h.settled e he
    have hjj : j' = j := Option.some.inj (hs'.id.symm.trans hid)
    exact hjj ▸ hs'.fresh

/-- **An attempt is never refused**: the struct gets its layout from the first run or has to
wait. -/
theorem define (h : Rerun context context' S F rank ρ ds) (hT : Halfway F ρ ds T) (hd : d ∈ ds)
    (hi : d.id? = some i) (hnone : T.layout? (ρ i) = none) :
    (∃ l, F.layout? i = some l ∧ define context' T (d.renumber ρ) =
        .ok (.defined, T.setLayout (ρ i) (l.mapTypes (Ty.renumber ρ)))) ∨
      (∃ diagnostic, define context' T (d.renumber ρ) = .ok (.deferred diagnostic, T)) ∧
        Waits rank ρ ds T i := by
  obtain ⟨i', ms, U, l, hs⟩ := h.settled d hd
  obtain rfl : i' = i := Option.some.inj (hs.id.symm.trans hi)
  have hid : (d.renumber ρ).id? = some (ρ i') := by
    rw [id?_renumber, hi]
    rfl
  have hmembers : members context' (d.renumber ρ).definition.members =
      .ok (ms.map fun m => (m.1, m.2.renumber ρ)) := by
    rw [show (d.renumber ρ).definition = d.definition from rfl, members_renumber h.types, hs.members]
    rfl
  rw [define_of_members hid hmembers hnone]
  have hsame : ∀ m ∈ ms, (m.2.renumber ρ).size T = 0 ∨
      (m.2.renumber ρ).size T = m.2.size U ∧ (m.2.renumber ρ).alignment T = m.2.alignment U :=
    fun m hm => (h.member hT hd hs hm).symm.imp And.left id
  -- all members are placed as in the first run, or one has no size yet
  rcases Layout.ofMembers_mapTypes (T.displayName (ρ i')) hs.place hsame with
    hlayout | ⟨⟨m, hm, hzero⟩, a, b, c, hfail⟩
  · refine .inl ⟨_, hs.layout, ?_⟩
    rw [hlayout]
  · refine .inr ⟨?_, ?_⟩
    · rw [hfail]
      exact ⟨_, rfl⟩
    · refine ((h.member hT hd hs hm).resolve_left fun heq => ?_).2
      exact Layout.size_ne_zero_of_ofMembers hs.place m hm (heq.1.symm.trans hzero)

/-- **What a round does** that begins with the store `T` and the structs `pending`: it defers the
structs `rest`, all of which have to wait, and the others get their layouts. -/
structure Leaves (F : StructStore) (rank : StructId → Nat) (ρ : StructId → StructId)
    (ds : List DeclaredStruct) (T : StructStore) (pending : List DeclaredStruct) (r : Round)
    (rest : List DeclaredStruct) : Prop where
  sublist : rest.Sublist pending
  halfway : Halfway F ρ ds r.structs
  deferred : r.deferred.map (·.1) = rest.map (renumber ρ)
  refused : r.refused = []
  waits : ∀ d ∈ rest, ∀ i, d.id? = some i → Waits rank ρ ds T i
  layouts : ∀ i, r.structs.layout? (ρ i) = none ↔
    T.layout? (ρ i) = none ∧ ∀ d ∈ pending, d.id? = some i → d ∈ rest

/-- A round that begins with a definition. -/
theorem Leaves.cons_defined {r : Round} {rest : List DeclaredStruct} {l : Layout}
    (hρ : Function.Injective ρ) (hbound : ρ i < T.size) (hi : d.id? = some i) (hd : d ∉ pending)
    (h : Leaves F rank ρ ds (T.setLayout (ρ i) l) pending r rest) :
    Leaves F rank ρ ds T (d :: pending) r rest := by
  have hset := fun j => StructStore.layout?_setLayout (j := j) (l := l) hbound
  refine ⟨h.sublist.cons d, h.halfway, h.deferred, h.refused, ?_, fun j => ?_⟩
  · intro e he j hj
    obtain ⟨e', he', k, hk, hrank, hnone⟩ := h.waits e he j hj
    refine ⟨e', he', k, hk, hrank, ?_⟩
    rw [hset] at hnone
    split at hnone
    · cases hnone
    · exact hnone
  · rw [h.layouts, hset, List.forall_mem_cons]
    by_cases hij : i = j
    · -- the struct has a layout now, and it is not deferred
      subst hij
      rw [if_pos rfl]
      constructor
      · rintro ⟨hsome, -⟩
        cases hsome
      · rintro ⟨-, hmem, -⟩
        exact absurd (h.sublist.subset (hmem hi)) hd
    · rw [if_neg fun heq => hij (hρ heq)]
      refine and_congr_right fun _ => ⟨fun hmem => ⟨fun hj => ?_, hmem⟩, And.right⟩
      exact absurd (Option.some.inj (hi.symm.trans hj)) hij

/-- A round that begins with a struct that has to wait. -/
theorem Leaves.cons_deferred {r : Round} {rest : List DeclaredStruct} {diagnostic : Diagnostic}
    (hi : d.id? = some i) (hd : d ∉ pending) (hwaits : Waits rank ρ ds T i)
    (h : Leaves F rank ρ ds T pending r rest) :
    Leaves F rank ρ ds T (d :: pending)
      { r with deferred := (d.renumber ρ, diagnostic) :: r.deferred } (d :: rest) := by
  refine ⟨h.sublist.cons_cons d, h.halfway, ?_, h.refused, ?_, fun j => ?_⟩
  · rw [List.map_cons, List.map_cons, h.deferred]
  · rw [List.forall_mem_cons]
    refine ⟨fun j hj => ?_, h.waits⟩
    obtain rfl : i = j := Option.some.inj (hi.symm.trans hj)
    exact hwaits
  · rw [h.layouts]
    refine and_congr_right fun _ => ⟨fun hmem e he hj => ?_, fun hmem e he hj => ?_⟩
    · rcases List.mem_cons.1 he with rfl | he
      · exact List.mem_cons_self ..
      · exact List.mem_cons_of_mem d (hmem e he hj)
    · refine (List.mem_cons.1 (hmem e (List.mem_cons_of_mem d he) hj)).resolve_left ?_
      rintro rfl
      exact hd he

/-- **A round** defines some structs, defers the others and refuses none. -/
theorem round (h : Rerun context context' S F rank ρ ds) (hT : Halfway F ρ ds T)
    (hsub : ∀ d ∈ pending, d ∈ ds) (hnodup : (pending.map id?).Nodup)
    (hnone : ∀ d ∈ pending, ∀ i, d.id? = some i → T.layout? (ρ i) = none) :
    ∃ r rest, round context' T (pending.map (renumber ρ)) = .ok r ∧
      Leaves F rank ρ ds T pending r rest := by
  induction pending generalizing T with
  | nil =>
    refine ⟨_, [], rfl, .slnil, hT, rfl, rfl, fun d hd => absurd hd List.not_mem_nil, fun i => ?_⟩
    exact ⟨fun hi => ⟨hi, fun d hd => absurd hd List.not_mem_nil⟩, And.left⟩
  | cons d pending ih =>
    rw [List.forall_mem_cons] at hsub hnone
    rw [List.map_cons, List.nodup_cons] at hnodup
    obtain ⟨i, _, _, _, hs⟩ := h.settled d hsub.1
    have hbound := hT.bound d hsub.1 i hs.id
    have hd : d ∉ pending := fun hmem => hnodup.1 (List.mem_map_of_mem hmem)
    rw [List.map_cons, DeclaredStruct.round]
    rcases h.define hT hsub.1 hs.id (hnone.1 i hs.id) with ⟨l, hl, hdefine⟩ | ⟨⟨x, hdefine⟩, hwaits⟩
    · -- a definition leaves the others without a layout as they were
      have hnone' : ∀ e ∈ pending, ∀ j, e.id? = some j →
          (T.setLayout (ρ i) (l.mapTypes (Ty.renumber ρ))).layout? (ρ j) = none := by
        intro e he j hj
        rw [StructStore.layout?_setLayout hbound, if_neg, hnone.2 e he j hj]
        intro heq
        obtain rfl := h.injective heq
        exact hnodup.1 (List.mem_map.2 ⟨e, he, hj.trans hs.id.symm⟩)
      obtain ⟨r, rest, hround, hrest⟩ :=
        ih (hT.setLayout h.injective hbound hl) hsub.2 hnodup.2 hnone'
      simp only [hdefine, bind, Except.bind, hround]
      exact ⟨_, rest, rfl, hrest.cons_defined h.injective hbound hs.id hd⟩
    · obtain ⟨r, rest, hround, hrest⟩ := ih hT hsub.2 hnodup.2 hnone.2
      simp only [hdefine, bind, Except.bind, hround]
      exact ⟨_, d :: rest, rfl, hrest.cons_deferred hs.id hd hwaits⟩

/-- Not all structs can wait for each other. -/
theorem eq_nil_of_waits (h : Rerun context context' S F rank ρ ds) (hsub : ∀ d ∈ pending, d ∈ ds)
    (hall : ∀ d ∈ ds, ∀ i, d.id? = some i → T.layout? (ρ i) = none → d ∈ pending)
    (hwaits : ∀ d ∈ pending, ∀ i, d.id? = some i → Waits rank ρ ds T i) : pending = [] := by
  have hdescent : ∀ n, ∀ d ∈ pending, ∀ i, d.id? = some i → rank i ≠ n := by
    intro n
    induction n using Nat.strong_induction_on with
    | h n ih =>
      rintro d hd i hi rfl
      obtain ⟨e, he, j, hj, hlt, hnone⟩ := hwaits d hd i hi
      exact ih _ hlt e (hall e he j hj hnone) j hj rfl
  refine List.eq_nil_iff_forall_not_mem.2 fun d hd => ?_
  obtain ⟨i, _, _, _, hs⟩ := h.settled d (hsub d hd)
  exact hdescent _ d hd i hs.id rfl

/-- **The second run defines every struct too** and gives it its layout from the first. -/
theorem defineAll (h : Rerun context context' S F rank ρ ds) (hT : Halfway F ρ ds T)
    (hsub : ∀ d ∈ pending, d ∈ ds) (hnodup : (pending.map id?).Nodup)
    (hnone : ∀ d ∈ pending, ∀ i, d.id? = some i → T.layout? (ρ i) = none)
    (hall : ∀ d ∈ ds, ∀ i, d.id? = some i → T.layout? (ρ i) = none → d ∈ pending) :
    ∃ T', defineAll context' T (pending.map (renumber ρ)) = .ok (T', []) ∧
      ∀ d ∈ ds, ∀ i, d.id? = some i →
        T'.layout? (ρ i) = (F.layout? i).map (Layout.mapTypes (Ty.renumber ρ)) := by
  induction hn : pending.length using Nat.strong_induction_on generalizing T pending with
  | h n ih =>
    obtain ⟨r, rest, hround, hrest⟩ := h.round hT hsub hnodup hnone
    have hlength := congrArg List.length hrest.deferred
    rw [List.length_map, List.length_map] at hlength
    have hall' : ∀ d ∈ ds, ∀ i, d.id? = some i → r.structs.layout? (ρ i) = none → d ∈ rest := by
      intro d hd i hi hi'
      obtain ⟨hnone', hmem⟩ := (hrest.layouts i).1 hi'
      exact hmem d (hall d hd i hi hnone') hi
    rw [DeclaredStruct.defineAll, hround]
    dsimp only
    rw [hlength, hrest.deferred, hrest.refused, List.length_map]
    by_cases hlt : rest.length < pending.length
    · rw [if_pos hlt]
      have hsubset := hrest.sublist.subset
      have hnone' : ∀ d ∈ rest, ∀ i, d.id? = some i → r.structs.layout? (ρ i) = none := by
        intro d hd i hi
        refine (hrest.layouts i).2 ⟨hnone d (hsubset hd) i hi, fun e he hei => ?_⟩
        rwa [List.inj_on_of_nodup_map hnodup he (hsubset hd) (hei.trans hi.symm)]
      obtain ⟨T', heq, hfinal⟩ := ih rest.length (hn ▸ hlt) hrest.halfway
        (fun d hd => hsub d (hsubset hd)) (hnodup.sublist (hrest.sublist.map _)) hnone' hall' rfl
      exact ⟨T', by rw [heq]; rfl, hfinal⟩
    · -- all are deferred, so there is nothing left
      rw [if_neg hlt]
      have heq : rest = pending := hrest.sublist.eq_of_length_le (Nat.le_of_not_lt hlt)
      have hnil : rest = [] :=
        heq.trans (h.eq_nil_of_waits hsub hall (heq ▸ hrest.waits))
      rw [hnil, List.length_nil] at hlength
      refine ⟨_, by rw [List.eq_nil_of_length_eq_zero hlength]; rfl, fun d hd i hi => ?_⟩
      refine (hrest.halfway.layout d hd i hi).resolve_left fun hnone' => ?_
      exact absurd (hall' d hd i hi hnone') (hnil ▸ List.not_mem_nil)

end Rerun

/-- **Structs can be defined in any order and under any numbers.** -/
theorem exists_defineAll (h : defineAll context S ds = .ok (F, []))
    (hbound : ∀ d ∈ ds, ∀ i, d.id? = some i → i < S.size)
    (hheld : ∀ d ∈ ds, ∀ ms, members context d.definition.members = .ok ms →
      ∀ m ∈ ms, ∀ j, m.2.held? = some j → ∃ e ∈ ds, e.id? = some j)
    (htypes : ∀ name, context'.type? name = (context.type? name).map (Ty.renumber ρ))
    (hρ : Function.Injective ρ) (hnodup : (ds.map id?).Nodup)
    (hT : ∀ d ∈ ds, ∀ i, d.id? = some i → ρ i < T.size ∧ T.layout? (ρ i) = none)
    {ds' : List DeclaredStruct} (hperm : ds'.Perm ds) :
    ∃ T', defineAll context' T (ds'.map (renumber ρ)) = .ok (T', []) ∧
      ∀ d ∈ ds, ∃ i l, d.id? = some i ∧ F.layout? i = some l ∧
        T'.layout? (ρ i) = some (l.mapTypes (Ty.renumber ρ)) := by
  obtain ⟨order, hchain, horder⟩ := Chain.of_defineAll h
  obtain ⟨rank, hrank⟩ := hchain.exists_rank fun d hd => hbound d (horder.subset hd)
  have hrerun : Rerun context context' S F rank ρ ds :=
    ⟨fun d hd => hrank d (horder.symm.subset hd), hheld, htypes, hρ⟩
  obtain ⟨T', hT', hlayouts⟩ := hrerun.defineAll (T := T)
    ⟨fun d hd i hi => (hT d hd i hi).1, fun d hd i hi => .inl (hT d hd i hi).2⟩
    (fun d (hd : d ∈ ds') => hperm.subset hd) ((hperm.map id?).nodup_iff.2 hnodup)
    (fun d hd i hi => (hT d (hperm.subset hd) i hi).2) fun d hd _ _ _ => hperm.symm.subset hd
  refine ⟨T', hT', fun d hd => ?_⟩
  obtain ⟨i, ms, U, l, hs⟩ := hrerun.settled d hd
  refine ⟨i, l, hs.id, hs.layout, ?_⟩
  rw [hlayouts d hd i hs.id, hs.layout]
  rfl

end DeclaredStruct

end RangeTyping
