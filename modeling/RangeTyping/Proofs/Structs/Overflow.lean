import Mathlib
import RangeTyping.Proofs.Structs.Definition

/-!
# Structs that are too large

Offsets and sizes are words.  The structs of a module are defined in rounds, and the rounds stop at
the first struct that does not fit.  Whether this happens does not depend on the rounds: the structs
get their layouts in exact numbers, in whatever order (`DeclaredStruct.Laid`), and all rounds come to
an end exactly if no struct is too large in any store that arises so
(`DeclaredStruct.exists_defineAll_iff`).

One direction holds since the stores of the rounds arise so (`DeclaredStruct.Laid.of_round`).  For the
other, a store that arises in whatever order agrees with the last store of the rounds
(`DeclaredStruct.Laid.grows`), and there nothing is too large.

`Source.Module.declareStructs_least` says what the rounds come to.
-/

namespace RangeTyping

/-- Members that fit in a store fit in every smaller one: what has a size there has the same size in
the larger one. -/
theorem Layout.Fits.of_grows {S T : StructStore} {members : List (String × Ty)} (hT : S.Grows T)
    (h : Fits T members) : Fits S members := by
  have hsame : ∀ {front : List (String × Ty)} {taken : List String},
      Placement.Placeable S taken front →
      ∀ m ∈ front, m.2.size T = m.2.size S ∧ m.2.alignment T = m.2.alignment S :=
    fun hfront m hm => hT.size_eq (hfront.sizes m hm)
  have hplaceable : ∀ {front : List (String × Ty)} {taken : List String},
      Placement.Placeable S taken front → Placement.Placeable T taken front := fun hfront =>
    ⟨hfront.distinct, fun m hm => (hsame hfront m hm).1 ▸ hfront.sizes m hm⟩
  refine ⟨fun front hprefix hfront => ?_, fun hmembers => ?_⟩
  · rw [← (Layout.places_congr (hsame hfront) 0).2]
    exact h.each front hprefix (hplaceable hfront)
  · have hsize := h.all (hplaceable hmembers)
    rwa [Layout.exactSize_congr (hsame hmembers)] at hsize

namespace DeclaredStruct

variable {cookie : Registration → Nat} {declared : StructId → Prop} {c : LookupContext}
  {S T F : StructStore} {d : DeclaredStruct} {i : StructId} {ds pending : List DeclaredStruct}
  {ms : List (String × Ty)} {errors : List Diagnostic} {e : InternalError}

/-- The stores that arise from `S` when structs get their exact layouts, in whatever order. -/
inductive Laid (c : LookupContext) (ds : List DeclaredStruct) (S : StructStore) :
    StructStore → Prop where
  | start : Laid c ds S S
  | step {T : StructStore} {d : DeclaredStruct} {i : StructId} {ms : List (String × Ty)}
      (before : Laid c ds S T) (hd : d ∈ ds) (hi : d.id? = some i) (hnone : T.layout? i = none)
      (hms : members c d.definition.members = .ok ms) (h : Placement.Placeable T [] ms) :
      Laid c ds S (T.setLayout i (Layout.exact T ms))

/-- **All structs fit into words**, in exact numbers. -/
def Fit (c : LookupContext) (ds : List DeclaredStruct) (S : StructStore) : Prop :=
  ∀ T, Laid c ds S T → ∀ d ∈ ds, ∀ ms, members c d.definition.members = .ok ms → Layout.Fits T ms

/-! ### Rounds that stop -/

/-- An attempt that stops has met a struct that is too large. -/
theorem not_fits_of_define (h : define c S d = .error e) :
    (∃ op, e = .overflow op) ∧ ∃ ms, members c d.definition.members = .ok ms ∧
      ¬ Layout.Fits S ms := by
  obtain ⟨i, ms, -, hms, -, hl⟩ := define_error h
  have hfits := (Layout.ofMembers_internal_iff _).1 ⟨e, hl⟩
  obtain ⟨op, hop⟩ := Layout.ofMembers_of_not_fits (S.displayName i) hfits
  rw [hop] at hl
  cases hl
  exact ⟨⟨op, rfl⟩, ms, hms, hfits⟩

namespace Laid

/-- What one attempt leaves arises so. -/
theorem of_define {attempt : Attempt} (h : Laid c ds S T) (hd : d ∈ ds)
    (hdefine : define c T d = .ok (attempt, F)) : Laid c ds S F := by
  rcases define_ok hdefine with ⟨-, i, ms, l, hi, hms, hnone, hl, rfl⟩ | ⟨-, rfl⟩
  · obtain ⟨hplaceable, -, rfl⟩ := Layout.ofMembers_eq_ok_iff.1 hl
    exact h.step hd hi hnone hms hplaceable
  · exact h

/-- **What a round leaves arises so.** -/
theorem of_round {r : Round} (h : Laid c ds S T) (hpending : pending ⊆ ds)
    (hround : round c T pending = .ok r) :
    Laid c ds S r.structs ∧ r.deferred.map (·.1) ⊆ pending := by
  induction pending generalizing T r with
  | nil =>
    cases hround
    exact ⟨h, List.Subset.refl _⟩
  | cons d rest ih =>
    obtain ⟨hd, hrest⟩ := List.cons_subset.1 hpending
    obtain ⟨attempt, U, r, hdefine, hround', rfl⟩ := round_cons_ok hround
    obtain ⟨hlaid, hsub⟩ := ih (h.of_define hd hdefine) hrest hround'
    cases attempt with
    | defined | refused _ => exact ⟨hlaid, fun e he => List.mem_cons_of_mem _ (hsub he)⟩
    | deferred _ => exact ⟨hlaid, List.cons_subset_cons d hsub⟩

/-- A round that stops has met a struct that is too large. -/
theorem not_fit_of_round (h : Laid c ds S T)
    (hpending : pending ⊆ ds) (hround : round c T pending = .error e) :
    (∃ op, e = .overflow op) ∧ ¬ Fit c ds S := by
  induction pending generalizing T with
  | nil => cases hround
  | cons d rest ih =>
    obtain ⟨hd, hrest⟩ := List.cons_subset.1 hpending
    rcases Outcome.bind_error hround with hdefine | ⟨⟨attempt, U⟩, hdefine, hround⟩
    · obtain ⟨hop, ms, hms, hfits⟩ := not_fits_of_define hdefine
      exact ⟨hop, fun hfit => hfits (hfit T h d hd ms hms)⟩
    · rcases Outcome.bind_error hround with hround | ⟨r, -, hround⟩
      · exact ih (h.of_define hd hdefine) hrest hround
      · cases hround

/-- **Rounds that stop have met a struct that is too large.** -/
theorem not_fit_of_defineAll (h : Laid c ds S T)
    (hpending : pending ⊆ ds) (hrun : defineAll c T pending = .error e) :
    (∃ op, e = .overflow op) ∧ ¬ Fit c ds S := by
  fun_induction defineAll c T pending with
  | case1 T pending e' hround =>
    cases hrun
    exact h.not_fit_of_round hpending hround
  | case2 T pending r hround hlt ih =>
    obtain ⟨hlaid, hsub⟩ := h.of_round hpending hround
    rcases Outcome.bind_error hrun with hrest | ⟨_, -, hrun⟩
    · exact ih hlaid (fun d hd => hpending (hsub hd)) hrest
    · cases hrun
  | case3 T pending r hround hlt => cases hrun

end Laid

/-! ### Rounds that come to an end -/

/-- **Where the rounds ended every struct has its exact layout**, or it cannot be placed; and none is
too large. -/
theorem exact_of_defineAll (hc : c.Reads cookie declared) (hS : S.Holds declared)
    (h : Pending declared S ds) (hrun : defineAll c S ds = .ok (F, errors)) (hd : d ∈ ds)
    (hi : d.id? = some i) (hms : members c d.definition.members = .ok ms) :
    Layout.Fits F ms ∧ (Placement.Placeable F [] ms → F.layout? i = some (Layout.exact F ms)) := by
  obtain ⟨done, blamed, hchain, -, hperm, hblame⟩ := exists_blamed hc hS h hrun
  have hbound : ∀ e ∈ done, ∀ j, e.id? = some j → j < S.size := fun e he j hj =>
    hS.bound j (h.declared_left hperm e he j hj)
  have hF := (hchain.grows hS (h.declared_left hperm)).2
  rcases List.mem_append.1 (hperm.symm.subset hd) with hd | hd
  · -- it was laid out in a store in which its members have the sizes that they have in the end
    obtain ⟨rank, hrank⟩ := hchain.exists_rank hbound
    obtain ⟨i', ms', U, l, hsettled⟩ := hrank d hd
    cases hsettled.id.symm.trans hi
    cases hsettled.members.symm.trans hms
    obtain ⟨hplaceable, hlt, hl⟩ := Layout.ofMembers_eq_ok_iff.1 hsettled.place
    have hsame : ∀ m ∈ ms, m.2.size F = m.2.size U ∧ m.2.alignment F = m.2.alignment U :=
      fun m hm => Ty.size_congr fun j hj => hsettled.kept m hm j hj
    have hexact := Layout.exact_congr hsame
    have hplaceable' : Placement.Placeable F [] ms :=
      ⟨hplaceable.distinct, fun m hm => (hsame m hm).1 ▸ hplaceable.sizes m hm⟩
    refine ⟨(Layout.fits_iff hplaceable').2 ?_, fun _ => ?_⟩
    · rwa [Layout.exactSize_congr hsame]
    · rw [hsettled.layout, hl, hexact]
  · obtain ⟨p, hp, rfl⟩ := List.mem_map.1 hd
    obtain ⟨hundefinable, attempt, hdefine, -⟩ := hblame p hp
    obtain ⟨i', hi', -, hnone⟩ := ((h.perm hperm).right done hS hchain).ids p.1 hd
    cases hi'.symm.trans hi
    refine ⟨by_contra fun hfits => ?_, fun hplaceable => absurd ?_ hundefinable⟩
    · obtain ⟨op, hop⟩ := Layout.ofMembers_of_not_fits (F.displayName i) hfits
      rw [define_of_members hi hms hnone, hop] at hdefine
      cases hdefine
    · refine (definable_iff hms).2 ⟨hplaceable.distinct, fun m hm => ?_⟩
      obtain ⟨w, -, ht⟩ := (members_ok hms).2.2 m hm
      exact (Ty.size_ne_zero_iff hF (hc _ _ ht)).1 (hplaceable.sizes m hm)

/-- **A store that arises in whatever order agrees with the one at the end of the rounds.** -/
theorem Laid.grows (hc : c.Reads cookie declared) (hS : S.Holds declared)
    (h : Pending declared S ds) (hrun : defineAll c S ds = .ok (F, errors)) (hT : Laid c ds S T) :
    T.Grows F := by
  induction hT with
  | start =>
    obtain ⟨done, blamed, hchain, -, hperm, -⟩ := exists_blamed hc hS h hrun
    exact (hchain.grows hS (h.declared_left hperm)).1
  | @step T d i ms _ hd hi hnone hms hplaceable ih =>
    have hsame : ∀ m ∈ ms, m.2.size F = m.2.size T ∧ m.2.alignment F = m.2.alignment T :=
      fun m hm => ih.size_eq (hplaceable.sizes m hm)
    have hplaceable' : Placement.Placeable F [] ms :=
      ⟨hplaceable.distinct, fun m hm => (hsame m hm).1 ▸ hplaceable.sizes m hm⟩
    have hlayout := (exact_of_defineAll hc hS h hrun hd hi hms).2 hplaceable'
    rw [Layout.exact_congr hsame] at hlayout
    exact ih.setLayout_left hlayout

/-- **When the rounds come to an end**: exactly if all structs fit into words. -/
theorem exists_defineAll_iff (hc : c.Reads cookie declared) (hS : S.Holds declared)
    (h : Pending declared S ds) : (∃ r, defineAll c S ds = .ok r) ↔ Fit c ds S := by
  constructor
  · rintro ⟨⟨F, errors⟩, hrun⟩ T hT d hd ms hms
    obtain ⟨i, hi, -⟩ := h.ids d hd
    have hfits := (exact_of_defineAll hc hS h hrun hd hi hms).1
    exact hfits.of_grows (hT.grows hc hS h hrun)
  · intro hfit
    cases hrun : defineAll c S ds with
    | ok r => exact ⟨r, rfl⟩
    | error e =>
      exact absurd hfit (Laid.start.not_fit_of_defineAll (List.Subset.refl _) hrun).2

end DeclaredStruct

namespace Source.Module

variable {cookie : Registration → Nat} {S : StructStore} {m : Source.Module}

/-- **The structs of a module fit into words**, if they are declared in the store `S`. -/
def StructsFit (cookie : Registration → Nat) (S : StructStore) (m : Source.Module) : Prop :=
  ∀ declared refused S₁ c,
    collect DeclaredStruct.declare (S, (Builtins.prepare cookie).moduleContext) m.structs =
      .ok (declared, refused, S₁, c) → DeclaredStruct.Fit c declared S₁

/-- **The structs of a module are defined, or they overflow.** -/
theorem declareStructs_cases (cookie : Registration → Nat) (S : StructStore) (m : Source.Module) :
    (m.StructsFit cookie S ∧ ∃ declared refused S₁ c errors T,
      collect DeclaredStruct.declare (S, (Builtins.prepare cookie).moduleContext) m.structs =
        .ok (declared, refused, S₁, c) ∧
      DeclaredStruct.defineAll c S₁ declared = .ok (T, errors) ∧
      m.declareStructs S (Builtins.prepare cookie).moduleContext =
        .ok (declared, refused ++ errors, T, c)) ∨
    ¬ m.StructsFit cookie S ∧ ∃ op,
      m.declareStructs S (Builtins.prepare cookie).moduleContext = .error (.overflow op) := by
  obtain ⟨⟨declared, refused, S₁, c⟩, hcollect⟩ :=
    DeclaredStruct.collect_declare_total S (Builtins.prepare cookie).moduleContext m.structs
  obtain ⟨-, hreads, hholds, -, hpending⟩ := DeclaredStruct.pending_of_collect hcollect
  cases hrun : DeclaredStruct.defineAll c S₁ declared with
  | ok r =>
    refine .inl ⟨?_, declared, refused, S₁, c, r.2, r.1, hcollect, hrun, ?_⟩
    · rintro declared refused S₁ c hcollect'
      cases hcollect.symm.trans hcollect'
      exact (DeclaredStruct.exists_defineAll_iff hreads hholds hpending).1 ⟨r, hrun⟩
    · simp only [declareStructs, bind, Except.bind, hcollect, hrun]
      rfl
  | error e =>
    obtain ⟨⟨op, rfl⟩, hfit⟩ :=
      DeclaredStruct.Laid.start.not_fit_of_defineAll (List.Subset.refl _) hrun
    refine .inr ⟨fun hall => hfit (hall _ _ _ _ hcollect), op, ?_⟩
    simp only [declareStructs, bind, Except.bind, hcollect, hrun]

/-- **Which structs of a module are defined.**  If they fit into words, those that get defined form
the least set that holds every struct that can be defined when exactly the set is.  Each of the other
structs that are declared is blamed once, for what is wrong with it in the end, and nothing else is
reported for them.  There are at most as many rounds as structs.  If they do not fit, the rounds stop
at an overflow. -/
theorem declareStructs_least (cookie : Registration → Nat) (S : StructStore) (m : Source.Module) :
    (m.StructsFit cookie S → ∃ declared refused S₁ c errors T,
      collect DeclaredStruct.declare (S, (Builtins.prepare cookie).moduleContext) m.structs =
        .ok (declared, refused, S₁, c) ∧
      m.declareStructs S (Builtins.prepare cookie).moduleContext =
        .ok (declared, refused ++ errors, T, c) ∧
      IsLeast {L | DeclaredStruct.Closed c declared L}
        {i | (∃ d ∈ declared, d.id? = some i) ∧ T.isComplete i} ∧
      (∃ blamed : List (DeclaredStruct × Diagnostic), blamed.map (·.2) = errors ∧
        (blamed.map (·.1)).Perm (declared.filter fun d => !d.isComplete T) ∧
        ∀ p ∈ blamed, DeclaredStruct.Blamed c T p) ∧
      ∃ n ≤ declared.length, DeclaredStruct.Rounds c n S₁ declared T errors) ∧
    (¬ m.StructsFit cookie S → ∃ op,
      m.declareStructs S (Builtins.prepare cookie).moduleContext = .error (.overflow op)) := by
  rcases declareStructs_cases cookie S m with
    ⟨hfit, declared, refused, S₁, c, errors, T, hcollect, hrun, hok⟩ | ⟨hfit, hoverflow⟩
  · refine ⟨fun _ => ?_, fun hnot => absurd hfit hnot⟩
    obtain ⟨hdeclares, hreads, hholds, hempty, hpending⟩ :=
      DeclaredStruct.pending_of_collect hcollect
    refine ⟨declared, refused, S₁, c, errors, T, hcollect, hok, ?_,
      DeclaredStruct.exists_blamed_perm hreads hholds hpending hrun,
      DeclaredStruct.exists_rounds hrun⟩
    have hleast := DeclaredStruct.isLeast_completed hreads hholds hpending hempty hrun
    simpa only [StructStore.completed, hdeclares] using hleast
  · exact ⟨fun h => absurd h hfit, fun _ => hoverflow⟩

/-- Two structs of which one holds the other fit, and both are defined. -/
theorem declareStructs_least_weave :
    Session.weave.StructsFit (fun _ => 0) .empty ∧ ∃ declared errors T c,
      Session.weave.declareStructs .empty (Builtins.prepare fun _ => 0).moduleContext =
        .ok (declared, errors, T, c) ∧ (T.isComplete 0 && T.isComplete 1) = true ∧
      IsLeast {L | DeclaredStruct.Closed c declared L}
        {i | (∃ d ∈ declared, d.id? = some i) ∧ T.isComplete i} := by
  have htest : (Session.weave.declareStructs .empty
      (Builtins.prepare fun _ => 0).moduleContext).toOption.map
        (fun r => r.2.2.1.isComplete 0 && r.2.2.1.isComplete 1) = some true := by
    decide +kernel
  obtain ⟨hfits, hoverflows⟩ := declareStructs_least (fun _ => 0) .empty Session.weave
  by_cases hfit : Session.weave.StructsFit (fun _ => 0) .empty
  · obtain ⟨declared, refused, -, c, errors, T, -, hok, hleast, -⟩ := hfits hfit
    rw [hok] at htest
    exact ⟨hfit, declared, _, T, c, hok, Option.some.inj htest, hleast⟩
  · obtain ⟨op, hop⟩ := hoverflows hfit
    rw [hop] at htest
    cases htest

/-- A module with one struct, which takes one byte more than a word can count. -/
def tooLarge : Source.Module :=
  let node : Source.Node := ⟨0, ⟨1, 1, "large"⟩⟩
  let name (text : String) : Source.Name := ⟨node, text⟩
  let byte : Source.TypeExpr := .simple node "U8"
  ⟨node, "large", [.struct ⟨node, name "S",
    [⟨node, name "a", .array node byte 18446744073709551615⟩, ⟨node, name "b", byte⟩]⟩]⟩

/-- Defining the struct that is too large overflows. -/
theorem declareStructs_tooLarge :
    tooLarge.declareStructs .empty (Builtins.prepare fun _ => 0).moduleContext =
      .error (.overflow .add) := by
  refine Outcome.eq_error_of_error? ?_
  decide +kernel

/-- **A struct may be too large although it belongs to every closed set.** -/
theorem exists_closed_tooLarge : ∃ declared S₁ c,
    collect DeclaredStruct.declare (.empty, (Builtins.prepare fun _ => 0).moduleContext)
      tooLarge.structs = .ok (declared, [], S₁, c) ∧
    (∀ L, DeclaredStruct.Closed c declared L → 0 ∈ L) ∧
    tooLarge.declareStructs .empty (Builtins.prepare fun _ => 0).moduleContext =
      .error (.overflow .add) := by
  refine ⟨_, _, _, rfl, fun L hL => ?_, declareStructs_tooLarge⟩
  refine hL _ (List.mem_cons_self ..) 0 rfl ((DeclaredStruct.definable_iff rfl).2 ⟨by decide, ?_⟩)
  exact List.forall_mem_cons.2 ⟨⟨nofun, nofun⟩, List.forall_mem_singleton.2 nofun⟩

end Source.Module

end RangeTyping
