import Mathlib
import RangeTyping.Proofs.Analysis.Registration
import RangeTyping.Proofs.Cast.Reference
import RangeTyping.Proofs.Cast.Table

/-!
# What converts to what

In a context with the builtin conversions, a value gets from one type to another in one way at most
(`BuiltinTypes.Way`).  If its type is qualified, the qualifiers are taken off.  Then it is there, or
it is converted: from integer to integer at once, and from or to the character, which only
conversions that are written may do, through the unsigned integer of its size
(`BuiltinTypes.route`).

The search does not know this.  It looks for the cheapest walks, which may lead through any number
of integers.  Routes bound them from below: a conversion followed by a route is a route itself or
costs more than one (`BuiltinTypes.route_of_edge`).  So every walk costs at least as much as the way
from its start, and if it costs no more, it is that way (`CastQuery.exists_way_of_isWalk`).  Hence a
query takes the way from its source if there is one, and finds nothing otherwise
(`CastQuery.casts_eq_way`). So what converts to what does not depend on the search
(`CastQuery.resolve_takes_way`).
-/

namespace RangeTyping

/-! ### Routes between scalars -/

namespace BuiltinTypes

variable {cookie : Registration → Nat} {implicit : Bool} {a b d : Scalar} {c : Cast}

/-- The scalars between which conversions lead. -/
def convertible (types : BuiltinTypes) (implicit : Bool) : List Scalar :=
  if implicit then types.integers else types.integers ++ [types.c8]

/-- **The conversions from one scalar to another**: one between integers, and through the unsigned
integer of its size from and to the character. -/
def route (types : BuiltinTypes) (a b : Scalar) : List Cast :=
  if a = b then []
  else if a = types.c8 then
    .ofChar types.c8 types.u8 :: if b = types.u8 then [] else [.ofIntegers types.u8 b]
  else if b = types.c8 then
    (if a = types.u8 then [] else [.ofIntegers a types.u8]) ++ [.ofChar types.u8 types.c8]
  else [.ofIntegers a b]

@[simp] theorem route_self (types : BuiltinTypes) (a : Scalar) : types.route a a = [] := if_pos rfl

theorem u8_mem : (ofBackend cookie).u8 ∈ (ofBackend cookie).integers := by
  simp [integers]

/-- The character is no integer. -/
theorem ne_c8_of_integer (h : a ∈ (ofBackend cookie).integers) : a ≠ (ofBackend cookie).c8 := by
  rintro rfl
  exact absurd (isInteger_of_mem h) Bool.false_ne_true

theorem mem_convertible_of_integer (h : a ∈ (ofBackend cookie).integers) (implicit : Bool) :
    a ∈ (ofBackend cookie).convertible implicit := by
  cases implicit with
  | true => exact h
  | false => exact List.mem_append_left _ h

theorem mem_all_of_convertible (h : a ∈ (ofBackend cookie).convertible implicit) :
    a ∈ (ofBackend cookie).all := by
  cases implicit with
  | true => exact mem_all_of_integer h
  | false =>
    rcases List.mem_append.1 h with h | h
    · exact mem_all_of_integer h
    · rw [List.mem_singleton.1 h]
      simp [all]

/-- What is convertible is an integer, or the character where conversions are written. -/
theorem integer_or_c8 (h : a ∈ (ofBackend cookie).convertible implicit) :
    a ∈ (ofBackend cookie).integers ∨ implicit = false ∧ a = (ofBackend cookie).c8 := by
  cases implicit with
  | true => exact .inl h
  | false => exact (List.mem_append.1 h).imp id fun h => ⟨rfl, List.mem_singleton.1 h⟩

/-! The cases of a route. -/

theorem route_integers (ha : a ∈ (ofBackend cookie).integers)
    (hb : b ∈ (ofBackend cookie).integers) (hab : a ≠ b) :
    (ofBackend cookie).route a b = [.ofIntegers a b] := by
  rw [route, if_neg hab, if_neg (ne_c8_of_integer ha), if_neg (ne_c8_of_integer hb)]

theorem route_c8_left (hb : b ∈ (ofBackend cookie).integers) :
    (ofBackend cookie).route (ofBackend cookie).c8 b =
      .ofChar (ofBackend cookie).c8 (ofBackend cookie).u8 ::
        (ofBackend cookie).route (ofBackend cookie).u8 b := by
  rw [route, if_neg (ne_c8_of_integer hb).symm, if_pos rfl]
  by_cases hu : b = (ofBackend cookie).u8
  · rw [if_pos hu, hu, route_self]
  · rw [if_neg hu, route_integers u8_mem hb (Ne.symm hu)]

theorem route_c8_right (ha : a ∈ (ofBackend cookie).integers) :
    (ofBackend cookie).route a (ofBackend cookie).c8 =
      (ofBackend cookie).route a (ofBackend cookie).u8 ++
        [.ofChar (ofBackend cookie).u8 (ofBackend cookie).c8] := by
  rw [route, if_neg (ne_c8_of_integer ha), if_neg (ne_c8_of_integer ha), if_pos rfl]
  by_cases hu : a = (ofBackend cookie).u8
  · rw [if_pos hu, hu, route_self]
  · rw [if_neg hu, route_integers ha u8_mem hu]

/-- Between integers, a detour costs more than the route. -/
theorem route_of_integer (ha : a ∈ (ofBackend cookie).integers)
    (hb : b ∈ (ofBackend cookie).integers) (hd : d ∈ (ofBackend cookie).integers) (hab : a ≠ b) :
    (ofBackend cookie).route a d = .ofIntegers a b :: (ofBackend cookie).route b d ∨
      (((ofBackend cookie).route a d).map (·.weight)).sum <
        (Cast.ofIntegers a b).weight + (((ofBackend cookie).route b d).map (·.weight)).sum := by
  by_cases hbd : b = d
  · subst hbd
    rw [route_self, route_integers ha hb hab]
    exact .inl rfl
  · right
    have hpos := (Cast.weight_bounds a hb).1
    by_cases had : a = d
    · rw [had] at hpos ⊢
      rw [route_self, List.map_nil, List.sum_nil]
      exact Nat.add_pos_left (Nat.lt_of_lt_of_le (by decide) hpos) _
    · rw [route_integers ha hd had, route_integers hb hd hbd]
      simpa using Cast.weight_lt_detour a hb hd

/-- **A conversion followed by a route is a route, or costs more than one.** -/
theorem route_of_edge (h : c ∈ (ofBackend cookie).casts.casts)
    (husable : c.usable implicit = true) :
    ∃ a ∈ (ofBackend cookie).convertible implicit, ∃ b ∈ (ofBackend cookie).convertible implicit,
      a ≠ b ∧ c.source = .ofScalar a ∧ c.destination = .ofScalar b ∧
      (ofBackend cookie).route a b = [c] ∧
      ∀ d ∈ (ofBackend cookie).convertible implicit,
        (ofBackend cookie).route a d = c :: (ofBackend cookie).route b d ∨
        (((ofBackend cookie).route a d).map (·.weight)).sum <
          c.weight + (((ofBackend cookie).route b d).map (·.weight)).sum := by
  have hu8 : (ofBackend cookie).u8 ∈ (ofBackend cookie).integers := u8_mem
  rcases mem_casts h with ⟨a, ha, b, hb, hab, rfl⟩ | rfl | rfl
  · refine ⟨a, mem_convertible_of_integer ha implicit, b, mem_convertible_of_integer hb implicit,
      hab, Cast.ofIntegers_source, Cast.ofIntegers_destination, route_integers ha hb hab, ?_⟩
    intro d hd
    rcases integer_or_c8 hd with hd | ⟨-, rfl⟩
    · exact route_of_integer ha hb hd hab
    · rw [route_c8_right ha, route_c8_right hb]
      refine (route_of_integer ha hb hu8 hab).imp (fun h => by rw [h, List.cons_append]) fun h => ?_
      simp only [List.map_append, List.sum_append, ← Nat.add_assoc]
      exact Nat.add_lt_add_right h _
  · obtain rfl : implicit = false := by
      cases implicit with
      | true => cases husable
      | false => rfl
    -- every route from the character starts with this conversion
    refine ⟨_, List.mem_append_right _ (List.mem_singleton.2 rfl), _,
      mem_convertible_of_integer hu8 false, (ne_c8_of_integer hu8).symm, rfl, rfl, ?_, ?_⟩
    · rw [route_c8_left hu8, route_self]
    · intro d hd
      rcases integer_or_c8 hd with hd | ⟨-, rfl⟩
      · exact .inl (route_c8_left hd)
      · right
        rw [route_self, List.map_nil, List.sum_nil]
        exact Nat.add_pos_left (by decide : 0 < 10) _
  · obtain rfl : implicit = false := by
      cases implicit with
      | true => cases husable
      | false => rfl
    -- a route on from the character leads back to where this conversion starts
    refine ⟨_, mem_convertible_of_integer hu8 false, _, List.mem_append_right _
      (List.mem_singleton.2 rfl), ne_c8_of_integer hu8, rfl, rfl, ?_, ?_⟩
    · rw [route_c8_right hu8, route_self, List.nil_append]
    · intro d hd
      rcases integer_or_c8 hd with hd | ⟨-, rfl⟩
      · right
        rw [route_c8_left hd, List.map_cons, List.sum_cons]
        refine (Nat.lt_add_of_pos_left ?_).trans_le (Nat.le_add_left ..)
        exact (by decide : 0 < 10)
      · rw [route_c8_right hu8, route_self, route_self]
        exact .inl rfl

theorem ofChar_mem_casts :
    .ofChar (ofBackend cookie).c8 (ofBackend cookie).u8 ∈ (ofBackend cookie).casts.casts ∧
      .ofChar (ofBackend cookie).u8 (ofBackend cookie).c8 ∈ (ofBackend cookie).casts.casts := by
  constructor
  · refine List.mem_flatMap.2 ⟨_, List.mem_append_left _ (List.mem_map.2 ⟨_, u8_mem, rfl⟩), ?_⟩
    exact List.mem_append_right _ (List.mem_singleton.2 rfl)
  · refine List.mem_flatMap.2 ⟨_, List.mem_append_right _ (List.mem_singleton.2 rfl), ?_⟩
    exact List.mem_singleton.2 rfl

theorem usable_of_integers (a b : Scalar) (implicit : Bool) :
    (Cast.ofIntegers a b).usable implicit = true := by
  cases implicit with
  | true => exact Cast.usable_ofIntegers a b
  | false => rfl

/-- **A route starts with a conversion** and goes on with the route from there. -/
theorem exists_route_eq_cons (ha : a ∈ (ofBackend cookie).convertible implicit)
    (hd : d ∈ (ofBackend cookie).convertible implicit) (had : a ≠ d) :
    ∃ c ∈ (ofBackend cookie).casts.casts, c.usable implicit = true ∧ c.source = .ofScalar a ∧
      ∃ b ∈ (ofBackend cookie).convertible implicit, c.destination = .ofScalar b ∧
        (ofBackend cookie).route a d = c :: (ofBackend cookie).route b d := by
  have hu8 : (ofBackend cookie).u8 ∈ (ofBackend cookie).integers := u8_mem
  rcases integer_or_c8 ha with ha' | ⟨rfl, rfl⟩
  · rcases integer_or_c8 hd with hd' | ⟨rfl, rfl⟩
    · -- one conversion leads from any integer to any other
      refine ⟨_, ofIntegers_mem_casts ha' hd' had, usable_of_integers a d implicit,
        Cast.ofIntegers_source, d, hd, Cast.ofIntegers_destination, ?_⟩
      rw [route_integers ha' hd' had, route_self]
    · -- the character is reached by way of the unsigned integer of its size
      rw [route_c8_right ha']
      by_cases hu : a = (ofBackend cookie).u8
      · refine ⟨_, ofChar_mem_casts.2, rfl, by rw [hu]; rfl, _, hd, rfl, ?_⟩
        rw [hu, route_self, route_self, List.nil_append]
      · refine ⟨_, ofIntegers_mem_casts ha' hu8 hu, rfl, Cast.ofIntegers_source, _,
          mem_convertible_of_integer hu8 false, Cast.ofIntegers_destination, ?_⟩
        rw [route_integers ha' hu8 hu, route_c8_right hu8, route_self]
        rfl
  · rcases integer_or_c8 hd with hd' | ⟨-, rfl⟩
    · -- and left by way of the same integer
      exact ⟨_, ofChar_mem_casts.1, rfl, rfl, _, mem_convertible_of_integer hu8 false, rfl,
        route_c8_left hd'⟩
    · exact absurd rfl had

/-- **Induction along a route**, from its end to its start. -/
theorem route_induction {motive : Scalar → List Cast → Prop}
    (hd : d ∈ (ofBackend cookie).convertible implicit) (stay : motive d [])
    (step : ∀ a b c rest, c ∈ (ofBackend cookie).casts.casts → c.usable implicit = true →
      c.source = .ofScalar a → c.destination = .ofScalar b → motive b rest → motive a (c :: rest))
    (ha : a ∈ (ofBackend cookie).convertible implicit) :
    motive a ((ofBackend cookie).route a d) := by
  generalize hroute : (ofBackend cookie).route a d = route
  induction route generalizing a with
  | nil =>
    have had : a = d := by
      by_contra had
      obtain ⟨c, -, -, -, b, -, -, hcons⟩ := exists_route_eq_cons ha hd had
      rw [hroute] at hcons
      cases hcons
    rw [had]
    exact stay
  | cons c rest ih =>
    have had : a ≠ d := by
      rintro rfl
      rw [route_self] at hroute
      cases hroute
    obtain ⟨c', hc, husable, hsource, b, hb, hdestination, hcons⟩ := exists_route_eq_cons ha hd had
    cases hroute.symm.trans hcons
    exact step a b c _ hc husable hsource hdestination (ih hb rfl)

/-- The conversions of a route are builtin ones. -/
theorem forall_mem_route (ha : a ∈ (ofBackend cookie).convertible implicit)
    (hd : d ∈ (ofBackend cookie).convertible implicit) :
    ∀ c ∈ (ofBackend cookie).route a d, c ∈ (ofBackend cookie).casts.casts := by
  refine route_induction (motive := fun _ route => ∀ c ∈ route, c ∈ (ofBackend cookie).casts.casts)
    hd ?_ ?_ ha
  · exact fun c hc => absurd hc List.not_mem_nil
  · intro a b c rest hc _ _ _ hrest
    exact List.forall_mem_cons.2 ⟨hc, hrest⟩

end BuiltinTypes

/-! ### Decays -/

namespace Cast

variable {S : StructStore} {t u : Ty} {c : Cast}

/-- **Every qualified type decays.** -/
theorem exists_decay (ht : t.flags ≠ .none) (hu : t.unqualified.same S u = true) :
    ∃ d ∈ decays u, d.source.same S t = true := by
  have hplain : u.flags = .none := by
    rw [← Ty.flags_eq_of_same hu, Ty.unqualified, Ty.flags_withFlags]
  have hsame : (u.addFlags t.flags).same S t = true := by
    have hadd : u.addFlags t.flags = u.withFlags t.flags := by
      rw [Ty.addFlags, hplain]
      rfl
    have hwith := Ty.same_withFlags hu t.flags
    rw [Ty.unqualified, Ty.withFlags_withFlags, Ty.withFlags_flags] at hwith
    rw [hadd, Ty.same_comm]
    exact hwith
  rcases hflags : t.flags with ⟨reference, isMutable⟩
  rw [hflags] at hsame ht
  cases reference <;> cases isMutable
  · exact absurd rfl ht
  · exact ⟨_, .tail _ (.tail _ (.head _)), hsame⟩
  · exact ⟨_, .head _, hsame⟩
  · exact ⟨_, .tail _ (.head _), hsame⟩

theorem isDecay_of_mem (hu : u.flags = .none) (h : c ∈ decays u) : c.IsDecay := by
  rw [IsDecay, destination_of_mem_decays h]
  exact ⟨Flags.isEmpty_iff.2 hu, h⟩

/-- Decays from types that are the same are alike. -/
theorem like_of_isDecay {c' : Cast} (hc : c.IsDecay) (hc' : c'.IsDecay)
    (h : c.source.same S c'.source = true) : c.Like S c' := by
  refine .inr ⟨hc, hc', h, ?_⟩
  rw [← (source_of_decay (Flags.isEmpty_iff.1 hc.1) hc.2).2,
    ← (source_of_decay (Flags.isEmpty_iff.1 hc'.1) hc'.2).2]
  exact Ty.same_withFlags h .none

/-- A builtin conversion is no decay. -/
theorem not_isDecay {cookie : Registration → Nat}
    (h : c ∈ (BuiltinTypes.ofBackend cookie).casts.casts) : ¬ c.IsDecay := by
  intro hd
  have hzero := hd.weight
  rcases BuiltinTypes.mem_casts h with ⟨a, -, b, hb, -, rfl⟩ | rfl | rfl
  · have hpos := (weight_bounds a hb).1
    rw [hzero] at hpos
    exact absurd hpos (by decide)
  · cases hzero
  · cases hzero

end Cast

/-! ### Ways between types -/

namespace BuiltinTypes

/-- Plain types and the conversions from one to the other. -/
inductive Route (types : BuiltinTypes) (S : StructStore) (implicit : Bool) :
    Ty → Ty → List Cast → Prop where
  | stay {t u : Ty} (h : t.same S u = true) : Route types S implicit t u []
  | scalars {t u : Ty} {a b : Scalar} (ha : a ∈ types.convertible implicit)
      (hb : b ∈ types.convertible implicit) (hab : a ≠ b) (ht : t.same S (.ofScalar a) = true)
      (hu : u.same S (.ofScalar b) = true) : Route types S implicit t u (types.route a b)

/-- **The way from one type to another**: a decay if the first is qualified, and the conversions
from there. -/
inductive Way (types : BuiltinTypes) (S : StructStore) (implicit : Bool) :
    Ty → Ty → List Cast → List Cast → Prop where
  | plain {t u : Ty} {route : List Cast} (hflags : t.flags = .none)
      (h : Route types S implicit t u route) : Way types S implicit t u [] route
  | qualified {t u : Ty} {d : Cast} {route : List Cast} (hflags : t.flags ≠ .none)
      (hd : d.IsDecay) (hsource : d.source.same S t = true)
      (h : Route types S implicit t.unqualified u route) : Way types S implicit t u [d] route

variable {cookie : Registration → Nat} {S : StructStore} {implicit : Bool} {t t' u : Ty}
  {a b : Scalar} {decay route : List Cast} {c : Cast}

theorem Route.of_scalars (ha : a ∈ (ofBackend cookie).convertible implicit)
    (hb : b ∈ (ofBackend cookie).convertible implicit) (ht : t.same S (.ofScalar a) = true)
    (hu : u.same S (.ofScalar b) = true) :
    (ofBackend cookie).Route S implicit t u ((ofBackend cookie).route a b) := by
  by_cases hab : a = b
  · subst hab
    rw [route_self]
    rw [Ty.same_comm] at hu
    exact .stay (Ty.same_trans ht hu)
  · exact .scalars ha hb hab ht hu

/-- The route from a scalar ends at a scalar. -/
theorem Route.exists_scalar (h : (ofBackend cookie).Route S implicit t u route)
    (ha : a ∈ (ofBackend cookie).convertible implicit) (ht : t.same S (.ofScalar a) = true) :
    ∃ b ∈ (ofBackend cookie).convertible implicit, u.same S (.ofScalar b) = true ∧
      route = (ofBackend cookie).route a b := by
  cases h with
  | stay hsame =>
    rw [Ty.same_comm] at hsame
    exact ⟨a, ha, Ty.same_trans hsame ht, (route_self _ a).symm⟩
  | @scalars a' b ha' hb hab ht' hu =>
    rw [Ty.same_comm] at ht'
    have heq := eq_of_same_ofScalar (mem_all_of_convertible ha') (mem_all_of_convertible ha)
      (Ty.same_trans ht' ht)
    exact ⟨b, hb, hu, by rw [heq]⟩

theorem Route.of_same (h : t.same S t' = true)
    (hroute : (ofBackend cookie).Route S implicit t u route) :
    (ofBackend cookie).Route S implicit t' u route := by
  rw [Ty.same_comm] at h
  cases hroute with
  | stay hsame => exact .stay (Ty.same_trans h hsame)
  | scalars ha hb hab ht hu => exact .scalars ha hb hab (Ty.same_trans h ht) hu

/-- Types that are the same have the same ways. -/
theorem Way.of_same (h : t.same S t' = true)
    (hway : (ofBackend cookie).Way S implicit t u decay route) :
    (ofBackend cookie).Way S implicit t' u decay route := by
  have hflags := Ty.flags_eq_of_same h
  cases hway with
  | plain hplain hroute => exact .plain (hflags ▸ hplain) (hroute.of_same h)
  | qualified hqualified hd hsource hroute =>
    exact .qualified (hflags ▸ hqualified) hd (Ty.same_trans hsource h)
      (hroute.of_same (Ty.same_withFlags h .none))

theorem Route.unique {route' : List Cast} (h : (ofBackend cookie).Route S implicit t u route)
    (h' : (ofBackend cookie).Route S implicit t u route') : route = route' := by
  cases h with
  | stay hsame =>
    cases h' with
    | stay => rfl
    | scalars ha hb hab ht hu =>
      rw [Ty.same_comm] at ht
      exact absurd (eq_of_same_ofScalar (mem_all_of_convertible ha) (mem_all_of_convertible hb)
        (Ty.same_trans ht (Ty.same_trans hsame hu))) hab
  | scalars ha hb hab ht hu =>
    obtain ⟨b', hb', hu', rfl⟩ := h'.exists_scalar ha ht
    rw [Ty.same_comm] at hu
    rw [eq_of_same_ofScalar (mem_all_of_convertible hb) (mem_all_of_convertible hb')
      (Ty.same_trans hu hu')]

/-- **There is one way at most**, up to types that are the same. -/
theorem Way.unique {decay' route' : List Cast}
    (h : (ofBackend cookie).Way S implicit t u decay route)
    (h' : (ofBackend cookie).Way S implicit t u decay' route') :
    decay.map (Cast.toClass S) = decay'.map (Cast.toClass S) ∧ route = route' := by
  cases h with
  | plain hflags hroute =>
    cases h' with
    | plain _ hroute' => exact ⟨rfl, hroute.unique hroute'⟩
    | qualified hflags' => exact absurd hflags hflags'
  | @qualified d _ hflags hd hsource hroute =>
    cases h' with
    | plain hflags' => exact absurd hflags' hflags
    | @qualified d' _ _ hd' hsource' hroute' =>
      rw [Ty.same_comm] at hsource'
      have hlike : d.Like S d' := Cast.like_of_isDecay hd hd' (Ty.same_trans hsource hsource')
      exact ⟨congrArg (fun x => [x]) (Cast.toClass_eq.2 hlike), hroute.unique hroute'⟩

/-- Routes consist of builtin conversions. -/
theorem Route.forall_mem (h : (ofBackend cookie).Route S implicit t u route) :
    ∀ c ∈ route, c ∈ (ofBackend cookie).casts.casts := by
  cases h with
  | stay => exact fun c hc => absurd hc List.not_mem_nil
  | scalars ha hb => exact forall_mem_route ha hb

/-- **There is a way exactly to plain types**: to the type without its qualifiers, and from one
convertible scalar to another. -/
theorem exists_way_iff : (∃ decay route, (ofBackend cookie).Way S implicit t u decay route) ↔
    u.flags = .none ∧ (t.unqualified.same S u = true ∨
      ∃ a ∈ (ofBackend cookie).convertible implicit, ∃ b ∈ (ofBackend cookie).convertible implicit,
        t.unqualified.same S (.ofScalar a) = true ∧ u.same S (.ofScalar b) = true) := by
  have hplain : ∀ {t : Ty}, t.flags = .none → t.unqualified = t := fun h => by
    rw [Ty.unqualified, ← h, Ty.withFlags_flags]
  have hroute : ∀ {route}, (ofBackend cookie).Route S implicit t.unqualified u route →
      u.flags = .none ∧ (t.unqualified.same S u = true ∨
        ∃ a ∈ (ofBackend cookie).convertible implicit,
          ∃ b ∈ (ofBackend cookie).convertible implicit,
            t.unqualified.same S (.ofScalar a) = true ∧ u.same S (.ofScalar b) = true) := by
    intro route h
    cases h with
    | stay hsame =>
      refine ⟨?_, .inl hsame⟩
      rw [← Ty.flags_eq_of_same hsame, Ty.unqualified, Ty.flags_withFlags]
    | scalars ha hb _ ht hu => exact ⟨Ty.flags_eq_of_same hu, .inr ⟨_, ha, _, hb, ht, hu⟩⟩
  constructor
  · rintro ⟨decay, route, h⟩
    cases h with
    | plain hflags h => exact hroute ((hplain hflags).symm ▸ h)
    | qualified _ _ _ h => exact hroute h
  · rintro ⟨hu, h⟩
    obtain ⟨route, hroute⟩ : ∃ route,
        (ofBackend cookie).Route S implicit t.unqualified u route := by
      rcases h with h | ⟨a, ha, b, hb, ht, hu⟩
      · exact ⟨[], .stay h⟩
      · exact ⟨_, .of_scalars ha hb ht hu⟩
    by_cases hflags : t.flags = .none
    · exact ⟨[], route, .plain hflags (hplain hflags ▸ hroute)⟩
    · -- what is qualified has to decay first
      obtain ⟨d, hd, hsource⟩ := Cast.exists_decay hflags (Ty.same_self S t.unqualified)
      have hdecay := Cast.isDecay_of_mem (Ty.flags_withFlags .none t) hd
      exact ⟨[d], route, .qualified hflags hdecay hsource hroute⟩

end BuiltinTypes

/-! ### The graph of the builtins -/

namespace BuiltinTypes

variable {cookie : Registration → Nat} {S : StructStore} {G : CastGraph} {t u : Ty} {c : Cast}

namespace Sole

/-- A conversion is found at the type where it ends. -/
theorem keyed (h : (ofBackend cookie).Sole G) (S : StructStore) : G.Keyed S := by
  intro t c hc
  rw [h.castsTo_eq, List.mem_append] at hc
  rcases hc with hc | hc
  · exact (mem_casts_of_find hc).2.choose_spec.2.2
  · split at hc
    · rw [Cast.destination_of_mem_decays hc]
      exact Ty.same_self S t
    · cases hc

/-- **The conversions to a type**: builtin ones to a scalar, and decays to a plain type. -/
theorem mem_castsTo_iff (h : (ofBackend cookie).Sole G) : c ∈ G.castsTo S t ↔
    c ∈ (ofBackend cookie).casts.casts ∧ c.destination.same S t = true ∨
      t.flags = .none ∧ c ∈ Cast.decays t := by
  rw [h.castsTo_eq, List.mem_append, ← Flags.isEmpty_iff]
  refine or_congr ⟨fun hc => ?_, fun hc => mem_find hc.1 hc.2⟩ ?_
  · obtain ⟨hmem, b, -, -, hsame⟩ := mem_casts_of_find hc
    exact ⟨hmem, hsame⟩
  · split
    · rename_i hempty
      simp [hempty]
    · rename_i hempty
      simp [hempty]

/-- Only plain types have conversions to them. -/
theorem flags_of_mem_castsTo (h : (ofBackend cookie).Sole G) (hc : c ∈ G.castsTo S t) :
    t.flags = .none := by
  rcases h.mem_castsTo_iff.1 hc with ⟨hmem, hsame⟩ | ⟨hflags, -⟩
  · rw [← Ty.flags_eq_of_same hsame]
    rcases mem_casts hmem with ⟨a, -, b, -, -, rfl⟩ | rfl | rfl
    · rw [Cast.ofIntegers_destination]
      rfl
    · rfl
    · rfl
  · exact hflags

/-- All conversions together are lighter than the greatest weight. -/
theorem totalWeight_lt (h : (ofBackend cookie).Sole G) : G.totalWeight < maxWeight := by
  obtain ⟨n, hn⟩ := h.tables
  have hempty : (List.replicate n ([] : CastTable)).flatMap CastTable.casts = [] := by
    rw [List.flatMap_eq_nil_iff]
    intro table htable
    rw [List.eq_of_mem_replicate htable]
    rfl
  rw [CastGraph.totalWeight, hn, List.flatMap_append, hempty, List.nil_append,
    List.flatMap_singleton]
  have hweight : ∀ w ∈ (ofBackend cookie).casts.casts.map (·.weight), w ≤ 30 := by
    intro w hw
    obtain ⟨c, hc, rfl⟩ := List.mem_map.1 hw
    rcases mem_casts hc with ⟨a, -, b, hb, -, rfl⟩ | rfl | rfl
    · exact (Cast.weight_bounds a hb).2
    · exact (by decide : 10 ≤ 30)
    · exact (by decide : 10 ≤ 30)
  have hentry : ∀ l ∈ (ofBackend cookie).casts.map (·.2.length), l ≤ 9 := by
    intro l hl
    obtain ⟨entry, hentry, rfl⟩ := List.mem_map.1 hl
    rcases List.mem_append.1 hentry with hentry | hentry
    · obtain ⟨b, -, rfl⟩ := List.mem_map.1 hentry
      have hfilter := List.length_filter_le (fun a => !a.same b) (ofBackend cookie).integers
      have hlength : (ofBackend cookie).integers.length = 8 := rfl
      rw [List.length_append, List.length_map]
      split
      · exact Nat.add_le_add (hlength ▸ hfilter) le_rfl
      · exact (hlength ▸ hfilter).trans (by decide)
    · rw [List.mem_singleton.1 hentry]
      exact (by decide : 1 ≤ 9)
  -- nine entries of at most nine conversions, each of which weighs at most 30
  have hlength := List.sum_le_card_nsmul _ 9 hentry
  have hsum := List.sum_le_card_nsmul _ 30 hweight
  rw [List.length_map, CastTable.casts, List.length_flatMap] at hsum
  rw [List.length_map, show (ofBackend cookie).casts.length = 9 from rfl] at hlength
  calc _ ≤ _ := hsum
    _ ≤ (9 • 9) • 30 := Nat.mul_le_mul_right 30 hlength
    _ < maxWeight := by decide

end Sole

end BuiltinTypes

/-! ### Walks and ways -/

namespace CastQuery

open BuiltinTypes

variable {cookie : Registration → Nat} {S : StructStore} {G : CastGraph} {q : CastQuery}
  {walk walk' rest : List (Nat × Cast)} {t : Ty} {c : Cast} {m : Nat}
  {casts decay route : List Cast} {a b : Scalar}

/-- **A conversion followed by a route is a way**, or costs more than one; it is a way if the route
is empty. -/
theorem exists_way_of_mem (hG : (ofBackend cookie).Sole G) (hc : c ∈ q.usableInto S G t)
    (h : (ofBackend cookie).Route S q.implicit t q.destination route) :
    ∃ decay route', (ofBackend cookie).Way S q.implicit c.source q.destination decay route' ∧
      (decay ++ route' = c :: route ∧
        (route'.map (·.weight)).sum = c.weight + (route.map (·.weight)).sum ∨
      route ≠ [] ∧ (route'.map (·.weight)).sum < c.weight + (route.map (·.weight)).sum) := by
  obtain ⟨hc, husable⟩ := List.mem_filter.1 hc
  rcases hG.mem_castsTo_iff.1 hc with ⟨hmem, hsame⟩ | ⟨hflags, hdecay⟩
  · -- the route goes on from the scalar where the conversion ends, so it is one between scalars
    obtain ⟨a, ha, b, hb, -, hsource, hdestination, hedge, hdetour⟩ := route_of_edge hmem husable
    rw [hdestination, Ty.same_comm] at hsame
    obtain ⟨d, hd, hu, rfl⟩ := h.exists_scalar hb hsame
    have hway : (ofBackend cookie).Way S q.implicit c.source q.destination []
        ((ofBackend cookie).route a d) := by
      rw [hsource]
      exact .plain rfl (.of_scalars ha hd (Ty.same_self S _) hu)
    refine ⟨[], _, hway, ?_⟩
    by_cases hbd : b = d
    · subst hbd
      rw [route_self, hedge]
      exact .inl ⟨rfl, rfl⟩
    · obtain ⟨c', -, -, -, b', -, -, hcons⟩ := exists_route_eq_cons hb hd hbd
      rcases hdetour d hd with hroute | hlt
      · rw [hroute]
        exact .inl ⟨rfl, rfl⟩
      · exact .inr ⟨by rw [hcons]; exact List.cons_ne_nil _ _, hlt⟩
  · -- a decay may precede any route, and costs nothing
    obtain ⟨hqualified, hunqualified⟩ := Cast.source_of_decay hflags hdecay
    have hd := Cast.isDecay_of_mem hflags hdecay
    refine ⟨[c], route, .qualified hqualified hd (Ty.same_self S _) (hunqualified.symm ▸ h),
      .inl ⟨rfl, ?_⟩⟩
    rw [hd.weight, Nat.zero_add]

/-- **A walk costs at least as much as the way from its start**, and if it costs no more, it is this
way. -/
theorem exists_way_of_isWalk (hG : (ofBackend cookie).Sole G) (hd : q.destination.flags = .none)
    (h : q.IsWalk S G walk) : ∃ decay route,
      (ofBackend cookie).Way S q.implicit (q.startOf walk) q.destination decay route ∧
      (route.map (·.weight)).sum ≤ walkWeight walk ∧
      (walkWeight walk ≤ (route.map (·.weight)).sum → walk.map (·.2) = decay ++ route) := by
  induction walk with
  | nil => exact ⟨[], [], .plain hd (.stay (Ty.same_self S _)), le_rfl, fun _ => rfl⟩
  | cons e rest ih =>
    obtain ⟨i, c⟩ := e
    obtain ⟨hrest, hc⟩ := h
    have hc := List.mem_of_getElem? hc
    obtain ⟨decay, route, hway, hle, heq⟩ := ih hrest
    -- conversions lead to plain types only, so the rest of the walk starts without a decay
    cases hway with
    | qualified hflags =>
      exact absurd (hG.flags_of_mem_castsTo (List.mem_filter.1 hc).1) hflags
    | plain _ hroute =>
      obtain ⟨decay, route', hway, hcons⟩ := exists_way_of_mem hG hc hroute
      refine ⟨decay, route', hway, ?_, ?_⟩
      · rw [walkWeight_cons]
        rcases hcons with ⟨-, hsum⟩ | ⟨-, hlt⟩
        · exact hsum.trans_le (Nat.add_le_add_left hle _)
        · exact hlt.le.trans (Nat.add_le_add_left hle _)
      · rw [walkWeight_cons]
        intro hcheap
        rcases hcons with ⟨hcasts, hsum⟩ | ⟨-, hlt⟩
        · rw [hsum] at hcheap
          rw [hcasts, List.map_cons, heq (Nat.le_of_add_le_add_left hcheap)]
          rfl
        · exact absurd (hcheap.trans_lt hlt) (Nat.add_le_add_left hle _).not_gt

theorem exists_isWalk_cons (h : q.IsWalk S G rest) (hc : c ∈ q.usableInto S G (q.startOf rest)) :
    ∃ i, q.IsWalk S G ((i, c) :: rest) := by
  obtain ⟨i, hi⟩ := List.mem_iff_getElem?.1 hc
  exact ⟨i, h, hi⟩

/-- Routes between scalars are walks. -/
theorem exists_isWalk_of_scalars (hG : (ofBackend cookie).Sole G)
    (ha : a ∈ (ofBackend cookie).convertible q.implicit)
    (hb : b ∈ (ofBackend cookie).convertible q.implicit)
    (hd : (Ty.ofScalar b).same S q.destination = true) : ∃ walk, q.IsWalk S G walk ∧
      (Ty.ofScalar a).same S (q.startOf walk) = true ∧
      walkWeight walk = (((ofBackend cookie).route a b).map (·.weight)).sum := by
  refine route_induction (motive := fun a route => ∃ walk, q.IsWalk S G walk ∧
    (Ty.ofScalar a).same S (q.startOf walk) = true ∧
    walkWeight walk = (route.map (·.weight)).sum) hb ⟨[], trivial, hd, rfl⟩ ?_ ha
  rintro a b' c rest hmem husable hsource hdestination ⟨walk, hwalk, hstart, hweight⟩
  have hc : c ∈ q.usableInto S G (q.startOf walk) :=
    List.mem_filter.2 ⟨hG.mem_castsTo_iff.2 (.inl ⟨hmem, hdestination ▸ hstart⟩), husable⟩
  obtain ⟨i, hi⟩ := exists_isWalk_cons hwalk hc
  refine ⟨_, hi, ?_, ?_⟩
  · rw [startOf, hsource]
    exact Ty.same_self S _
  · rw [walkWeight_cons, hweight, List.map_cons, List.sum_cons]

theorem exists_isWalk_of_route (hG : (ofBackend cookie).Sole G)
    (h : (ofBackend cookie).Route S q.implicit t q.destination route) : ∃ walk,
      q.IsWalk S G walk ∧ t.same S (q.startOf walk) = true ∧
      walkWeight walk = (route.map (·.weight)).sum := by
  cases h with
  | stay hsame => exact ⟨[], trivial, hsame, rfl⟩
  | scalars ha hb _ ht hu =>
    rw [Ty.same_comm] at hu
    obtain ⟨walk, hwalk, hstart, hweight⟩ := exists_isWalk_of_scalars hG ha hb hu
    exact ⟨walk, hwalk, Ty.same_trans ht hstart, hweight⟩

/-- **The way from the source is a walk.** -/
theorem exists_connects_of_way (hG : (ofBackend cookie).Sole G)
    (h : (ofBackend cookie).Way S q.implicit q.source q.destination decay route) :
    ∃ walk, q.Connects S G walk ∧ walkWeight walk = (route.map (·.weight)).sum := by
  cases h with
  | plain _ hroute =>
    obtain ⟨walk, hwalk, hstart, hweight⟩ := exists_isWalk_of_route hG hroute
    rw [Ty.same_comm] at hstart
    exact ⟨walk, ⟨hwalk, Ty.toClass_eq.2 hstart⟩, hweight⟩
  | qualified hflags _ _ hroute =>
    obtain ⟨walk, hwalk, hstart, hweight⟩ := exists_isWalk_of_route hG hroute
    have hplain : (q.startOf walk).flags = .none := by
      rw [← Ty.flags_eq_of_same hstart, Ty.unqualified, Ty.flags_withFlags]
    -- the source decays into the start of the walk, which is plain
    obtain ⟨d, hd, hsource⟩ := Cast.exists_decay hflags hstart
    have hmem : d ∈ q.usableInto S G (q.startOf walk) := by
      refine List.mem_filter.2 ⟨hG.mem_castsTo_iff.2 (.inr ⟨hplain, hd⟩), ?_⟩
      rw [Cast.usable, (Cast.isDecay_of_mem hplain hd).rule]
      exact Bool.or_true _
    obtain ⟨i, hi⟩ := exists_isWalk_cons hwalk hmem
    refine ⟨_, ⟨hi, Ty.toClass_eq.2 hsource⟩, ?_⟩
    rw [walkWeight_cons, (Cast.isDecay_of_mem hplain hd).weight, Nat.zero_add, hweight]

/-- Walks with the same conversions are equal. -/
theorem eq_of_map_toClass (hG : (ofBackend cookie).Sole G) (h : q.IsWalk S G walk)
    (h' : q.IsWalk S G walk')
    (hcasts : walk.map (·.2.toClass S) = walk'.map (·.2.toClass S)) : walk = walk' := by
  induction walk generalizing walk' with
  | nil =>
    symm
    simpa using hcasts
  | cons e rest ih =>
    obtain ⟨i, c⟩ := e
    cases walk' with
    | nil => simp at hcasts
    | cons e' rest' =>
      obtain ⟨i', c'⟩ := e'
      rw [List.map_cons, List.map_cons, List.cons.injEq] at hcasts
      obtain rfl := ih h.1 h'.1 hcasts.2
      obtain ⟨-, hc⟩ := h
      obtain ⟨-, hc'⟩ := h'
      -- conversions to one type start at different types, so this one has one place among them
      have hnodup : ((q.usableInto S G (q.startOf rest)).map (·.source.toClass S)).Nodup :=
        (hG.nodup_sources S _).sublist (List.filter_sublist.map _)
      have hget : ((q.usableInto S G (q.startOf rest)).map (·.source.toClass S))[i]? =
          ((q.usableInto S G (q.startOf rest)).map (·.source.toClass S))[i']? := by
        rw [List.getElem?_map, List.getElem?_map, hc, hc']
        exact congrArg (fun x => some x.source) hcasts.1
      have hlt : i < ((q.usableInto S G (q.startOf rest)).map (·.source.toClass S)).length := by
        rw [List.length_map]
        exact (List.getElem?_eq_some_iff.1 hc).1
      obtain rfl := (List.getElem?_inj hlt hnodup).1 hget
      rw [Option.some.inj (hc.symm.trans hc')]

/-- Walks between different types end at a plain type. -/
theorem Connects.flags_destination (hG : (ofBackend cookie).Sole G)
    (hne : q.source.same S q.destination = false) (h : q.Connects S G walk) :
    q.destination.flags = .none := by
  obtain ⟨hwalk, hstart⟩ := h
  cases walk with
  | nil => exact absurd hstart.symm (toClass_ne hne)
  | cons e rest =>
    -- the last conversion of the walk ends at the destination
    clear hstart
    induction rest generalizing e with
    | nil => exact hG.flags_of_mem_castsTo (List.mem_filter.1 (List.mem_of_getElem? hwalk.2)).1
    | cons e' rest ih => exact ih e' hwalk.1

/-- **A walk of least weight is the way from the source.** -/
theorem way_of_least (hG : (ofBackend cookie).Sole G)
    (hne : q.source.same S q.destination = false) (hm : q.IsLeastWeight S G m)
    (h : q.Connects S G walk) (hweight : walkWeight walk = m) : ∃ decay route,
      (ofBackend cookie).Way S q.implicit q.source q.destination decay route ∧
      walk.map (·.2) = decay ++ route := by
  obtain ⟨decay, route, hway, -, heq⟩ :=
    exists_way_of_isWalk hG (h.flags_destination hG hne) h.isWalk
  have hway := hway.of_same (Ty.toClass_eq.1 h.start)
  obtain ⟨walk', hwalk', hweight'⟩ := exists_connects_of_way hG hway
  refine ⟨decay, route, hway, heq ?_⟩
  rw [hweight, ← hweight']
  exact hm.2 ⟨walk', hwalk', rfl⟩

/-! ### What a query takes -/

/-- There is one direct conversion at most. -/
theorem length_leastDirect_le (hG : (ofBackend cookie).Sole G) :
    (q.leastDirect S G).length ≤ 1 := by
  have hsub : (q.leastDirect S G).Sublist (G.castsTo S q.destination) :=
    List.filter_sublist.trans (List.filter_sublist.trans List.filter_sublist)
  have hnodup := (hG.nodup_sources S q.destination).sublist (hsub.map (·.source.toClass S))
  have hsource : ∀ x ∈ (q.leastDirect S G).map (·.source.toClass S), x = q.source.toClass S := by
    intro x hx
    obtain ⟨c, hc, rfl⟩ := List.mem_map.1 hx
    exact Ty.toClass_eq.2 (List.mem_filter.1 (List.mem_filter.1 hc).1).2
  rw [List.eq_replicate_of_mem hsource, List.nodup_replicate, List.length_map] at hnodup
  exact hnodup

/-- Conversions like those of a way are a way. -/
theorem exists_way_of_like
    (h : (ofBackend cookie).Way S q.implicit q.source q.destination decay route)
    (hcasts : casts.map (Cast.toClass S) = (decay ++ route).map (Cast.toClass S)) :
    ∃ decay', (ofBackend cookie).Way S q.implicit q.source q.destination decay' route ∧
      casts = decay' ++ route := by
  have hbuiltin : ∀ {casts route : List Cast}, (∀ c ∈ route, ¬ c.IsDecay) →
      casts.map (Cast.toClass S) = route.map (Cast.toClass S) → casts = route := by
    intro casts route hroute hcasts
    refine Cast.eq_of_map_toClass_eq hcasts fun c _ c' hc' hlike => ?_
    rcases hlike with rfl | ⟨-, hdecay, -⟩
    · rfl
    · exact absurd hdecay (hroute c' hc')
  cases h with
  | plain hflags hroute =>
    exact ⟨[], .plain hflags hroute,
      hbuiltin (fun c hc => Cast.not_isDecay (hroute.forall_mem c hc)) hcasts⟩
  | qualified hflags hd hsource hroute =>
    obtain ⟨d', rest, rfl, hlike, hrest⟩ := List.map_eq_cons_iff.1 hcasts
    have hlike := Cast.toClass_eq.1 hlike
    have hd' : d'.IsDecay := by
      rcases hlike with rfl | ⟨hd', -⟩
      · exact hd
      · exact hd'
    refine ⟨[d'], .qualified hflags hd' (Ty.same_trans hlike.source hsource) hroute, ?_⟩
    rw [hbuiltin (fun c hc => Cast.not_isDecay (hroute.forall_mem c hc)) hrest]
    rfl

/-- **A query takes the way from its source**, and finds nothing if there is none. -/
theorem casts_eq_way (hG : (ofBackend cookie).Sole G)
    (hne : q.source.same S q.destination = false) :
    (∃ decay route, (ofBackend cookie).Way S q.implicit q.source q.destination decay route ∧
      q.casts S G = .ok (decay ++ route)) ∨
    (¬ ∃ decay route, (ofBackend cookie).Way S q.implicit q.source q.destination decay route) ∧
      q.casts S G = Outcome.fail (.noPath q.source q.destination) := by
  have hchooses := chooses_casts (hG.keyed S) hG.totalWeight_lt (toClass_ne hne)
  generalize q.casts S G = choice at hchooses
  cases hchooses with
  | @onlyDirect c hc =>
    have hmem : c ∈ q.leastDirect S G := hc ▸ List.mem_singleton_self c
    obtain ⟨husable, hsource⟩ := List.mem_filter.1 (List.mem_filter.1 hmem).1
    obtain ⟨decay, route, hway, hcons⟩ :=
      exists_way_of_mem hG husable (.stay (Ty.same_self S q.destination))
    rcases hcons with ⟨hcasts, -⟩ | ⟨hnil, -⟩
    · exact .inl ⟨decay, route, hway.of_same hsource, congrArg _ hcasts.symm⟩
    · exact absurd rfl hnil
  | severalDirect hseveral => exact absurd hseveral (length_leastDirect_le hG).not_gt
  | searched _ hsearch =>
    cases hsearch with
    | noWalk hnone =>
      refine .inr ⟨?_, rfl⟩
      rintro ⟨decay, route, hway⟩
      obtain ⟨walk, hwalk, -⟩ := exists_connects_of_way hG hway
      exact hnone walk hwalk
    | severalWalks hm hseveral =>
      -- both walks would be the way from the source
      refine absurd hseveral (Set.encard_le_one_iff.2 fun walk walk' hwalk hwalk' => ?_).not_gt
      obtain ⟨decay, route, hway, hcasts⟩ := way_of_least hG hne hm hwalk.1 hwalk.2.2
      obtain ⟨decay', route', hway', hcasts'⟩ := way_of_least hG hne hm hwalk'.1 hwalk'.2.2
      obtain ⟨hdecay, rfl⟩ := hway.unique hway'
      refine eq_of_map_toClass hG hwalk.1.isWalk hwalk'.1.isWalk ?_
      have hclasses : ∀ walk : List (Nat × Cast),
          walk.map (·.2.toClass S) = (walk.map (·.2)).map (Cast.toClass S) := fun walk => by
        rw [List.map_map]
        rfl
      rw [hclasses, hclasses, hcasts, hcasts', List.map_append, List.map_append, hdecay]
    | @onlyWalk m walk casts hm hwalk hcasts =>
      have hmem : walk ∈ q.walksOfWeight S G m := hwalk ▸ Set.mem_singleton walk
      obtain ⟨decay, route, hway, hmap⟩ := way_of_least hG hne hm hmem.1 hmem.2.2
      have hlike : casts.map (Cast.toClass S) = (decay ++ route).map (Cast.toClass S) := by
        rw [hcasts, ← hmap, List.map_map]
        rfl
      obtain ⟨decay', hway', rfl⟩ := exists_way_of_like hway hlike
      exact .inl ⟨decay', route, hway', rfl⟩

/-- **No query is ambiguous**, whatever it may cost. -/
theorem isAmbiguous_of_resolve {error : CastError} (hG : (ofBackend cookie).Sole G)
    (h : q.resolve S G = .error (.error error)) : error.isAmbiguous = false := by
  unfold resolve at h
  split at h
  · cases h
  rename_i hdiffer
  rcases Outcome.bind_error h with hcasts | ⟨casts, -, h⟩
  · rcases casts_eq_way hG (Bool.eq_false_iff.2 hdiffer) with ⟨decay, route, -, hok⟩ | ⟨-, hfail⟩
    · rw [hok] at hcasts
      cases hcasts
    · rw [hfail] at hcasts
      cases hcasts
      rfl
  · dsimp only at h
    split at h
    · cases h
      rfl
    · rcases Outcome.bind_error h with hsteps | ⟨steps, -, hchain⟩
      · obtain ⟨r, rfl⟩ := eq_rangeUnsafe_of_steps hsteps
        rfl
      · cases hchain

/-! ### What a query returns -/

/-- **The range is carried along a way**, unless a conversion refuses it. -/
inductive Answers (q : CastQuery) (decay route : List Cast) : Outcome CastError Chain → Prop where
  | carried {steps : List ChainStep} (h : q.steps q.range (decay ++ route) = .ok steps)
      (hcasts : steps.map (·.cast) = decay ++ route) :
    Answers q decay route (.ok ⟨steps, (route.map (·.weight)).sum,
      (steps.getLast?.map (·.range)).getD q.range⟩)
  | refused {r : Option ValueRange}
      (h : q.steps q.range (decay ++ route) =
        Outcome.fail (.rangeUnsafe q.source q.destination r)) :
    Answers q decay route (Outcome.fail (.rangeUnsafe q.source q.destination r))

/-- Carrying along a way fails only because of the range. -/
theorem Answers.eq_rangeUnsafe {answer : Outcome CastError Chain} {error : CastError}
    (h : q.Answers decay route answer) (herror : answer = .error (.error error)) :
    ∃ r, error = .rangeUnsafe q.source q.destination r := by
  cases h with
  | carried => cases herror
  | refused =>
    cases herror
    exact ⟨_, rfl⟩

/-- A decay breaks no invariant if its destination has a full range. -/
theorem intact_rangeAfter_of_decay (hc : c.IsDecay) (hfull : ∃ o, c.destination.fullRange = .ok o)
    (r : Option ValueRange) : (q.rangeAfter c r).Intact := by
  have hadmits : admits q.implicit c r = .ok true := by simp [admits, hc.rule]
  unfold rangeAfter
  rw [hadmits]
  cases r with
  | none => exact .ofInternal hfull
  | some p =>
    rw [hc.transform]
    trivial

/-- **Carrying a range along a way breaks no invariant.** -/
theorem intact_steps_of_way
    (h : (ofBackend cookie).Way S q.implicit q.source q.destination decay route)
    (hs : ∀ s, q.source.asScalar? = some s → s ∈ (ofBackend cookie).all) (r : Option ValueRange) :
    (q.steps r (decay ++ route)).Intact := by
  have hroute : ∀ {t route}, (ofBackend cookie).Route S q.implicit t q.destination route →
      ∀ c ∈ route, ∀ r, (q.rangeAfter c r).Intact := fun h c hc =>
    Setting.Edge.intact_rangeAfter
      (X := (LookupContext.Registered.moduleContext cookie S).setting) (.inl (h.forall_mem c hc)) q
  cases h with
  | plain _ h => exact intact_steps (hroute h) r
  | @qualified d _ hflags hd hsource h =>
    refine intact_steps (List.forall_mem_cons.2 ⟨intact_rangeAfter_of_decay hd ?_, hroute h⟩) r
    have hdestination : d.destination.fullRange = q.source.fullRange := by
      rw [← (Cast.source_of_decay (Flags.isEmpty_iff.1 hd.1) hd.2).2, Ty.unqualified,
        Ty.fullRange_withFlags, Ty.fullRange_eq_of_same hsource]
    rw [hdestination, Ty.fullRange]
    cases hscalar : q.source.asScalar? with
    | none => exact ⟨none, rfl⟩
    | some s => exact Scalar.fullRange_total fun hv => sized_of_mem (hs s hscalar) hv

/-- Decays cost nothing. -/
theorem sum_weight_of_way
    (h : (ofBackend cookie).Way S q.implicit q.source q.destination decay route) :
    ((decay ++ route).map (·.weight)).sum = (route.map (·.weight)).sum := by
  cases h with
  | plain => rfl
  | qualified _ hd =>
    rw [List.singleton_append, List.map_cons, List.sum_cons, hd.weight]
    exact Nat.zero_add _

/-- **A query between different types** is answered along the way from its source, or finds nothing
if there is none. -/
theorem resolve_cases (hG : (ofBackend cookie).Sole G) (hlimit : q.limit = maxWeight)
    (hs : ∀ s, q.source.asScalar? = some s → s ∈ (ofBackend cookie).all)
    (hne : q.source.same S q.destination = false) :
    (∃ decay route, (ofBackend cookie).Way S q.implicit q.source q.destination decay route ∧
      q.Answers decay route (q.resolve S G)) ∨
    (¬ ∃ decay route, (ofBackend cookie).Way S q.implicit q.source q.destination decay route) ∧
      q.resolve S G = Outcome.fail (.noPath q.source q.destination) := by
  have hchooses := chooses_casts (hG.keyed S) hG.totalWeight_lt (toClass_ne hne)
  rw [resolve_eq_deliver (hG.keyed S) hG.totalWeight_lt hne]
  rcases casts_eq_way hG hne with ⟨decay, route, hway, hcasts⟩ | ⟨hnone, hcasts⟩
  · refine .inl ⟨decay, route, hway, ?_⟩
    rw [hcasts] at hchooses ⊢
    -- the way costs less than the limit, so that only ranges can be refused
    have hlt := hchooses.sum_lt (toClass_ne hne) hG.totalWeight_lt
    have hweight := sum_weight_of_way hway
    show q.Answers decay route (q.deliver (decay ++ route))
    unfold deliver
    dsimp only
    rw [if_neg (hlimit ▸ hlt.not_gt), hweight]
    have hintact := intact_steps_of_way hway hs q.range
    cases hsteps : q.steps q.range (decay ++ route) with
    | ok steps => exact .carried hsteps (casts_of_steps hsteps)
    | error e =>
      cases e with
      | internal e =>
        rw [hsteps] at hintact
        cases hintact
      | error e =>
        obtain ⟨r, rfl⟩ := eq_rangeUnsafe_of_steps hsteps
        exact .refused hsteps
  · refine .inr ⟨hnone, ?_⟩
    rw [hcasts]
    rfl

/-- **What converts to what.**  In a context with the builtin conversions, a query that may cost
anything is never ambiguous.  Between types that are the same it needs no conversions.  Otherwise it
finds nothing exactly if the destination is qualified, or is neither the source without its
qualifiers nor, like this one, a convertible scalar.  Where it finds something, this is the way from
the source, and the range is carried along it. -/
theorem resolve_takes_way {context : LookupContext} (hcontext : context.Derived cookie)
    (hlimit : q.limit = maxWeight)
    (hs : ∀ s, q.source.asScalar? = some s → s ∈ (ofBackend cookie).all) :
    (q.source.same S q.destination = true →
      q.resolve S context.castGraph = .ok (Chain.identity q.range)) ∧
    (∀ error, q.resolve S context.castGraph = .error (.error error) →
      error.isAmbiguous = false) ∧
    (q.resolve S context.castGraph = Outcome.fail (.noPath q.source q.destination) ↔
      q.source.same S q.destination = false ∧ (q.destination.flags ≠ .none ∨
        q.source.unqualified.same S q.destination = false ∧
        ¬ ∃ a ∈ (ofBackend cookie).convertible q.implicit,
          ∃ b ∈ (ofBackend cookie).convertible q.implicit,
            q.source.unqualified.same S (.ofScalar a) = true ∧
            q.destination.same S (.ofScalar b) = true)) ∧
    (q.source.same S q.destination = false →
      q.resolve S context.castGraph ≠ Outcome.fail (.noPath q.source q.destination) →
      ∃ decay route, (ofBackend cookie).Way S q.implicit q.source q.destination decay route ∧
        q.Answers decay route (q.resolve S context.castGraph)) := by
  cases hsame : q.source.same S q.destination with
  | true =>
    have hresolve : q.resolve S context.castGraph = .ok (Chain.identity q.range) := by
      rw [resolve, hsame]
      rfl
    refine ⟨fun _ => hresolve, ?_, ⟨?_, ?_⟩, ?_⟩
    · intro error herror
      rw [hresolve] at herror
      cases herror
    · intro hnoPath
      rw [hresolve] at hnoPath
      cases hnoPath
    · rintro ⟨htrue, -⟩
      cases htrue
    · intro htrue
      cases htrue
  | false =>
    have hnone : (q.destination.flags ≠ .none ∨ q.source.unqualified.same S q.destination = false ∧
        ¬ ∃ a ∈ (ofBackend cookie).convertible q.implicit,
          ∃ b ∈ (ofBackend cookie).convertible q.implicit,
            q.source.unqualified.same S (.ofScalar a) = true ∧
            q.destination.same S (.ofScalar b) = true) ↔
        ¬ ∃ decay route,
          (ofBackend cookie).Way S q.implicit q.source q.destination decay route := by
      rw [exists_way_iff, not_and_or, not_or, Bool.not_eq_true]
    rw [hnone]
    rcases resolve_cases hcontext.sole hlimit hs hsame with ⟨decay, route, hway, h⟩ | ⟨hno, h⟩
    · refine ⟨fun htrue => absurd htrue Bool.false_ne_true, ?_, ⟨?_, ?_⟩,
        fun _ _ => ⟨decay, route, hway, h⟩⟩
      · intro error herror
        obtain ⟨r, rfl⟩ := h.eq_rangeUnsafe herror
        rfl
      · intro hnoPath
        obtain ⟨r, hr⟩ := h.eq_rangeUnsafe hnoPath
        cases hr
      · rintro ⟨-, hno⟩
        exact absurd ⟨decay, route, hway⟩ hno
    · refine ⟨fun htrue => absurd htrue Bool.false_ne_true, ?_, ⟨fun _ => ⟨rfl, hno⟩, fun _ => h⟩,
        fun _ hne => absurd h hne⟩
      intro error herror
      rw [h] at herror
      cases herror
      rfl

/-- A variable of sixteen bits that is converted to a character. -/
def charOfVariable : CastQuery :=
  ⟨.scalar .ref (ofBackend fun _ => 0).u16, none, .ofScalar (ofBackend fun _ => 0).c8, false,
    maxWeight⟩

/-- The variable is read, and its value is converted to eight bits on the way to the character. -/
theorem resolve_takes_way_char : ∃ d steps range,
    charOfVariable.resolve .empty (Builtins.prepare fun _ => 0).moduleContext.castGraph =
        .ok ⟨steps, 40, range⟩ ∧
      d.IsDecay ∧ steps.map (·.cast) = [d,
        .ofIntegers (ofBackend fun _ => 0).u16 (ofBackend fun _ => 0).u8,
        .ofChar (ofBackend fun _ => 0).u8 (ofBackend fun _ => 0).c8] := by
  have hcontext : (Builtins.prepare fun _ => 0).moduleContext.Derived fun _ => 0 := .moduleContext
  have hs : ∀ s, charOfVariable.source.asScalar? = some s → s ∈ (ofBackend fun _ => 0).all := by
    intro s h
    cases h
    simp [all]
  have happly := resolve_takes_way (S := .empty) hcontext
    (rfl : charOfVariable.limit = maxWeight) hs
  have hweight : (charOfVariable.resolve .empty
      (Builtins.prepare fun _ => 0).moduleContext.castGraph).toOption.map (·.weight) = some 40 := by
    decide +kernel
  obtain ⟨decay, route, hway, hanswers⟩ := happly.2.2.2 rfl fun h => by
    rw [h] at hweight
    cases hweight
  have hroute : (ofBackend fun _ => 0).Route .empty false charOfVariable.source.unqualified
      charOfVariable.destination
      ((ofBackend fun _ => 0).route (ofBackend fun _ => 0).u16 (ofBackend fun _ => 0).c8) :=
    .of_scalars (by simp [convertible, integers]) (by simp [convertible]) (Ty.same_self ..)
      (Ty.same_self ..)
  generalize charOfVariable.resolve .empty _ = answer at hweight hanswers ⊢
  cases hanswers with
  | refused => cases hweight
  | @carried steps _ hcasts =>
    cases hway with
    | plain hflags => cases hflags
    | @qualified d _ _ hd _ h =>
      cases h.unique hroute
      exact ⟨d, steps, _, rfl, hd, hcasts⟩

/-- A reference that is wanted as a reference. -/
def keptReference : CastQuery :=
  ⟨.scalar .ref (ofBackend fun _ => 0).u8, none, .scalar .ref (ofBackend fun _ => 0).u8, true,
    maxWeight⟩

/-- Its qualifiers are not taken off: there is no decay, although the source is qualified. -/
theorem resolve_keeps_qualifiers : keptReference.source.flags ≠ .none ∧
    keptReference.resolve .empty (Builtins.prepare fun _ => 0).moduleContext.castGraph =
      .ok (Chain.identity none) :=
  ⟨by decide, rfl⟩

end CastQuery

end RangeTyping
