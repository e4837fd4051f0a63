import Mathlib
import RangeTyping.Proofs.Cast.Arrangement

/-!
# Walks to the destination

A walk is a list of usable conversions, each of which starts where the one before it ends, and the last
of which ends at the destination (`CastQuery.IsWalk`).  Conversions into one type are told apart by
their places, so that two walks along parallel conversions are two.

* `CastGraph.exists_reaches_le`: the weight of all conversions is enough for a way to the destination,
  if there is one, since a way without detours (`Route`) uses each conversion at most once.
* `CastQuery.exists_reaches_of_isWalk` and `CastQuery.reaches_of_steady`: walks are ways to the
  destination.
* `CastQuery.exists_steady_of_reaches`: a way to the destination is a walk that is steady, which means
  that it comes to the destination only at its end and to the source only at its start.
-/

namespace RangeTyping

variable {S : StructStore} {into : Ty.Class S → Multiset (Cast.Class S)} {a d x y : Ty.Class S}
  {w : Weight}

/-! ### The conversions into a class -/

theorem CastTable.find_congr {t u : Ty} (h : t.same S u = true) (table : CastTable) :
    find S t table = find S u table := by
  induction table with
  | nil => rfl
  | cons entry rest ih =>
    obtain ⟨key, casts⟩ := entry
    rw [find, find, ih, Ty.same_comm key t, Ty.same_comm key u, Ty.same_congr_left h]

namespace CastGraph

variable {G : CastGraph} {implicit : Bool}

/-- Every conversion is found at the type where it ends. -/
def Keyed (S : StructStore) (G : CastGraph) : Prop :=
  ∀ t, ∀ c ∈ G.castsTo S t, c.destination.same S t = true

theorem keyed_ofList (casts : List Cast) : (ofList casts).Keyed S := by
  intro t c hc
  simp only [castsTo, ofList, Bool.false_and, Bool.false_eq_true, if_false, List.append_nil,
    List.flatMap_map, List.mem_flatMap, CastTable.find] at hc
  obtain ⟨c', -, hc⟩ := hc
  split at hc
  · rename_i hsame
    cases List.mem_singleton.1 hc
    exact hsame
  · cases hc

/-- Types that are the same have conversions that are alike, in the same places. -/
theorem map_toClass_castsTo (G : CastGraph) (implicit : Bool) {t u : Ty} (h : t.same S u = true) :
    ((G.castsTo S t).filter (·.usable implicit)).map (Cast.toClass S) =
      ((G.castsTo S u).filter (·.usable implicit)).map (Cast.toClass S) := by
  have hfind : CastTable.find S t = CastTable.find S u := funext (CastTable.find_congr h)
  simp only [castsTo, List.filter_append, List.map_append, hfind, ← Ty.flags_eq_of_same h]
  congr 1
  split
  · rename_i hplain
    rw [Cast.filter_usable_decays, Cast.filter_usable_decays]
    exact Cast.map_toClass_decays (Bool.and_eq_true_iff.1 hplain).2 h
  · rfl

/-- **The classes of the usable conversions into a class of types**, in order. -/
def arrivals (S : StructStore) (G : CastGraph) (implicit : Bool) : Ty.Class S → List (Cast.Class S) :=
  Quotient.lift (fun t => ((G.castsTo S t).filter (·.usable implicit)).map (Cast.toClass S))
    fun _ _ h => map_toClass_castsTo G implicit h

theorem arrivals_toClass (G : CastGraph) (implicit : Bool) (t : Ty) :
    G.arrivals S implicit (t.toClass S) =
      ((G.castsTo S t).filter (·.usable implicit)).map (Cast.toClass S) := rfl

/-- The same without their order. -/
def offered (S : StructStore) (G : CastGraph) (implicit : Bool) (y : Ty.Class S) :
    Multiset (Cast.Class S) := G.arrivals S implicit y

theorem Keyed.offers (hG : G.Keyed S) (implicit : Bool) :
    G.Offers S implicit (G.offered S implicit) := by
  refine ⟨fun t => rfl, fun y c hc => ?_⟩
  induction y using Quotient.inductionOn with
  | h t =>
    obtain ⟨c, hmem, rfl⟩ := List.mem_map.1 (Multiset.mem_coe.1 hc)
    exact Ty.toClass_eq.2 (hG t c (List.mem_filter.1 hmem).1)

/-! ### Ways without detours -/

/-- The weight of all conversions in the tables. -/
def totalWeight (G : CastGraph) : Nat := ((G.tables.flatMap CastTable.casts).map (·.weight)).sum

/-- A conversion of a table is found for one class at most. -/
theorem sum_find_le {rep : Ty.Class S → Ty} (hrep : ∀ y, (rep y).toClass S = y)
    (ys : Finset (Ty.Class S)) (table : CastTable) :
    ∑ y ∈ ys, ((CastTable.find S (rep y) table).map (·.weight)).sum ≤
      (table.casts.map (·.weight)).sum := by
  induction table with
  | nil => simp [CastTable.find, CastTable.casts]
  | cons entry rest ih =>
    obtain ⟨key, casts⟩ := entry
    have hkey : ∀ y, key.same S (rep y) = true ↔ key.toClass S = y := fun y => by
      rw [← Ty.toClass_eq, hrep]
    have hentry : ∀ y, ((CastTable.find S (rep y) ((key, casts) :: rest)).map (·.weight)).sum ≤
        (if key.toClass S = y then (casts.map (·.weight)).sum else 0) +
          ((CastTable.find S (rep y) rest).map (·.weight)).sum := by
      intro y
      rw [CastTable.find]
      by_cases hy : key.toClass S = y
      · rw [if_pos ((hkey y).2 hy), if_pos hy]
        exact Nat.le_add_right ..
      · rw [if_neg fun h => hy ((hkey y).1 h), if_neg hy, Nat.zero_add]
    -- the key is of one class only
    have hone : ∑ y ∈ ys, (if key.toClass S = y then (casts.map (·.weight)).sum else 0) ≤
        (casts.map (·.weight)).sum := by
      rw [Finset.sum_ite_eq]
      split
      · exact le_rfl
      · exact Nat.zero_le _
    rw [CastTable.casts, List.flatMap_cons, List.map_append, List.sum_append]
    calc _ ≤ _ := Finset.sum_le_sum fun y _ => hentry y
      _ = _ := Finset.sum_add_distrib
      _ ≤ _ := Nat.add_le_add hone ih

theorem sum_flatMap_find_le {rep : Ty.Class S → Ty} (hrep : ∀ y, (rep y).toClass S = y)
    (ys : Finset (Ty.Class S)) (tables : List CastTable) :
    ∑ y ∈ ys, ((tables.flatMap (CastTable.find S (rep y))).map (·.weight)).sum ≤
      ((tables.flatMap CastTable.casts).map (·.weight)).sum := by
  induction tables with
  | nil => simp
  | cons table rest ih =>
    simp only [List.flatMap_cons, List.map_append, List.sum_append, Finset.sum_add_distrib]
    exact Nat.add_le_add (sum_find_le hrep ys table) ih

/-- The conversions into different classes weigh no more than all conversions together. -/
theorem sum_arrivals_le (G : CastGraph) (implicit : Bool) (ys : Finset (Ty.Class S)) :
    ∑ y ∈ ys, ((G.arrivals S implicit y).map (·.weight)).sum ≤ G.totalWeight := by
  choose rep hrep using fun y : Ty.Class S => Quotient.exists_rep y
  have hweights : ∀ y, ((G.arrivals S implicit y).map (·.weight)).sum ≤
      ((G.tables.flatMap (CastTable.find S (rep y))).map (·.weight)).sum := by
    intro y
    -- decays are offered for every class, but weigh nothing
    have hdecays : ∀ t : Ty, ((Cast.decays t).map (·.weight)).sum = 0 := fun _ => rfl
    have harrivals : G.arrivals S implicit y =
        ((G.castsTo S (rep y)).filter (·.usable implicit)).map (Cast.toClass S) := by
      rw [← arrivals_toClass]
      exact congrArg _ (hrep y).symm
    rw [harrivals, List.map_map]
    calc _ ≤ ((G.castsTo S (rep y)).map (·.weight)).sum :=
          (List.filter_sublist.map _).sum_le_sum fun _ _ => Nat.zero_le _
      _ = _ := by
        rw [castsTo, List.map_append, List.sum_append]
        split
        · rw [hdecays, Nat.add_zero]
        · rfl
  exact (Finset.sum_le_sum fun y _ => hweights y).trans (sum_flatMap_find_le hrep ys G.tables)

end CastGraph

/-- A way to the destination that does not come through the source, by the classes on it. -/
inductive Route (into : Ty.Class S → Multiset (Cast.Class S)) (a d : Ty.Class S) :
    List (Ty.Class S) → Nat → Prop where
  | nil : Route into a d [d] 0
  | cons {y : Ty.Class S} {ys : List (Ty.Class S)} {w : Nat} {c : Cast.Class S}
      (h : Route into a d (y :: ys) w) (hy : y ≠ a) (hc : c ∈ into y) :
      Route into a d (c.source :: y :: ys) (w + c.weight)

theorem addWeight_min (v w : Nat) :
    addWeight (min v maxWeight) w = min (v + w) maxWeight := by
  show min (min v 4294967295 + w) 4294967295 = min (v + w) 4294967295
  omega

namespace Route

theorem reaches {ys : List (Ty.Class S)} {w : Nat} (h : Route into a d (x :: ys) w) :
    Reaches into a d x (min w maxWeight) := by
  generalize hxs : x :: ys = xs at h
  induction h generalizing x ys with
  | nil =>
    cases hxs
    exact .refl
  | @cons y ys w c h hy hc ih =>
    cases hxs
    have hstep := (ih rfl).step hy hc
    rwa [addWeight_min] at hstep

/-- From every class on a way, a part of it leads on. -/
theorem exists_suffix {xs : List (Ty.Class S)} {w : Nat} (h : Route into a d xs w) (hx : x ∈ xs) :
    ∃ ys v, Route into a d (x :: ys) v ∧ (x :: ys).Sublist xs := by
  induction h with
  | nil =>
    cases List.mem_singleton.1 hx
    exact ⟨[], 0, .nil, .refl _⟩
  | @cons y ys w c h hy hc ih =>
    rcases List.mem_cons.1 hx with rfl | hx
    · exact ⟨_, _, .cons h hy hc, .refl _⟩
    · obtain ⟨zs, v, hroute, hsub⟩ := ih hx
      exact ⟨zs, v, hroute, hsub.cons _⟩

/-- A way weighs no more than all conversions into the classes it comes through. -/
theorem weight_le {ys : List (Ty.Class S)} {w : Nat} (h : Route into a d (x :: ys) w) :
    w ≤ (ys.map fun y => ((into y).map (·.weight)).sum).sum := by
  generalize hxs : x :: ys = xs at h
  induction h generalizing x ys with
  | nil => exact Nat.zero_le _
  | @cons y ys w c h hy hc ih =>
    cases hxs
    have hle := ih rfl
    have hc' : c.weight ≤ ((into y).map (·.weight)).sum :=
      Multiset.le_sum_of_mem (Multiset.mem_map_of_mem _ hc)
    rw [List.map_cons, List.sum_cons, Nat.add_comm]
    exact Nat.add_le_add hc' hle

end Route

/-- **Where there is a way, there is one without detours.** -/
theorem Reaches.exists_route (h : Reaches into a d x w) :
    ∃ ys v, Route into a d (x :: ys) v ∧ (x :: ys).Nodup := by
  induction h with
  | refl => exact ⟨[], 0, .nil, List.nodup_singleton _⟩
  | @step y w c h hy hc ih =>
    obtain ⟨ys, v, hroute, hnodup⟩ := ih
    by_cases hmem : c.source ∈ y :: ys
    · -- the way comes here later anyway: what lies before is a detour
      obtain ⟨zs, u, hroute', hsub⟩ := hroute.exists_suffix hmem
      exact ⟨zs, u, hroute', hnodup.sublist hsub⟩
    · exact ⟨_, _, hroute.cons hy hc, List.nodup_cons.2 ⟨hmem, hnodup⟩⟩

/-- A class that can reach the destination can do so at no more than the weight of all conversions
together. -/
theorem CastGraph.exists_reaches_le {G : CastGraph} {implicit : Bool}
    (h : Reaches (G.offered S implicit) a d x w) :
    ∃ v ≤ G.totalWeight, Reaches (G.offered S implicit) a d x v := by
  obtain ⟨ys, v, hroute, hnodup⟩ := h.exists_route
  refine ⟨_, (Nat.min_le_left ..).trans (hroute.weight_le.trans ?_), hroute.reaches⟩
  have hsum := G.sum_arrivals_le implicit ys.toFinset
  rw [List.sum_toFinset _ (List.nodup_cons.1 hnodup).2] at hsum
  simpa only [offered, Multiset.map_coe, Multiset.sum_coe] using hsum

/-! ### Walks -/

namespace CastQuery

/-- The usable conversions into a type. -/
def usableInto (S : StructStore) (G : CastGraph) (q : CastQuery) (t : Ty) : List Cast :=
  (G.castsTo S t).filter (·.usable q.implicit)

/-- Where a walk starts. -/
def startOf (q : CastQuery) : List (Nat × Cast) → Ty
  | [] => q.destination
  | (_, c) :: _ => c.source

/-- **A walk to the destination**: the conversions in the order in which they are made, each with its
place among the usable ones into the type where the rest of the walk starts. -/
def IsWalk (S : StructStore) (G : CastGraph) (q : CastQuery) : List (Nat × Cast) → Prop
  | [] => True
  | (i, c) :: rest => IsWalk S G q rest ∧ (q.usableInto S G (q.startOf rest))[i]? = some c

/-- The weight of a walk. -/
def walkWeight (walk : List (Nat × Cast)) : Nat := (walk.map (·.2.weight)).sum

/-- The walk comes to the destination only at its end, and to the source only at its start. -/
structure Steady (S : StructStore) (q : CastQuery) (walk : List (Nat × Cast)) : Prop where
  destination : ∀ e ∈ walk, e.2.source.toClass S ≠ q.destination.toClass S
  source : ∀ e ∈ walk.tail, e.2.source.toClass S ≠ q.source.toClass S

variable {q : CastQuery} {G : CastGraph} {i : Nat} {c : Cast} {walk : List (Nat × Cast)}

@[simp] theorem walkWeight_cons (i : Nat) (c : Cast) (walk : List (Nat × Cast)) :
    walkWeight ((i, c) :: walk) = c.weight + walkWeight walk := rfl

theorem steady_nil : q.Steady S [] := ⟨nofun, nofun⟩

theorem steady_cons (hne : q.source.toClass S ≠ q.destination.toClass S) :
    q.Steady S ((i, c) :: walk) ↔ q.Steady S walk ∧
      c.source.toClass S ≠ q.destination.toClass S ∧
      (q.startOf walk).toClass S ≠ q.source.toClass S := by
  cases walk with
  | nil =>
    constructor
    · intro h
      exact ⟨steady_nil, h.destination _ List.mem_cons_self, hne.symm⟩
    · rintro ⟨-, hc, -⟩
      exact ⟨by simpa using hc, nofun⟩
  | cons e rest =>
    constructor
    · intro h
      exact ⟨⟨fun e he => h.destination e (List.mem_cons_of_mem _ he),
        fun e he => h.source e (List.mem_of_mem_tail he)⟩, h.destination _ List.mem_cons_self,
        h.source _ List.mem_cons_self⟩
    · rintro ⟨h, hc, hstart⟩
      refine ⟨fun f hf => ?_, fun f hf => ?_⟩
      · rcases List.mem_cons.1 hf with rfl | hf
        · exact hc
        · exact h.destination f hf
      · rcases List.mem_cons.1 hf with rfl | hf
        · exact hstart
        · exact h.source f hf

/-- A conversion of a walk is one of those that are offered where it ends. -/
theorem getElem?_arrivals {t : Ty} (h : (q.usableInto S G t)[i]? = some c) :
    (G.arrivals S q.implicit (t.toClass S))[i]? = some (c.toClass S) := by
  rw [CastGraph.arrivals_toClass, List.getElem?_map]
  show ((q.usableInto S G t)[i]?).map _ = _
  rw [h]
  rfl

theorem exists_getElem?_usableInto {t : Ty} {C : Cast.Class S}
    (h : (G.arrivals S q.implicit (t.toClass S))[i]? = some C) :
    ∃ c, (q.usableInto S G t)[i]? = some c ∧ c.toClass S = C := by
  rw [CastGraph.arrivals_toClass, List.getElem?_map] at h
  exact Option.map_eq_some_iff.1 h

theorem mem_offered {t : Ty} (h : (q.usableInto S G t)[i]? = some c) :
    c.toClass S ∈ G.offered S q.implicit (t.toClass S) :=
  Multiset.mem_coe.2 (List.mem_of_getElem? (getElem?_arrivals h))

/-- A walk shows that its start, or at least the source, can reach the destination. -/
theorem exists_reaches_of_isWalk (h : q.IsWalk S G walk) (a : Ty.Class S) :
    ∃ v ≤ walkWeight walk,
      Reaches (G.offered S q.implicit) a (q.destination.toClass S)
        ((q.startOf walk).toClass S) v ∨
      Reaches (G.offered S q.implicit) a (q.destination.toClass S) a v := by
  induction walk with
  | nil => exact ⟨0, le_rfl, .inl .refl⟩
  | cons e rest ih =>
    obtain ⟨i, c⟩ := e
    obtain ⟨hrest, hc⟩ := h
    obtain ⟨v, hv, hreaches⟩ := ih hrest
    rw [walkWeight_cons]
    rcases hreaches with hreaches | hreaches
    · by_cases ha : (q.startOf rest).toClass S = a
      · -- ways do not go on behind `a`, so the rest of the walk is kept from here on
        rw [ha] at hreaches
        exact ⟨v, hv.trans (Nat.le_add_left ..), .inr hreaches⟩
      · refine ⟨_, ?_, .inl (hreaches.step ha (mem_offered hc))⟩
        rw [Nat.add_comm]
        exact (Nat.min_le_left ..).trans (Nat.add_le_add_right hv _)
    · exact ⟨v, hv.trans (Nat.le_add_left ..), .inr hreaches⟩

/-- A steady walk is a way to the destination. -/
theorem reaches_of_steady (hne : q.source.toClass S ≠ q.destination.toClass S)
    (h : q.IsWalk S G walk) (hsteady : q.Steady S walk) (hlt : walkWeight walk < maxWeight) :
    Reaches (G.offered S q.implicit) (q.source.toClass S) (q.destination.toClass S)
      ((q.startOf walk).toClass S) (walkWeight walk) := by
  induction walk with
  | nil => exact .refl
  | cons e rest ih =>
    obtain ⟨i, c⟩ := e
    obtain ⟨hrest, hc⟩ := h
    obtain ⟨hsteady, -, hsource⟩ := (steady_cons hne).1 hsteady
    rw [walkWeight_cons] at hlt ⊢
    have hstep := (ih hrest hsteady ((Nat.le_add_left ..).trans_lt hlt)).step hsource (mem_offered hc)
    rwa [addWeight, Nat.min_eq_left (by rw [Nat.add_comm]; exact hlt.le), Nat.add_comm] at hstep

/-- A way to the destination is a walk, without the rounds that lead through the destination. -/
theorem exists_steady_of_reaches (hne : q.source.toClass S ≠ q.destination.toClass S)
    (h : Reaches (G.offered S q.implicit) (q.source.toClass S) (q.destination.toClass S) x w)
    (hlt : w < maxWeight) :
    ∃ walk, q.IsWalk S G walk ∧ (q.startOf walk).toClass S = x ∧ q.Steady S walk ∧
      walkWeight walk ≤ w := by
  induction h with
  | refl => exact ⟨[], trivial, rfl, steady_nil, le_rfl⟩
  | @step y v C hy hya hC ih =>
    have hsum : v + C.weight < maxWeight := by
      by_contra hle
      exact absurd hlt (Nat.le_min.2 ⟨not_lt.1 hle, le_rfl⟩).not_gt
    obtain ⟨walk, hwalk, rfl, hsteady, hle⟩ := ih ((Nat.le_add_right ..).trans_lt hsum)
    by_cases hd : C.source = q.destination.toClass S
    · -- a round from the destination to itself is left out
      exact ⟨[], trivial, hd.symm, steady_nil, Nat.zero_le _⟩
    · obtain ⟨i, hi⟩ := List.mem_iff_getElem?.1 (Multiset.mem_coe.1 hC)
      obtain ⟨c, hc, rfl⟩ := exists_getElem?_usableInto hi
      refine ⟨(i, c) :: walk, ⟨hwalk, hc⟩, rfl, (steady_cons hne).2 ⟨hsteady, hd, hya⟩, ?_⟩
      rw [walkWeight_cons, addWeight, Nat.min_eq_left hsum.le, Nat.add_comm]
      exact Nat.add_le_add_right hle _

end CastQuery

end RangeTyping
