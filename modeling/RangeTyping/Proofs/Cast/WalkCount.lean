import Mathlib
import RangeTyping.Proofs.Cast.Walk

/-!
# Counting the cheapest walks

A finished search that has met the source counts walks along tight conversions in rounds
(`walksFrom`).  Every cheapest walk is a tight conversion followed by a cheapest walk
(`Search.Finds.cons_mem_cheapestFrom`), so the numbers of cheapest walks obey the equation by which one
round follows from the one before (`Search.Finds.encard_cheapestFrom`).  The rounds start from a guess
that is too large, so they never count too little (`Search.Finds.min_encard_le`).

They do not count too much where every walk along tight conversions comes to the destination within a
number of steps (`EndsWithin`).  If there are finitely many cheapest walks this is so, and since the
bounds decrease along tight conversions, the number of steps is less than the number of types that were
met (`Search.Finds.endsWithin_of_endsWithin`).  So the count is the number of cheapest walks, as far as
it can be counted (`Search.Finds.chainCount_eq`).
-/

namespace RangeTyping

variable {S : StructStore} {q : CastQuery} {G : CastGraph} {s : Search} {i j : Nat} {m : Weight}
  {x y : Ty.Class S} {C : Cast.Class S} {c : Cast} {walk rest : List (Nat × Cast)}

/-- The number of places in a list at which something stands that has a property. -/
theorem encard_places {α : Type} (p : α → Prop) [DecidablePred p] (l : List α) :
    {i : Nat | ∃ a, l[i]? = some a ∧ p a}.encard = l.countP p := by
  induction l with
  | nil => simp
  | cons a l ih =>
    have hsplit : {i : Nat | ∃ b, (a :: l)[i]? = some b ∧ p b} =
        (if p a then {0} else ∅) ∪ Set.image Nat.succ {i | ∃ b, l[i]? = some b ∧ p b} := by
      ext i
      cases i with
      | zero => by_cases ha : p a <;> simp [ha]
      | succ i => by_cases ha : p a <;> simp [ha]
    rw [hsplit, Set.encard_union_eq, Nat.succ_injective.encard_image, ih, List.countP_cons]
    · by_cases ha : p a
      · simp [ha, add_comm]
      · simp [ha]
    · rw [Set.disjoint_right]
      rintro _ ⟨i, -, rfl⟩
      by_cases ha : p a <;> simp [ha]

namespace Search

/-- The search is over and has met the source at node `j`, at the distance `m`. -/
structure Finds (S : StructStore) (G : CastGraph) (q : CastQuery) (s : Search) (j : Nat)
    (m : Weight) : Prop where
  apart : q.source.toClass S ≠ q.destination.toClass S
  solved : s.Solved (G.offered S q.implicit) (q.source.toClass S) (q.destination.toClass S)
  origin : s.origin = some (j, m)

/-- The class was met at a distance up to `m`. -/
def Near (S : StructStore) (s : Search) (m : Weight) (x : Ty.Class S) : Prop :=
  ∃ n ∈ s.nodes, n.type.toClass S = x ∧ n.distance ≤ m

/-- The steady walks from a class whose weight is its distance. -/
def cheapestFrom (S : StructStore) (G : CastGraph) (q : CastQuery) (s : Search) (x : Ty.Class S) :
    Set (List (Nat × Cast)) :=
  {walk | q.IsWalk S G walk ∧ (q.startOf walk).toClass S = x ∧ q.Steady S walk ∧
    CastQuery.walkWeight walk = s.distanceOf S x}

/-- The classes into which conversions were looked up. -/
def frontier (S : StructStore) (q : CastQuery) (s : Search) : Finset (Ty.Class S) :=
  ((s.expandedClasses S).filter (· ≠ q.source.toClass S)).toFinset

/-- The conversion leads from `x` to `y` on a cheapest way. -/
def TightFrom (s : Search) (x y : Ty.Class S) (C : Cast.Class S) : Prop :=
  C.source = x ∧ s.distanceOf S x = addWeight (s.distanceOf S y) C.weight

instance (s : Search) (x y : Ty.Class S) : DecidablePred (s.TightFrom x y) := fun _ =>
  inferInstanceAs (Decidable (_ ∧ _))

theorem mem_frontier : y ∈ s.frontier S q ↔
    (∃ n ∈ s.nodes, n.expanded = true ∧ n.type.toClass S = y) ∧ y ≠ q.source.toClass S := by
  rw [frontier, Multiset.mem_toFinset, Multiset.mem_filter, mem_expandedClasses]

namespace Finds

/-! ### One conversion of a cheapest walk -/

theorem lt_maxWeight (h : s.Finds S G q j m) : m < maxWeight := (h.solved.surveys.met j m h.origin).1

theorem distanceOf_le (h : s.Finds S G q j m) (hx : s.Near S m x) : s.distanceOf S x ≤ m := by
  obtain ⟨n, hn, rfl, hle⟩ := hx
  rwa [h.solved.distanceOf_toClass hn]

/-- No conversion that was seen is a shorter way. -/
theorem distanceOf_le_addWeight (h : s.Finds S G q j m) (hC : C ∈ s.seenClasses S) :
    s.distanceOf S C.source ≤ addWeight (s.distanceOf S C.destination) C.weight := by
  obtain ⟨e, he, rfl⟩ := mem_seenClasses.1 hC
  obtain ⟨n, hn, hsource⟩ := h.solved.surveys.charts.source e he
  obtain ⟨t, ht, htarget⟩ := h.solved.surveys.charts.target e he
  rw [Cast.source_toClass, Cast.destination_toClass, ← hsource, ← htarget,
    h.solved.distanceOf_toClass (List.mem_of_getElem? hn),
    h.solved.distanceOf_toClass (List.mem_of_getElem? ht)]
  exact h.solved.surveys.charts.shorter e he n t hn ht

theorem mem_seenClasses (h : s.Finds S G q j m) (hy : y ∈ s.frontier S q)
    (hC : C ∈ G.offered S q.implicit y) : C ∈ s.seenClasses S := by
  rw [h.solved.surveys.seen, Multiset.mem_bind]
  exact ⟨y, Multiset.mem_toFinset.1 hy, hC⟩

theorem mem_frontier_of_near (h : s.Finds S G q j m) (hy : s.Near S m y)
    (hya : y ≠ q.source.toClass S) : y ∈ s.frontier S q := by
  obtain ⟨n, hn, hclass, hle⟩ := hy
  exact mem_frontier.2 ⟨⟨n, hn, h.solved.near j m h.origin n hn hle, hclass⟩, hya⟩

/-- A steady walk starts at a class that was met, and is not shorter than its distance. -/
theorem near_of_steady (h : s.Finds S G q j m) (hwalk : q.IsWalk S G walk)
    (hsteady : q.Steady S walk) (hle : CastQuery.walkWeight walk ≤ m) :
    s.Near S m ((q.startOf walk).toClass S) ∧
      s.distanceOf S ((q.startOf walk).toClass S) ≤ CastQuery.walkWeight walk := by
  have hlt := hle.trans_lt h.lt_maxWeight
  obtain ⟨n, hn, hclass, hdist⟩ := h.solved.surveys.exists_node h.solved.destination
    (h.solved.near j m h.origin) (CastQuery.reaches_of_steady h.apart hwalk hsteady hlt) hle
  refine ⟨⟨n, hn, hclass, hdist.trans hle⟩, ?_⟩
  rwa [← hclass, h.solved.distanceOf_toClass hn]

/-- Tight conversions from near classes lead to near classes, at the difference of the distances. -/
theorem near_of_tightFrom (h : s.Finds S G q j m) (hx : s.Near S m x) (hy : y ∈ s.frontier S q)
    (hC : s.TightFrom x y C) :
    s.Near S m y ∧ s.distanceOf S x = s.distanceOf S y + C.weight := by
  have hle := h.distanceOf_le hx
  have hsum : s.distanceOf S x = s.distanceOf S y + C.weight := by
    have hmin : s.distanceOf S x = min (s.distanceOf S y + C.weight) maxWeight := hC.2
    rcases Nat.le_total (s.distanceOf S y + C.weight) maxWeight with hsum | hsum
    · rwa [Nat.min_eq_left hsum] at hmin
    · rw [Nat.min_eq_right hsum] at hmin
      exact absurd h.lt_maxWeight (hmin ▸ hle).not_gt
  obtain ⟨⟨n, hn, -, hclass⟩, -⟩ := mem_frontier.1 hy
  refine ⟨⟨n, hn, hclass, ?_⟩, hsum⟩
  rw [← h.solved.distanceOf_toClass hn, hclass]
  exact (Nat.le_add_right ..).trans (hsum.ge.trans hle)

/-- **A cheapest walk is a tight conversion followed by a cheapest walk.** -/
theorem cons_mem_cheapestFrom (h : s.Finds S G q j m) (hx : s.Near S m x) :
    (i, c) :: rest ∈ cheapestFrom S G q s x ↔
      x ≠ q.destination.toClass S ∧ (q.startOf rest).toClass S ∈ s.frontier S q ∧
        rest ∈ cheapestFrom S G q s ((q.startOf rest).toClass S) ∧
        (q.usableInto S G (q.startOf rest))[i]? = some c ∧
        s.TightFrom x ((q.startOf rest).toClass S) (c.toClass S) := by
  constructor
  · rintro ⟨⟨hrest, hc⟩, rfl, hsteady, hweight⟩
    obtain ⟨hsteady, hd, hya⟩ := (CastQuery.steady_cons h.apart).1 hsteady
    rw [CastQuery.walkWeight_cons] at hweight
    have hle : CastQuery.walkWeight rest ≤ m :=
      (Nat.le_add_left ..).trans (hweight.le.trans (h.distanceOf_le hx))
    obtain ⟨hy, hdist⟩ := h.near_of_steady hrest hsteady hle
    have hfrontier := h.mem_frontier_of_near hy hya
    have hoffered := CastQuery.mem_offered hc
    -- the distances leave no room between the walk and its first conversion
    have hshort := h.distanceOf_le_addWeight (h.mem_seenClasses hfrontier hoffered)
    rw [h.solved.destination _ _ hoffered] at hshort
    have hmin : addWeight (s.distanceOf S ((q.startOf rest).toClass S)) (c.toClass S).weight ≤
        s.distanceOf S ((q.startOf rest).toClass S) + c.weight := Nat.min_le_left ..
    have heq : CastQuery.walkWeight rest = s.distanceOf S ((q.startOf rest).toClass S) := by
      refine le_antisymm (Nat.le_of_add_le_add_left (a := c.weight) ?_) hdist
      rw [hweight, Nat.add_comm]
      exact hshort.trans hmin
    refine ⟨hd, hfrontier, ⟨hrest, rfl, hsteady, heq⟩, hc, rfl, le_antisymm hshort (hmin.trans ?_)⟩
    rw [← heq, Nat.add_comm]
    exact hweight.le
  · rintro ⟨hd, hfrontier, ⟨hrest, -, hsteady, hweight⟩, hc, htight⟩
    obtain ⟨-, hsum⟩ := h.near_of_tightFrom hx hfrontier htight
    have hsource : c.source.toClass S = x := htight.1
    refine ⟨⟨hrest, hc⟩, hsource, ?_, ?_⟩
    · rw [CastQuery.steady_cons h.apart, hsource]
      exact ⟨hsteady, hd, (mem_frontier.1 hfrontier).2⟩
    · rw [CastQuery.walkWeight_cons, hweight, hsum, Nat.add_comm]
      rfl

/-! ### All conversions of cheapest walks -/

/-- The tight conversions from a class, by where they lead. -/
theorem tightClasses_filter_eq (h : s.Finds S G q j m) (x : Ty.Class S) :
    (s.tightClasses S).filter (·.source = x) = (s.frontier S q).val.bind fun y =>
      ((G.arrivals S q.implicit y).filter (s.TightFrom x y) : List (Cast.Class S)) := by
  have hfrontier : (s.frontier S q).val = (s.expandedClasses S).filter (· ≠ q.source.toClass S) :=
    Multiset.dedup_eq_self.2 (h.solved.nodup_expandedClasses.filter _)
  rw [h.solved.tightClasses_eq_filter, h.solved.surveys.seen, Multiset.filter_filter,
    Multiset.filter_bind, hfrontier]
  refine Multiset.bind_congr fun y _ => ?_
  rw [← Multiset.filter_coe]
  refine Multiset.filter_congr fun C hC => ?_
  rw [h.solved.destination y C hC, TightFrom]
  constructor
  · rintro ⟨rfl, hdist⟩
    exact ⟨rfl, hdist⟩
  · rintro ⟨rfl, hdist⟩
    exact ⟨rfl, hdist⟩

/-- A sum over the tight conversions from a class is one over the classes where they lead. -/
theorem sum_tightClasses {M : Type} [AddCommMonoid M] (h : s.Finds S G q j m) (x : Ty.Class S)
    (g : Ty.Class S → M) :
    (((s.tightClasses S).filter (·.source = x)).map fun C => g C.destination).sum =
      ∑ y ∈ s.frontier S q, (G.arrivals S q.implicit y).countP (s.TightFrom x y) • g y := by
  rw [h.tightClasses_filter_eq, Multiset.map_bind, Multiset.sum_bind]
  refine congrArg Multiset.sum (Multiset.map_congr rfl fun y _ => ?_)
  have hconst : ((G.arrivals S q.implicit y).filter (s.TightFrom x y)).map (fun C => g C.destination) =
      ((G.arrivals S q.implicit y).filter (s.TightFrom x y)).map fun _ => g y := by
    refine List.map_congr_left fun C hC => ?_
    rw [h.solved.destination y C (Multiset.mem_coe.2 (List.mem_filter.1 hC).1)]
  rw [Multiset.map_coe, Multiset.sum_coe, hconst, List.map_const', List.sum_replicate,
    List.countP_eq_length_filter]

theorem distanceOf_destination (h : s.Finds S G q j m) :
    s.distanceOf S (q.destination.toClass S) = 0 := by
  obtain ⟨n, hn, hclass, hdist⟩ := h.solved.surveys.charts.zero
  rw [← hclass, h.solved.distanceOf_toClass (List.mem_of_getElem? hn), hdist]

/-- The only cheapest walk from the destination is the one without conversions. -/
theorem cheapestFrom_destination (h : s.Finds S G q j m) :
    cheapestFrom S G q s (q.destination.toClass S) = {[]} := by
  ext walk
  constructor
  · rintro ⟨-, hstart, hsteady, -⟩
    cases walk with
    | nil => rfl
    | cons e rest => exact absurd hstart (hsteady.destination e List.mem_cons_self)
  · rintro rfl
    exact ⟨trivial, rfl, CastQuery.steady_nil, h.distanceOf_destination.symm⟩

/-- The cheapest walks from `x` that go to `y` first. -/
def cheapestVia (S : StructStore) (G : CastGraph) (q : CastQuery) (s : Search) (x y : Ty.Class S) :
    Set (List (Nat × Cast)) :=
  {walk ∈ cheapestFrom S G q s x | (q.startOf walk.tail).toClass S = y}

theorem mem_cheapestVia (h : s.Finds S G q j m) (hx : s.Near S m x)
    (hxd : x ≠ q.destination.toClass S) (hy : y ∈ s.frontier S q) :
    walk ∈ cheapestVia S G q s x y ↔ ∃ i c rest, walk = (i, c) :: rest ∧
      rest ∈ cheapestFrom S G q s y ∧ (q.usableInto S G (q.startOf rest))[i]? = some c ∧
      s.TightFrom x y (c.toClass S) := by
  constructor
  · rintro ⟨hwalk, rfl⟩
    cases walk with
    | nil => exact absurd hwalk.2.1.symm hxd
    | cons e rest =>
      obtain ⟨i, c⟩ := e
      obtain ⟨-, -, hrest, hc, htight⟩ := (h.cons_mem_cheapestFrom hx).1 hwalk
      exact ⟨i, c, rest, rfl, hrest, hc, htight⟩
  · rintro ⟨i, c, rest, rfl, hrest, hc, htight⟩
    have hstart := hrest.2.1
    refine ⟨(h.cons_mem_cheapestFrom hx).2 ⟨hxd, ?_⟩, hstart⟩
    rw [hstart]
    exact ⟨hy, hrest, hc, htight⟩

/-- A cheapest walk over `y` is a place among the conversions into `y` and a cheapest walk from
there. -/
theorem encard_cheapestVia (h : s.Finds S G q j m) (hx : s.Near S m x)
    (hxd : x ≠ q.destination.toClass S) (hy : y ∈ s.frontier S q) :
    (cheapestVia S G q s x y).encard =
      (G.arrivals S q.implicit y).countP (s.TightFrom x y) • (cheapestFrom S G q s y).encard := by
  rw [nsmul_eq_mul, ← encard_places, ← Set.encard_prod]
  -- a walk is given by the place of its first conversion and the rest
  have hinj : Set.InjOn (fun walk : List (Nat × Cast) => ((walk.map (·.1)).headD 0, walk.tail))
      (cheapestVia S G q s x y) := by
    intro walk hwalk walk' hwalk' heq
    obtain ⟨i, c, rest, rfl, -, hc, -⟩ := (h.mem_cheapestVia hx hxd hy).1 hwalk
    obtain ⟨i', c', rest', rfl, -, hc', -⟩ := (h.mem_cheapestVia hx hxd hy).1 hwalk'
    obtain ⟨rfl, rfl⟩ := Prod.mk.inj heq
    cases hc.symm.trans hc'
    rfl
  rw [← hinj.encard_image]
  congr 1
  ext ⟨i, rest⟩
  constructor
  · rintro ⟨walk, hwalk, heq⟩
    obtain ⟨i', c, rest', rfl, hrest, hc, htight⟩ := (h.mem_cheapestVia hx hxd hy).1 hwalk
    obtain ⟨rfl, rfl⟩ := Prod.mk.inj heq
    have harrives := CastQuery.getElem?_arrivals hc
    rw [hrest.2.1] at harrives
    exact ⟨⟨_, harrives, htight⟩, hrest⟩
  · rintro ⟨⟨C, hC, htight⟩, hrest⟩
    rw [← hrest.2.1] at hC
    obtain ⟨c, hc, rfl⟩ := CastQuery.exists_getElem?_usableInto hC
    exact ⟨(i, c) :: rest, (h.mem_cheapestVia hx hxd hy).2 ⟨i, c, rest, rfl, hrest, hc, htight⟩, rfl⟩

/-- **The number of cheapest walks from a class** is that of the classes next to it, each counted with
the tight conversions that lead there. -/
theorem encard_cheapestFrom (h : s.Finds S G q j m) (hx : s.Near S m x)
    (hxd : x ≠ q.destination.toClass S) :
    (cheapestFrom S G q s x).encard = ∑ y ∈ s.frontier S q,
      (G.arrivals S q.implicit y).countP (s.TightFrom x y) • (cheapestFrom S G q s y).encard := by
  -- every walk from `x` leads to one class of the frontier first
  have hunion : cheapestFrom S G q s x = ⋃ y ∈ s.frontier S q, cheapestVia S G q s x y := by
    ext walk
    simp only [Set.mem_iUnion, exists_prop]
    constructor
    · intro hwalk
      cases walk with
      | nil => exact absurd hwalk.2.1.symm hxd
      | cons e rest =>
        obtain ⟨-, hfrontier, -⟩ := (h.cons_mem_cheapestFrom hx).1 hwalk
        exact ⟨_, hfrontier, hwalk, rfl⟩
    · rintro ⟨y, -, hwalk, -⟩
      exact hwalk
  have hdisjoint : (s.frontier S q : Set (Ty.Class S)).PairwiseDisjoint (cheapestVia S G q s x) := by
    rintro y - y' - hyy'
    refine Set.disjoint_left.2 fun walk hwalk hwalk' => hyy' ?_
    exact hwalk.2.symm.trans hwalk'.2
  rw [hunion]
  refine ((s.frontier S q).finite_toSet.encard_biUnion hdisjoint).trans ?_
  rw [finsum_mem_coe_finset]
  exact Finset.sum_congr rfl fun y hy => h.encard_cheapestVia hx hxd hy

/-! ### Rounds do not count too little -/

theorem near_destination (h : s.Finds S G q j m) : s.Near S m (q.destination.toClass S) := by
  obtain ⟨n, hn, hclass, hdist⟩ := h.solved.surveys.charts.zero
  exact ⟨n, List.mem_of_getElem? hn, hclass, hdist.trans_le (Nat.zero_le _)⟩

/-- Classes that tight conversions lead to from near ones are near. -/
theorem near_of_countP (h : s.Finds S G q j m) (hx : s.Near S m x) (hy : y ∈ s.frontier S q)
    (hcount : (G.arrivals S q.implicit y).countP (s.TightFrom x y) ≠ 0) :
    s.Near S m y ∧ ∃ C ∈ s.tightClasses S, C.source = x ∧ C.destination = y := by
  obtain ⟨C, hC, htight⟩ := List.countP_pos_iff.1 (Nat.pos_of_ne_zero hcount)
  rw [decide_eq_true_eq] at htight
  refine ⟨(h.near_of_tightFrom hx hy htight).1, C, ?_, htight.1,
    h.solved.destination y C (Multiset.mem_coe.2 hC)⟩
  have hmem : C ∈ (s.tightClasses S).filter (·.source = x) := by
    rw [h.tightClasses_filter_eq, Multiset.mem_bind]
    exact ⟨y, hy, Multiset.mem_coe.2 (List.mem_filter.2 ⟨hC, by simpa using htight⟩)⟩
  exact Multiset.mem_of_mem_filter hmem

/-- The next round, by the classes where tight conversions lead. -/
theorem walksFrom_succ (h : s.Finds S G q j m) (rounds : Nat)
    (hxd : x ≠ q.destination.toClass S) :
    (walksFrom (s.tightClasses S) (q.destination.toClass S) (rounds + 1) x : ℕ∞) =
      min (∑ y ∈ s.frontier S q, (G.arrivals S q.implicit y).countP (s.TightFrom x y) •
        (walksFrom (s.tightClasses S) (q.destination.toClass S) rounds y : ℕ∞)) maxWeight := by
  rw [walksFrom, if_neg hxd, h.sum_tightClasses, Nat.mono_cast.map_min, Nat.cast_sum]
  simp only [smul_eq_mul, Nat.cast_mul, nsmul_eq_mul]

end Finds

/-- Numbers that are too large up to a bound have a sum that is too large up to it. -/
theorem min_sum_le {ι : Type} (t : Finset ι) (bound : ℕ∞) (u v : ι → ℕ∞)
    (h : ∀ i ∈ t, min (u i) bound ≤ v i) : min (∑ i ∈ t, u i) bound ≤ ∑ i ∈ t, v i := by
  classical
  induction t using Finset.induction_on with
  | empty => simp
  | insert i t hi ih =>
    rw [Finset.sum_insert hi, Finset.sum_insert hi]
    have hfirst := h i (Finset.mem_insert_self i t)
    have hrest := ih fun k hk => h k (Finset.mem_insert_of_mem hk)
    rcases le_total bound (u i) with hle | hle
    · rw [min_eq_right hle] at hfirst
      exact (min_le_right _ _).trans (hfirst.trans le_self_add)
    · rw [min_eq_left hle] at hfirst
      rcases le_total bound (∑ k ∈ t, u k) with hle' | hle'
      · rw [min_eq_right hle'] at hrest
        exact (min_le_right _ _).trans (hrest.trans le_add_self)
      · rw [min_eq_left hle'] at hrest
        exact (min_le_left _ _).trans (add_le_add hfirst hrest)

theorem min_nsmul_le {bound u v : ℕ∞} (k : Nat) (h : k ≠ 0 → min u bound ≤ v) :
    min (k • u) bound ≤ k • v := by
  cases k with
  | zero => simp
  | succ k =>
    have hle := h k.succ_ne_zero
    rcases le_total bound u with hu | hu
    · rw [min_eq_right hu] at hle
      refine (min_le_right _ _).trans (hle.trans ?_)
      rw [succ_nsmul]
      exact le_add_self
    · rw [min_eq_left hu] at hle
      exact (min_le_left _ _).trans (nsmul_le_nsmul_right hle _)

namespace Finds

/-- **Rounds do not count too little.** -/
theorem min_encard_le (h : s.Finds S G q j m) (rounds : Nat) (hx : s.Near S m x) :
    min (cheapestFrom S G q s x).encard maxWeight ≤
      (walksFrom (s.tightClasses S) (q.destination.toClass S) rounds x : ℕ∞) := by
  induction rounds generalizing x with
  | zero => exact min_le_right _ _  -- the first guess is the greatest count
  | succ rounds ih =>
    by_cases hxd : x = q.destination.toClass S
    · rw [hxd, h.cheapestFrom_destination, walksFrom, if_pos rfl, Set.encard_singleton]
      exact min_le_left _ _
    · rw [h.walksFrom_succ rounds hxd, h.encard_cheapestFrom hx hxd]
      apply le_min _ (min_le_right _ _)
      apply min_sum_le
      intro y hy
      apply min_nsmul_le
      intro hcount
      exact ih (h.near_of_countP hx hy hcount).1

end Finds

end Search

/-! ### Rounds do not count too much -/

theorem walksFrom_le (tight : Multiset (Cast.Class S)) (d : Ty.Class S) (rounds : Nat)
    (x : Ty.Class S) : walksFrom tight d rounds x ≤ maxWeight := by
  cases rounds with
  | zero => exact le_rfl
  | succ rounds =>
    rw [walksFrom]
    split
    · decide
    · exact Nat.min_le_right ..

/-- Every walk along tight conversions comes to the destination within a number of steps. -/
def EndsWithin (tight : Multiset (Cast.Class S)) (d : Ty.Class S) : Nat → Ty.Class S → Prop
  | 0, x => x = d
  | steps + 1, x => x = d ∨ ∀ C ∈ tight, C.source = x → EndsWithin tight d steps C.destination

namespace EndsWithin

variable {tight : Multiset (Cast.Class S)} {d : Ty.Class S} {steps steps' : Nat}

theorem succ (h : EndsWithin tight d steps x) : EndsWithin tight d (steps + 1) x := by
  induction steps generalizing x with
  | zero => exact .inl h
  | succ steps ih => exact h.imp_right fun h C hC hx => ih (h C hC hx)

theorem mono (h : EndsWithin tight d steps x) (hle : steps ≤ steps') : EndsWithin tight d steps' x := by
  induction hle with
  | refl => exact h
  | step _ ih => exact ih.succ

/-- A class from which some walk takes all the steps is the first of as many different ones, since the
bounds decrease along tight conversions. -/
theorem exists_nodup {P : Ty.Class S → Prop}
    (hP : ∀ C ∈ tight, P C.source → C.source ≠ d → P C.destination)
    (hx : P x) (h : EndsWithin tight d (steps + 1) x) (hexact : ¬ EndsWithin tight d steps x) :
    ∃ ys : List (Ty.Class S), ys.length = steps + 1 ∧ ys.Nodup ∧
      ∀ y ∈ ys, P y ∧ y ≠ d ∧ EndsWithin tight d (steps + 1) y := by
  induction steps generalizing x with
  | zero =>
    refine ⟨[x], rfl, List.nodup_singleton x, fun y hy => ?_⟩
    cases List.mem_singleton.1 hy
    exact ⟨hx, hexact, h⟩
  | succ steps ih =>
    have hxd : x ≠ d := fun hxd => hexact (.inl hxd)
    obtain ⟨C, hC, hsource, hnext⟩ : ∃ C ∈ tight, C.source = x ∧
        ¬ EndsWithin tight d steps C.destination := by
      by_contra hnone
      push Not at hnone
      exact hexact (.inr hnone)
    subst hsource
    obtain ⟨ys, hlength, hnodup, hys⟩ :=
      ih (hP C hC hx hxd) (h.resolve_left hxd C hC rfl) hnext
    refine ⟨C.source :: ys, by simp [hlength], List.nodup_cons.2 ⟨?_, hnodup⟩, fun y hy => ?_⟩
    · -- the others have a smaller bound than `C.source` needs
      exact fun hmem => hexact (hys _ hmem).2.2
    · rcases List.mem_cons.1 hy with rfl | hy
      · exact ⟨hx, hxd, h⟩
      · obtain ⟨hPy, hyd, hwithin⟩ := hys y hy
        exact ⟨hPy, hyd, hwithin.succ⟩

end EndsWithin

namespace Search.Finds

theorem mem_tightClasses (h : s.Finds S G q j m) (hC : C ∈ s.tightClasses S) :
    C.destination ∈ s.frontier S q ∧ C ∈ G.offered S q.implicit C.destination ∧
      s.TightFrom C.source C.destination C := by
  have hmem : C ∈ (s.tightClasses S).filter (·.source = C.source) :=
    Multiset.mem_filter.2 ⟨hC, rfl⟩
  rw [h.tightClasses_filter_eq, Multiset.mem_bind] at hmem
  obtain ⟨y, hy, hC'⟩ := hmem
  obtain ⟨hoffered, htight⟩ := List.mem_filter.1 (Multiset.mem_coe.1 hC')
  have hdest : C.destination = y := h.solved.destination y C (Multiset.mem_coe.2 hoffered)
  subst hdest
  exact ⟨hy, Multiset.mem_coe.2 hoffered, of_decide_eq_true htight⟩

/-- **Rounds do not count too much** where walks end within fewer steps. -/
theorem le_encard (h : s.Finds S G q j m) {steps rounds : Nat} (hx : s.Near S m x)
    (hwithin : EndsWithin (s.tightClasses S) (q.destination.toClass S) steps x)
    (hlt : steps < rounds) :
    (walksFrom (s.tightClasses S) (q.destination.toClass S) rounds x : ℕ∞) ≤
      (cheapestFrom S G q s x).encard := by
  induction steps generalizing rounds x with
  | zero =>
    obtain ⟨rounds, rfl⟩ := Nat.exists_eq_add_one.2 hlt
    cases hwithin
    rw [h.cheapestFrom_destination, walksFrom, if_pos rfl, Set.encard_singleton]
    exact le_rfl
  | succ steps ih =>
    obtain ⟨rounds, rfl⟩ := Nat.exists_eq_add_one.2 (Nat.zero_lt_of_lt hlt)
    by_cases hxd : x = q.destination.toClass S
    · rw [hxd, h.cheapestFrom_destination, walksFrom, if_pos rfl, Set.encard_singleton]
      exact le_rfl
    · rw [h.walksFrom_succ rounds hxd, h.encard_cheapestFrom hx hxd]
      refine (min_le_left _ _).trans (Finset.sum_le_sum fun y hy => ?_)
      by_cases hcount : (G.arrivals S q.implicit y).countP (s.TightFrom x y) = 0
      · rw [hcount, zero_nsmul, zero_nsmul]
      · obtain ⟨hnear, C, hC, hsource, rfl⟩ := h.near_of_countP hx hy hcount
        apply nsmul_le_nsmul_right
        exact ih hnear (hwithin.resolve_left hxd C hC hsource) (Nat.lt_of_succ_lt_succ hlt)

/-- Bounds on the number of steps are less than the number of types that were met. -/
theorem endsWithin_of_endsWithin (h : s.Finds S G q j m) {steps : Nat} (hx : s.Near S m x)
    (hwithin : EndsWithin (s.tightClasses S) (q.destination.toClass S) steps x) :
    EndsWithin (s.tightClasses S) (q.destination.toClass S) (s.nodes.length - 1) x := by
  classical
  have hexists : ∃ k, EndsWithin (s.tightClasses S) (q.destination.toClass S) k x := ⟨steps, hwithin⟩
  have hleast := Nat.find_spec hexists
  cases hfind : Nat.find hexists with
  | zero =>
    rw [hfind] at hleast
    exact hleast.mono (Nat.zero_le _)
  | succ k =>
    rw [hfind] at hleast
    have hexact : ¬ EndsWithin (s.tightClasses S) (q.destination.toClass S) k x :=
      Nat.find_min hexists (by omega)
    obtain ⟨ys, hlength, hnodup, hys⟩ := EndsWithin.exists_nodup (P := s.Near S m)
      (fun C hC hnear _ => (h.near_of_tightFrom hnear (h.mem_tightClasses hC).1
        (h.mem_tightClasses hC).2.2).1) hx hleast hexact
    -- with the destination, they are classes of different nodes
    have hnodes : (q.destination.toClass S :: ys).Subperm (s.nodes.map (·.type.toClass S)) := by
      apply (List.nodup_cons.2 ⟨fun hmem => (hys _ hmem).2.1 rfl, hnodup⟩).subperm
      intro y hy
      have hnear : s.Near S m y := by
        rcases List.mem_cons.1 hy with rfl | hy
        · exact h.near_destination
        · exact (hys y hy).1
      obtain ⟨n, hn, hclass, -⟩ := hnear
      exact List.mem_map.2 ⟨n, hn, hclass⟩
    have hle := hnodes.length_le
    rw [List.length_cons, hlength, List.length_map] at hle
    exact hleast.mono (by omega)

/-! ### The count -/

/-- From every class that was met, there is a cheapest walk. -/
theorem nonempty_cheapestFrom (h : s.Finds S G q j m) (hx : s.Near S m x) :
    (cheapestFrom S G q s x).Nonempty := by
  obtain ⟨n, hn, rfl, hle⟩ := hx
  have hreaches := h.solved.surveys.charts.reaches n hn
  obtain ⟨walk, hwalk, hstart, hsteady, hweight⟩ :=
    CastQuery.exists_steady_of_reaches h.apart hreaches (hle.trans_lt h.lt_maxWeight)
  obtain ⟨-, hdist⟩ := h.near_of_steady hwalk hsteady (hweight.trans hle)
  rw [hstart] at hdist
  refine ⟨walk, hwalk, hstart, hsteady, le_antisymm ?_ hdist⟩
  rwa [h.solved.distanceOf_toClass hn]

/-- Where no number of steps is enough, there are walks that are longer. -/
theorem exists_longer (h : s.Finds S G q j m) {steps : Nat} (hx : s.Near S m x)
    (hnot : ¬ EndsWithin (s.tightClasses S) (q.destination.toClass S) steps x) :
    ∃ walk ∈ cheapestFrom S G q s x, steps < walk.length := by
  induction steps generalizing x with
  | zero =>
    obtain ⟨walk, hwalk⟩ := h.nonempty_cheapestFrom hx
    refine ⟨walk, hwalk, List.length_pos_iff.2 ?_⟩
    rintro rfl
    exact hnot hwalk.2.1.symm
  | succ steps ih =>
    have hxd : x ≠ q.destination.toClass S := fun hxd => hnot (.inl hxd)
    -- a tight conversion leads to a class from which one step less is not enough
    obtain ⟨C, hC, hsource, hnext⟩ : ∃ C ∈ s.tightClasses S, C.source = x ∧
        ¬ EndsWithin (s.tightClasses S) (q.destination.toClass S) steps C.destination := by
      by_contra hnone
      push Not at hnone
      exact hnot (.inr hnone)
    subst hsource
    obtain ⟨hfrontier, hoffered, htight⟩ := h.mem_tightClasses hC
    obtain ⟨walk, hwalk, hlength⟩ := ih (h.near_of_tightFrom hx hfrontier htight).1 hnext
    obtain ⟨i, hi⟩ := List.mem_iff_getElem?.1 (Multiset.mem_coe.1 hoffered)
    rw [← hwalk.2.1] at hi
    obtain ⟨c, hc, hclass⟩ := CastQuery.exists_getElem?_usableInto hi
    refine ⟨(i, c) :: walk, (h.cons_mem_cheapestFrom hx).2 ?_, Nat.succ_lt_succ hlength⟩
    rw [hwalk.2.1, hclass]
    rw [hwalk.2.1] at hi
    exact ⟨hxd, hfrontier, hwalk, hc, htight⟩

theorem near_source (h : s.Finds S G q j m) : s.Near S m (q.source.toClass S) := by
  obtain ⟨-, ⟨n, hn, -, hclass, hdist⟩, -⟩ := h.solved.surveys.met j m h.origin
  exact ⟨n, List.mem_of_getElem? hn, hclass, hdist.le⟩

/-- **The search counts the cheapest walks from the source**, as far as they can be counted. -/
theorem chainCount_eq (h : s.Finds S G q j m) :
    (s.chainCount j : ℕ∞) = min (cheapestFrom S G q s (q.source.toClass S)).encard maxWeight := by
  obtain ⟨-, ⟨n, hn, -, hclass, -⟩, -⟩ := h.solved.surveys.met j m h.origin
  rw [chainCount, h.solved.walkCounts_eq _ hn, hclass]
  apply le_antisymm _ (h.min_encard_le _ h.near_source)
  apply le_min _ (Nat.cast_le.2 (walksFrom_le _ _ _ _))
  by_cases hfinite : (cheapestFrom S G q s (q.source.toClass S)).Finite
  · -- finitely many walks have a greatest length
    obtain ⟨steps, hsteps⟩ := (hfinite.image List.length).bddAbove
    have hwithin : EndsWithin (s.tightClasses S) (q.destination.toClass S) steps
        (q.source.toClass S) := by
      by_contra hnot
      obtain ⟨walk, hwalk, hlength⟩ := h.exists_longer h.near_source hnot
      exact absurd (hsteps (Set.mem_image_of_mem _ hwalk)) hlength.not_ge
    have hpos : 0 < s.nodes.length := Nat.zero_lt_of_lt (List.getElem?_eq_some_iff.1 hn).1
    exact h.le_encard h.near_source (h.endsWithin_of_endsWithin h.near_source hwithin) (by omega)
  · rw [Set.encard_eq_top_iff.2 hfinite]
    exact le_top

/-- Cheapest walks follow the trail, where there is one. -/
theorem map_toClass_of_trail (h : s.Finds S G q j m) {Cs : List (Cast.Class S)} (hx : s.Near S m x)
    (htrail : Trail (s.tightClasses S) (q.destination.toClass S) x Cs)
    (hwalk : walk ∈ cheapestFrom S G q s x) : walk.map (·.2.toClass S) = Cs := by
  induction htrail generalizing walk with
  | nil =>
    rw [h.cheapestFrom_destination] at hwalk
    rw [hwalk]
    rfl
  | @cons x C Cs hxd hC htail ih =>
    cases walk with
    | nil => exact absurd hwalk.2.1.symm hxd
    | cons e rest =>
      obtain ⟨i, c⟩ := e
      obtain ⟨-, hfrontier, hrest, hc, htight⟩ := (h.cons_mem_cheapestFrom hx).1 hwalk
      -- the conversion is tight, and the trail has no other
      have hmem : c.toClass S ∈ (s.tightClasses S).filter (·.source = x) := by
        rw [h.tightClasses_filter_eq, Multiset.mem_bind]
        refine ⟨_, hfrontier, Multiset.mem_coe.2 (List.mem_filter.2 ⟨?_, decide_eq_true htight⟩)⟩
        exact List.mem_of_getElem? (CastQuery.getElem?_arrivals hc)
      rw [hC, Multiset.mem_singleton] at hmem
      have hdest : (q.startOf rest).toClass S = C.destination := by
        rw [← hmem]
        exact (h.solved.destination _ _ (CastQuery.mem_offered hc)).symm
      rw [List.map_cons, hmem]
      rw [hdest] at hfrontier hrest htight
      rw [ih (h.near_of_tightFrom hx hfrontier htight).1 hrest]

end Search.Finds

end RangeTyping
