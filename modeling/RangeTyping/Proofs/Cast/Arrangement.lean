import Mathlib
import RangeTyping.Proofs.Cast.Optimal
import RangeTyping.Proofs.Cast.Table

/-!
# Where and when conversions are registered does not matter

Two finished searches with the same source and destination, in graphs that have the same conversions
up to their order, have met the same classes of types at the same distances and have seen the same
classes of conversions (`Search.Solved.seenClasses_eq`, `Search.Solved.distanceOf_eq`).  The number of
cheapest chains is a function of these (`walksFrom`), and so is the chain, where it is the only one
(`Trail`).

So a query has the same answer however the conversions are spread over the open scopes of a context
and in whichever order they are registered: the same error, or a chain of the same weight with the
same ranges (`CastQuery.resolve_of_placed_perm`).  Only a decay on the way is made for one of several
types that are the same, and which one it is depends on the order
(`CastQuery.exists_resolve_ne_of_swapped`).
-/

namespace RangeTyping

variable {S : StructStore} {into : Ty.Class S → Multiset (Cast.Class S)} {a d x : Ty.Class S}
  {w : Weight}

namespace Search

variable {s s' : Search} {n n' m : SearchNode} {i j : Nat} {G : CastGraph} {implicit : Bool}

/-! ### Finished searches -/

/-- The search is over: all types up to the source, or all that can be reached, are expanded. -/
structure Solved (into : Ty.Class S → Multiset (Cast.Class S)) (a d : Ty.Class S) (s : Search) :
    Prop where
  surveys : s.Surveys into a d
  destination : ∀ y, ∀ c ∈ into y, c.destination = y
  near : ∀ i w, s.origin = some (i, w) → ∀ n ∈ s.nodes, n.distance ≤ w → n.expanded = true
  all : s.origin = none → ∀ n ∈ s.nodes, n.distance < maxWeight → n.expanded = true

theorem solved_explore (hG : G.Offers S implicit into) (source destination : Ty) :
    (explore S G source destination implicit).Solved into (source.toClass S)
      (destination.toClass S) := by
  have hsurveys := surveys_explore hG source destination
  have hover := step_explore_eq_none hG source destination
  refine ⟨hsurveys, hG.destination, fun i w horigin n => ?_, fun horigin n => ?_⟩
  · exact hsurveys.expanded_of_le hover horigin
  · exact expanded_of_lt hover horigin

namespace Solved

/-- Two nodes of one class are one. -/
theorem node_eq (h : s.Solved into a d) (hn : n ∈ s.nodes) (hm : m ∈ s.nodes)
    (hclass : n.type.toClass S = m.type.toClass S) : n = m := by
  obtain ⟨i, hi⟩ := List.mem_iff_getElem?.1 hn
  obtain ⟨j, hj⟩ := List.mem_iff_getElem?.1 hm
  have hij := h.surveys.charts.index_eq hi hj hclass
  rw [hij, hj] at hi
  exact (Option.some.inj hi).symm

/-- The distance of the source is the least weight at which it reaches the destination. -/
theorem origin_least (h : s.Solved into a d) (horigin : s.origin = some (i, w)) :
    Reaches into a d a w ∧ ∀ v, Reaches into a d a v → w ≤ v := by
  obtain ⟨-, ⟨n, hn, -, hclass, hdist⟩, -⟩ := h.surveys.met i w horigin
  have hmem := List.mem_of_getElem? hn
  constructor
  · have hreaches := h.surveys.charts.reaches n hmem
    rwa [hclass, hdist] at hreaches
  · intro v hv
    by_contra hlt
    rw [not_le] at hlt
    obtain ⟨m, hm, hm', hle⟩ := h.surveys.exists_node h.destination (h.near i w horigin) hv hlt.le
    rw [h.node_eq hm hmem (hm'.trans hclass.symm), hdist] at hle
    exact absurd hlt hle.not_gt

/-- A source that is not met does not reach the destination. -/
theorem le_of_unmet (h : s.Solved into a d) (horigin : s.origin = none) {v : Weight}
    (hv : Reaches into a d a v) : maxWeight ≤ v := by
  by_contra hlt
  rw [not_le] at hlt
  obtain ⟨m, hm, hclass, hle⟩ := h.surveys.exists_node h.destination
    (fun n hn hle => h.all horigin n hn (hle.trans_lt hlt)) hv le_rfl
  exact h.surveys.unmet horigin
    (mem_expandedClasses.2 ⟨m, hm, h.all horigin m hm (hle.trans_lt hlt), hclass⟩)

/-- **Two finished searches find the source at the same distance**, or both do not find it. -/
theorem origin_eq (h : s.Solved into a d) (h' : s'.Solved into a d) :
    s.origin.map (·.2) = s'.origin.map (·.2) := by
  cases horigin : s.origin with
  | none =>
    cases horigin' : s'.origin with
    | none => rfl
    | some p =>
      obtain ⟨j, w⟩ := p
      -- the second search met the source within the greatest weight, so the first had to meet it
      have hle := h.le_of_unmet horigin (h'.origin_least horigin').1
      exact absurd (h'.surveys.met j w horigin').1 hle.not_gt
  | some p =>
    obtain ⟨i, w⟩ := p
    have hleast := h.origin_least horigin
    cases horigin' : s'.origin with
    | none =>
      have hle := h'.le_of_unmet horigin' hleast.1
      exact absurd (h.surveys.met i w horigin).1 hle.not_gt
    | some p =>
      obtain ⟨j, w'⟩ := p
      have hleast' := h'.origin_least horigin'
      exact congrArg some (le_antisymm (hleast.2 _ hleast'.1) (hleast'.2 _ hleast.1))

variable (h : s.Solved into a d) (h' : s'.Solved into a d) (horigin : s.origin = some (i, w))
  (horigin' : s'.origin = some (j, w))
include h h' horigin horigin'

/-- What one search expanded, the other did, at no greater distance. -/
theorem exists_expanded (hn : n ∈ s.nodes) (hexp : n.expanded = true) :
    ∃ n' ∈ s'.nodes, n'.expanded = true ∧ n'.type.toClass S = n.type.toClass S ∧
      n'.distance ≤ n.distance := by
  obtain ⟨-, -, hnear⟩ := h.surveys.met i w horigin
  have hle := hnear n hn hexp
  obtain ⟨n', hn', hclass, hle'⟩ := h'.surveys.exists_node h'.destination (h'.near j w horigin')
    (h.surveys.charts.reaches n hn) hle
  exact ⟨n', hn', h'.near j w horigin' n' hn' (hle'.trans hle), hclass, hle'⟩

omit h' horigin horigin' in
theorem nodup_expandedClasses : (s.expandedClasses S).Nodup := by
  have hsub : (s.expandedTypes.map (Ty.toClass S)).Sublist (s.nodes.map (·.type.toClass S)) := by
    rw [expandedTypes, List.map_map]
    exact List.filter_sublist.map _
  exact Multiset.coe_nodup.2 (h.surveys.charts.nodup.sublist hsub)

theorem expandedClasses_eq : s.expandedClasses S = s'.expandedClasses S := by
  refine (Multiset.Nodup.ext h.nodup_expandedClasses h'.nodup_expandedClasses).2 fun y => ?_
  rw [mem_expandedClasses, mem_expandedClasses]
  constructor
  · rintro ⟨n, hn, hexp, rfl⟩
    obtain ⟨n', hn', hexp', hclass, -⟩ := h.exists_expanded h' horigin horigin' hn hexp
    exact ⟨n', hn', hexp', hclass⟩
  · rintro ⟨n, hn, hexp, rfl⟩
    obtain ⟨n', hn', hexp', hclass, -⟩ := h'.exists_expanded h horigin' horigin hn hexp
    exact ⟨n', hn', hexp', hclass⟩

/-- **Two finished searches have seen the same conversions.** -/
theorem seenClasses_eq : s.seenClasses S = s'.seenClasses S := by
  rw [h.surveys.seen, h'.surveys.seen, h.expandedClasses_eq h' horigin horigin']

end Solved

/-! ### Classes, distances and tight conversions -/

/-- The classes that were met. -/
def nodeClasses (S : StructStore) (s : Search) : Multiset (Ty.Class S) :=
  (s.nodes.map (·.type.toClass S) : List _)

/-- The distance of a class. -/
def distanceOf (S : StructStore) (s : Search) (y : Ty.Class S) : Weight :=
  ((s.nodes.find? (·.type.toClass S = y)).map (·.distance)).getD maxWeight

/-- The classes of the conversions that lie on a cheapest chain from where they start. -/
def tightClasses (S : StructStore) (s : Search) : Multiset (Cast.Class S) :=
  (s.tight.map (·.cast.toClass S) : List _)

namespace Solved

theorem distanceOf_toClass (h : s.Solved into a d) (hn : n ∈ s.nodes) :
    s.distanceOf S (n.type.toClass S) = n.distance := by
  cases hfind : s.nodes.find? (·.type.toClass S = n.type.toClass S) with
  | none => simpa using List.find?_eq_none.1 hfind n hn
  | some m =>
    have hclass : m.type.toClass S = n.type.toClass S := by simpa using List.find?_some hfind
    rw [distanceOf, hfind, h.node_eq (List.mem_of_find?_eq_some hfind) hn hclass]
    rfl

/-- Besides the destination, the classes that were met are where conversions start. -/
theorem mem_nodeClasses (h : s.Solved into a d) {y : Ty.Class S} :
    y ∈ s.nodeClasses S ↔ y = d ∨ ∃ c ∈ s.seenClasses S, c.source = y := by
  constructor
  · intro hy
    obtain ⟨n, hn, rfl⟩ := List.mem_map.1 (Multiset.mem_coe.1 hy)
    obtain ⟨i, hi⟩ := List.mem_iff_getElem?.1 hn
    cases i with
    | zero =>
      obtain ⟨m, hm, hclass, -⟩ := h.surveys.charts.zero
      cases hi.symm.trans hm
      exact .inl hclass
    | succ i =>
      -- any other node was added by a conversion, which leads on from it
      obtain ⟨w, hw⟩ := h.surveys.settled
      obtain ⟨e, he, hsource, -⟩ := hw.tight (i + 1) n i.succ_pos hi
      obtain ⟨m, hm, hclass⟩ := h.surveys.charts.source e he
      rw [hsource] at hm
      cases hi.symm.trans hm
      exact .inr ⟨_, mem_seenClasses.2 ⟨e, he, rfl⟩, hclass.symm⟩
  · rintro (rfl | ⟨c, hc, rfl⟩)
    · obtain ⟨m, hm, hclass, -⟩ := h.surveys.charts.zero
      exact Multiset.mem_coe.2 (List.mem_map.2 ⟨m, List.mem_of_getElem? hm, hclass⟩)
    · obtain ⟨e, he, rfl⟩ := mem_seenClasses.1 hc
      obtain ⟨m, hm, hclass⟩ := h.surveys.charts.source e he
      exact Multiset.mem_coe.2 (List.mem_map.2 ⟨m, List.mem_of_getElem? hm, hclass⟩)

/-- The tight conversions are determined by what was seen and the distances. -/
theorem tightClasses_eq_filter (h : s.Solved into a d) :
    s.tightClasses S = (s.seenClasses S).filter fun c =>
      s.distanceOf S c.source = addWeight (s.distanceOf S c.destination) c.weight := by
  -- whether an edge is tight can be told from the classes at its ends
  have hedge : ∀ e ∈ s.edges,
      (s.distance e.source == addWeight (s.distance e.target) e.cast.weight) =
        decide (s.distanceOf S (e.cast.toClass S).source =
          addWeight (s.distanceOf S (e.cast.toClass S).destination) (e.cast.toClass S).weight) := by
    intro e he
    obtain ⟨n, hn, hsource⟩ := h.surveys.charts.source e he
    obtain ⟨m, hm, htarget⟩ := h.surveys.charts.target e he
    have hn' := h.distanceOf_toClass (List.mem_of_getElem? hn)
    have hm' := h.distanceOf_toClass (List.mem_of_getElem? hm)
    rw [hsource] at hn'
    rw [htarget] at hm'
    simp only [distance, hn, hm, hn', hm', Option.map_some, Option.getD_some, Cast.source_toClass,
      Cast.destination_toClass, Cast.weight_toClass]
    rfl
  rw [tightClasses, tight, List.filter_congr hedge, seenClasses, Multiset.filter_coe,
    List.filter_map]
  rfl

variable (h : s.Solved into a d) (h' : s'.Solved into a d) (horigin : s.origin = some (i, w))
  (horigin' : s'.origin = some (j, w))
include h h' horigin horigin'

theorem nodeClasses_eq : s.nodeClasses S = s'.nodeClasses S := by
  refine (Multiset.Nodup.ext (Multiset.coe_nodup.2 h.surveys.charts.nodup)
    (Multiset.coe_nodup.2 h'.surveys.charts.nodup)).2 fun y => ?_
  rw [← nodeClasses, ← nodeClasses, h.mem_nodeClasses, h'.mem_nodeClasses,
    h.seenClasses_eq h' horigin horigin']

theorem length_nodes_eq : s.nodes.length = s'.nodes.length := by
  have hcard := congrArg Multiset.card (h.nodeClasses_eq h' horigin horigin')
  simpa [nodeClasses] using hcard

/-- What one search has met, the other has at no greater distance. -/
theorem distance_le (hn : n ∈ s.nodes) (hn' : n' ∈ s'.nodes)
    (hclass : n.type.toClass S = n'.type.toClass S) : n'.distance ≤ n.distance := by
  obtain ⟨k, hk⟩ := List.mem_iff_getElem?.1 hn
  cases k with
  | zero =>
    obtain ⟨m, hm, hm', -⟩ := h.surveys.charts.zero
    cases hk.symm.trans hm
    obtain ⟨p, hp, hp', hdist⟩ := h'.surveys.charts.zero
    rw [h'.node_eq hn' (List.mem_of_getElem? hp) (hclass.symm.trans (hm'.trans hp'.symm)), hdist]
    exact Nat.zero_le _
  | succ k =>
    -- the conversion that makes the distance was seen in the other search, too
    obtain ⟨v, hv⟩ := h.surveys.settled
    obtain ⟨e, he, hsource, m, hm, hdist⟩ := hv.tight (k + 1) n k.succ_pos hk
    obtain ⟨m₀, hm₀, hexp⟩ := hv.target e he
    cases hm.symm.trans hm₀
    obtain ⟨n₀, hn₀, hn₀'⟩ := h.surveys.charts.source e he
    rw [hsource] at hn₀
    cases hk.symm.trans hn₀
    obtain ⟨m₁, hm₁, hm₁'⟩ := h.surveys.charts.target e he
    cases hm.symm.trans hm₁
    obtain ⟨m', hm', -, hmclass, hle⟩ :=
      h.exists_expanded h' horigin horigin' (List.mem_of_getElem? hm) hexp
    have hseen : e.cast.toClass S ∈ s'.seenClasses S := by
      rw [← h.seenClasses_eq h' horigin horigin']
      exact mem_seenClasses.2 ⟨e, he, rfl⟩
    obtain ⟨e', he', hlike⟩ := mem_seenClasses.1 hseen
    obtain ⟨p, hp, hp'⟩ := h'.surveys.charts.source e' he'
    obtain ⟨q, hq, hq'⟩ := h'.surveys.charts.target e' he'
    have hpn : p = n' := by
      refine h'.node_eq (List.mem_of_getElem? hp) hn' ?_
      rw [hp', ← hclass, hn₀', ← Cast.source_toClass, ← Cast.source_toClass, hlike]
    have hqm : q = m' := by
      refine h'.node_eq (List.mem_of_getElem? hq) hm' ?_
      rw [hq', hmclass, hm₁', ← Cast.destination_toClass, ← Cast.destination_toClass, hlike]
    have hweight : e'.cast.weight = e.cast.weight := by
      rw [← Cast.weight_toClass (S := S), hlike, Cast.weight_toClass]
    calc n'.distance ≤ addWeight m'.distance e.cast.weight := by
          rw [← hpn, ← hqm, ← hweight]
          exact h'.surveys.charts.shorter e' he' p q hp hq
      _ ≤ addWeight m.distance e.cast.weight := min_le_min_right _ (Nat.add_le_add_right hle _)
      _ = n.distance := hdist.symm

/-- **Two finished searches have the same distances.** -/
theorem distanceOf_eq : s.distanceOf S = s'.distanceOf S := by
  funext y
  by_cases hy : y ∈ s.nodeClasses S
  · have hy' := hy
    rw [h.nodeClasses_eq h' horigin horigin'] at hy'
    obtain ⟨n, hn, rfl⟩ := List.mem_map.1 (Multiset.mem_coe.1 hy)
    obtain ⟨n', hn', hclass⟩ := List.mem_map.1 (Multiset.mem_coe.1 hy')
    rw [h.distanceOf_toClass hn, ← hclass, h'.distanceOf_toClass hn']
    exact le_antisymm (h'.distance_le h horigin' horigin hn' hn hclass)
      (h.distance_le h' horigin horigin' hn hn' hclass.symm)
  · -- neither has met the class
    have hnone : ∀ s : Search, y ∉ s.nodeClasses S → s.distanceOf S y = maxWeight := by
      intro s hs
      have hfind : s.nodes.find? (·.type.toClass S = y) = none := by
        rw [List.find?_eq_none]
        intro n hn hclass
        exact hs (Multiset.mem_coe.2 (List.mem_map.2 ⟨n, hn, by simpa using hclass⟩))
      rw [distanceOf, hfind]
      rfl
    rw [hnone s hy, hnone s' (h.nodeClasses_eq h' horigin horigin' ▸ hy)]

theorem tightClasses_eq : s.tightClasses S = s'.tightClasses S := by
  rw [h.tightClasses_eq_filter, h'.tightClasses_eq_filter, h.seenClasses_eq h' horigin horigin',
    h.distanceOf_eq h' horigin horigin']

end Solved

end Search

/-! ### Counting and following cheapest chains -/

/-- The number of walks of tight conversions from a class to the destination, as far as a number of
rounds tells. -/
def walksFrom (tight : Multiset (Cast.Class S)) (d : Ty.Class S) : Nat → Ty.Class S → Weight
  | 0, _ => maxWeight
  | rounds + 1, x =>
    if x = d then 1
    else
      min ((tight.filter (·.source = x)).map fun c => walksFrom tight d rounds c.destination).sum
        maxWeight

/-- **The only walk from a class to the destination**: from every class on it there is one tight
conversion. -/
inductive Trail (tight : Multiset (Cast.Class S)) (d : Ty.Class S) :
    Ty.Class S → List (Cast.Class S) → Prop where
  | nil : Trail tight d d []
  | cons {x : Ty.Class S} {c : Cast.Class S} {rest : List (Cast.Class S)} (hx : x ≠ d)
      (hc : tight.filter (·.source = x) = {c}) (tail : Trail tight d c.destination rest) :
      Trail tight d x (c :: rest)

theorem Trail.unique {tight : Multiset (Cast.Class S)} {cs cs' : List (Cast.Class S)}
    (h : Trail tight d x cs) (h' : Trail tight d x cs') : cs = cs' := by
  induction h generalizing cs' with
  | nil =>
    cases h' with
    | nil => rfl
    | cons hx => exact absurd rfl hx
  | cons hx hc tail ih =>
    cases h' with
    | nil => exact absurd rfl hx
    | cons hx' hc' tail' =>
      have heq := Multiset.singleton_inj.1 (hc.symm.trans hc')
      subst heq
      rw [ih tail']

namespace Search

variable {s : Search} {n : SearchNode} {i : Nat}

namespace Solved

variable (h : s.Solved into a d)
include h

theorem toClass_eq_destination_iff (hn : s.nodes[i]? = some n) : n.type.toClass S = d ↔ i = 0 := by
  obtain ⟨m, hm, hclass, -⟩ := h.surveys.charts.zero
  constructor
  · intro hd
    exact h.surveys.charts.index_eq hn hm (hd.trans hclass.symm)
  · rintro rfl
    cases hn.symm.trans hm
    exact hclass

/-- The tight conversions that start at a node. -/
theorem tightClasses_filter (hn : s.nodes[i]? = some n) :
    (s.tightClasses S).filter (·.source = n.type.toClass S) =
      ((s.tight.filter (·.source == i)).map (·.cast.toClass S) : List _) := by
  have hedge : ∀ e ∈ s.tight, decide ((e.cast.toClass S).source = n.type.toClass S) =
      (e.source == i) := by
    intro e he
    obtain ⟨m, hm, hclass⟩ := h.surveys.charts.source e (List.mem_filter.1 he).1
    rw [Bool.eq_iff_iff, decide_eq_true_eq, beq_iff_eq, Cast.source_toClass, ← hclass]
    constructor
    · exact h.surveys.charts.index_eq hm hn
    · intro hi
      rw [hi, hn] at hm
      rw [Option.some.inj hm]
  rw [tightClasses, Multiset.filter_coe, List.filter_map, ← List.filter_congr hedge]
  rfl

/-- **The number of walks from a node depends on its class alone.** -/
theorem walkCounts_eq (rounds : Nat) (hn : s.nodes[i]? = some n) :
    (walkCounts s.tight s.nodes.length rounds).getD i 0 =
      walksFrom (s.tightClasses S) d rounds (n.type.toClass S) := by
  have hi : i < s.nodes.length := (List.getElem?_eq_some_iff.1 hn).1
  induction rounds generalizing i n with
  | zero => simp [walkCounts, walksFrom, hi]
  | succ rounds ih =>
    cases i with
    | zero => rw [walkCounts_zero hi, walksFrom, if_pos ((h.toClass_eq_destination_iff hn).2 rfl)]
    | succ i =>
      have hne : n.type.toClass S ≠ d := fun hd =>
        absurd ((h.toClass_eq_destination_iff hn).1 hd) i.succ_ne_zero
      -- the walks over an edge are those from its target, which the induction counts
      have hmap : ((s.tight.filter (·.source == i + 1)).map fun e =>
          (walkCounts s.tight s.nodes.length rounds).getD e.target 0) =
          (s.tight.filter (·.source == i + 1)).map fun e =>
            walksFrom (s.tightClasses S) d rounds (e.cast.toClass S).destination := by
        refine List.map_congr_left fun e he => ?_
        obtain ⟨m, hm, hclass⟩ :=
          h.surveys.charts.target e (List.mem_filter.1 (List.mem_filter.1 he).1).1
        rw [ih hm (List.getElem?_eq_some_iff.1 hm).1, hclass]
        rfl
      -- adding up with saturation is cutting off the sum
      have hfold := foldl_addWeight (fun e : SearchEdge =>
        (walkCounts s.tight s.nodes.length rounds).getD e.target 0)
        (s.tight.filter (·.source == i + 1)) 0
      rw [walkCounts_succ i.succ_pos hi, walksFrom, if_neg hne, h.tightClasses_filter hn]
      rw [Nat.zero_min, Nat.zero_add, hmap] at hfold
      rw [hfold, Multiset.map_coe, List.map_map, Multiset.sum_coe]
      rfl

/-- Some tight conversion starts at every node but the destination. -/
theorem exists_tight (hi : 0 < i) (hn : s.nodes[i]? = some n) :
    ∃ e ∈ s.tight, e.source = i := by
  obtain ⟨w, hw⟩ := h.surveys.settled
  obtain ⟨e, he, hsource, m, hm, hdist⟩ := hw.tight i n hi hn
  refine ⟨e, List.mem_filter.2 ⟨he, ?_⟩, hsource⟩
  simp only [distance, hsource, hn, hm, Option.map_some, Option.getD_some, hdist, beq_self_eq_true]

theorem mem_tightClasses_filter {e : SearchEdge} (he : e ∈ s.tight) (hn : s.nodes[e.source]? = some n) :
    e.cast.toClass S ∈ (s.tightClasses S).filter (·.source = n.type.toClass S) := by
  rw [h.tightClasses_filter hn]
  exact Multiset.mem_coe.2 (List.mem_map_of_mem (List.mem_filter.2 ⟨he, by simp⟩))

/-- Some walk leads from every node to the destination. -/
theorem one_le_walksFrom (rounds : Nat) (hn : s.nodes[i]? = some n) :
    1 ≤ walksFrom (s.tightClasses S) d rounds (n.type.toClass S) := by
  induction rounds generalizing i n with
  | zero => exact Nat.one_le_iff_ne_zero.2 (by norm_num [walksFrom, maxWeight])
  | succ rounds ih =>
    rw [walksFrom]
    split
    · exact le_rfl
    · rename_i hne
      have hpos : 0 < i := Nat.pos_of_ne_zero fun hzero =>
        hne ((h.toClass_eq_destination_iff hn).2 hzero)
      -- a tight edge leaves the node, and the walks over it are among those counted
      obtain ⟨e, he, rfl⟩ := h.exists_tight hpos hn
      obtain ⟨m, hm, hclass⟩ := h.surveys.charts.target e (List.mem_filter.1 he).1
      have hterm := Multiset.mem_map_of_mem
        (fun c : Cast.Class S => walksFrom (s.tightClasses S) d rounds c.destination)
        (h.mem_tightClasses_filter he hn)
      have hle := Multiset.le_sum_of_mem hterm
      have hone := ih hm
      rw [hclass] at hone
      exact le_min (hone.trans hle) (by norm_num [maxWeight])

theorem one_le_of_mem_tightClasses (rounds : Nat) {c : Cast.Class S} (hc : c ∈ s.tightClasses S) :
    1 ≤ walksFrom (s.tightClasses S) d rounds c.destination := by
  obtain ⟨e, he, rfl⟩ := List.mem_map.1 (Multiset.mem_coe.1 hc)
  obtain ⟨m, hm, hclass⟩ := h.surveys.charts.target e (List.mem_filter.1 he).1
  have hone := h.one_le_walksFrom rounds hm
  rwa [hclass] at hone

/-- Where there is one walk at most, there is one tight conversion. -/
theorem tightClasses_filter_eq_singleton {rounds : Nat} {e : SearchEdge} (he : e ∈ s.tight)
    (hpos : 0 < e.source) (hn : s.nodes[e.source]? = some n)
    (hone : walksFrom (s.tightClasses S) d (rounds + 1) (n.type.toClass S) ≤ 1) :
    (s.tightClasses S).filter (·.source = n.type.toClass S) = {e.cast.toClass S} ∧
      walksFrom (s.tightClasses S) d rounds (e.cast.toClass S).destination ≤ 1 := by
  have hne : n.type.toClass S ≠ d := fun hd =>
    absurd ((h.toClass_eq_destination_iff hn).1 hd) hpos.ne'
  rw [walksFrom, if_neg hne] at hone
  have hsum : (((s.tightClasses S).filter (·.source = n.type.toClass S)).map fun c =>
      walksFrom (s.tightClasses S) d rounds c.destination).sum ≤ 1 := by
    rcases min_le_iff.1 hone with hle | hle
    · exact hle
    · exact absurd hle (by norm_num [maxWeight])
  obtain ⟨rest, hrest⟩ := Multiset.exists_cons_of_mem (h.mem_tightClasses_filter he hn)
  rw [hrest, Multiset.map_cons, Multiset.sum_cons] at hsum
  have hhead := h.one_le_of_mem_tightClasses rounds
    (Multiset.mem_of_mem_filter (h.mem_tightClasses_filter he hn))
  -- each of the others would add a walk
  have hempty : rest = 0 := by
    by_contra hsome
    obtain ⟨c, hc⟩ := Multiset.exists_mem_of_ne_zero hsome
    have hmem : c ∈ (s.tightClasses S).filter (·.source = n.type.toClass S) := by
      rw [hrest]
      exact Multiset.mem_cons_of_mem hc
    have hother := (h.one_le_of_mem_tightClasses rounds (Multiset.mem_of_mem_filter hmem)).trans
      (Multiset.le_sum_of_mem (Multiset.mem_map_of_mem
        (fun c : Cast.Class S => walksFrom (s.tightClasses S) d rounds c.destination) hc))
    simp only [Weight] at *
    omega
  rw [hempty] at hrest hsum
  exact ⟨hrest, by simpa using hsum⟩

/-- **The only chain from a node depends on its class alone.** -/
theorem trail_of_follow {rounds : Nat} {casts : List Cast} (hn : s.nodes[i]? = some n)
    (hone : walksFrom (s.tightClasses S) d rounds (n.type.toClass S) ≤ 1)
    (hfollow : follow s.tight rounds i = some casts) :
    Trail (s.tightClasses S) d (n.type.toClass S) (casts.map (Cast.toClass S)) := by
  induction rounds generalizing i n casts with
  | zero =>
    cases i with
    | zero =>
      cases hfollow
      rw [(h.toClass_eq_destination_iff hn).2 rfl]
      exact .nil
    | succ i => cases hfollow
  | succ rounds ih =>
    cases i with
    | zero =>
      cases hfollow
      rw [(h.toClass_eq_destination_iff hn).2 rfl]
      exact .nil
    | succ i =>
      simp only [follow] at hfollow
      split at hfollow
      · cases hfollow
      · rename_i e hfind
        obtain ⟨rest, hrest, rfl⟩ := Option.map_eq_some_iff.1 hfollow
        have hsource : e.source = i + 1 := by simpa using List.find?_some hfind
        have he := List.mem_of_find?_eq_some hfind
        rw [← hsource] at hn
        -- no other tight edge leaves the node, and only one walk goes on from its target
        obtain ⟨hsole, hone'⟩ :=
          h.tightClasses_filter_eq_singleton he (by omega) hn hone
        obtain ⟨m, hm, hclass⟩ := h.surveys.charts.target e (List.mem_filter.1 he).1
        rw [Cast.destination_toClass, ← hclass] at hone'
        have htail := ih hm hone' hrest
        rw [hclass] at htail
        refine .cons ?_ hsole htail
        intro hd
        have hzero := (h.toClass_eq_destination_iff hn).1 hd
        omega

/-- Where there is one chain at most, there is one. -/
theorem exists_chain (hn : s.nodes[i]? = some n) (hone : s.chainCount i ≤ 1) :
    ∃ casts, s.chain i = some casts ∧
      Trail (s.tightClasses S) d (n.type.toClass S) (casts.map (Cast.toClass S)) := by
  cases hchain : s.chain i with
  | none =>
    obtain ⟨w, hw⟩ := h.surveys.settled
    rw [hw.chainCount (List.getElem?_eq_some_iff.1 hn).1 hchain] at hone
    exact absurd hone (by norm_num [maxWeight])
  | some casts =>
    rw [chainCount, h.walkCounts_eq _ hn] at hone
    exact ⟨casts, rfl, h.trail_of_follow hn hone hchain⟩

end Solved

end Search

/-! ### Queries -/

/-- The outcomes are the same error, or values that are related. -/
inductive Outcome.Matches {ε α : Type} (R : α → α → Prop) : Outcome ε α → Outcome ε α → Prop where
  | ok {x y : α} (h : R x y) : Matches R (.ok x) (.ok y)
  | error (e : Failure ε) : Matches R (.error e) (.error e)

theorem Outcome.Matches.refl {ε α : Type} (x : Outcome ε α) : Matches (· = ·) x x := by
  cases x with
  | ok a => exact .ok rfl
  | error e => exact .error e

theorem Outcome.Matches.bind {ε α β : Type} {R : α → α → Prop} {Q : β → β → Prop}
    {x y : Outcome ε α} {f g : α → Outcome ε β} (h : Matches R x y)
    (hf : ∀ u v, x = .ok u → y = .ok v → R u v → Matches Q (f u) (g v)) :
    Matches Q (x >>= f) (y >>= g) := by
  cases h with
  | ok h => exact hf _ _ rfl rfl h
  | error e => exact .error e

theorem Outcome.Matches.eq {ε α : Type} {R : α → α → Prop} {x y : Outcome ε α} (h : Matches R x y)
    (heq : ∀ u v, x = .ok u → y = .ok v → R u v → u = v) : x = y := by
  cases h with
  | ok h => rw [heq _ _ rfl rfl h]
  | error e => rfl

/-- The conversions are alike, and so are the ranges after them. -/
structure ChainStep.Like (S : StructStore) (step step' : ChainStep) : Prop where
  cast : step.cast.Like S step'.cast
  range : step.range = step'.range

/-- The chains weigh the same, have the same ranges, and conversions that are alike. -/
structure Chain.Like (S : StructStore) (chain chain' : Chain) : Prop where
  weight : chain.weight = chain'.weight
  range : chain.range = chain'.range
  steps : List.Forall₂ (ChainStep.Like S) chain.steps chain'.steps

theorem ChainStep.map_range_eq {steps steps' : List ChainStep}
    (h : List.Forall₂ (ChainStep.Like S) steps steps') :
    steps.map (·.range) = steps'.map (·.range) := by
  induction h with
  | nil => rfl
  | cons hstep _ ih => rw [List.map_cons, List.map_cons, hstep.range, ih]

namespace CastQuery

variable {q : CastQuery} {G G' : CastGraph}

/-- Graphs with the same conversions have the same cheapest chain, up to the types of decays. -/
theorem matches_searchedChain (hG : G.Offers S q.implicit into) (hG' : G'.Offers S q.implicit into) :
    Outcome.Matches (fun cs cs' => cs.map (Cast.toClass S) = cs'.map (Cast.toClass S))
      (q.searchedChain S G) (q.searchedChain S G') := by
  have h := Search.solved_explore hG q.source q.destination
  have h' := Search.solved_explore hG' q.source q.destination
  have horigins := h.origin_eq h'
  unfold searchedChain
  dsimp only
  generalize Search.explore S G q.source q.destination q.implicit = s at *
  generalize Search.explore S G' q.source q.destination q.implicit = s' at *
  cases horigin : s.origin with
  | none =>
    rw [horigin, Option.map_none, eq_comm, Option.map_eq_none_iff] at horigins
    rw [horigins]
    exact .error _
  | some p =>
    obtain ⟨i, w⟩ := p
    rw [horigin, Option.map_some, eq_comm, Option.map_eq_some_iff] at horigins
    obtain ⟨⟨j, w'⟩, horigin', rfl⟩ := horigins
    obtain ⟨-, ⟨n, hn, -, hclass, -⟩, -⟩ := h.surveys.met _ _ horigin
    obtain ⟨-, ⟨n', hn', -, hclass', -⟩, -⟩ := h'.surveys.met _ _ horigin'
    -- walks are counted over the same tight conversions, from the same class
    have htight := h.tightClasses_eq h' horigin horigin'
    have hcount : s.chainCount i = s'.chainCount j := by
      rw [Search.chainCount, Search.chainCount, h.walkCounts_eq _ hn, h'.walkCounts_eq _ hn', htight,
        h.length_nodes_eq h' horigin horigin', hclass, hclass']
    rw [horigin']
    dsimp only
    rw [hcount]
    split
    · exact .error _
    · rename_i hone
      rw [not_lt] at hone
      -- there is only one walk, so that both chains have its classes
      obtain ⟨casts, hchain, htrail⟩ := h.exists_chain hn (hcount ▸ hone)
      obtain ⟨casts', hchain', htrail'⟩ := h'.exists_chain hn' hone
      rw [hclass, htight] at htrail
      rw [hclass'] at htrail'
      rw [hchain, hchain']
      exact .ok (htrail.unique htrail')

/-- The direct conversions of least weight do not depend on their order. -/
theorem perm_cheapestDirect (h : (G.castsTo S q.destination).Perm (G'.castsTo S q.destination)) :
    (q.cheapestDirect S G).Perm (q.cheapestDirect S G') := by
  have hdirect := h.filter fun c => c.usable q.implicit && c.source.same S q.source
  have hall : ∀ c : Cast, ((G.castsTo S q.destination).filter fun c =>
      c.usable q.implicit && c.source.same S q.source).all (c.weight ≤ ·.weight) =
      ((G'.castsTo S q.destination).filter fun c =>
        c.usable q.implicit && c.source.same S q.source).all (c.weight ≤ ·.weight) :=
    fun c => hdirect.all_eq
  simp only [cheapestDirect, hall]
  exact hdirect.filter _

theorem matches_casts (hG : G.Offers S q.implicit into) (hG' : G'.Offers S q.implicit into)
    (h : (G.castsTo S q.destination).Perm (G'.castsTo S q.destination)) :
    Outcome.Matches (fun cs cs' => cs.map (Cast.toClass S) = cs'.map (Cast.toClass S))
      (q.casts S G) (q.casts S G') := by
  have hperm := perm_cheapestDirect (q := q) h
  unfold casts
  rcases hdirect : q.cheapestDirect S G with _ | ⟨c, _ | ⟨c', rest⟩⟩
  · rw [hdirect, List.nil_perm] at hperm
    rw [hperm]
    exact matches_searchedChain hG hG'
  · rw [hdirect, List.singleton_perm] at hperm
    rw [← hperm]
    exact .ok rfl
  · -- of several direct conversions only the number is reported
    have hlength := hperm.length_eq
    rw [hdirect] at hlength
    rcases hdirect' : q.cheapestDirect S G' with _ | ⟨e, _ | ⟨e', rest'⟩⟩
    · simp [hdirect'] at hlength
    · simp [hdirect'] at hlength
    · rw [hdirect'] at hlength
      dsimp only
      rw [hlength]
      exact .error _

end CastQuery

/-! ### Ranges along the chain -/

/-- The full range of a scalar depends on its size and kind. -/
theorem Scalar.fullRange_congr {s s' : Scalar} (hsize : s.size = s'.size)
    (hkind : s.kind = s'.kind) : s.fullRange = s'.fullRange := by
  have hleast : s.least = s'.least := by
    simp only [least, magnitudeBits, rangeBits, bits, hsize, hkind]
  have hgreatest : s.greatest = s'.greatest := by
    simp only [greatest, magnitudeBits, rangeBits, bits, hsize, hkind]
  have hrange : s.rangeOf s.least s.greatest = s'.rangeOf s'.least s'.greatest := by
    simp [rangeOf, checkBounds, checkWidth, bits, signedness, isSigned, hleast, hgreatest, hsize,
      hkind]
  simp only [fullRange, hrange, hkind]

theorem Ty.fullRange_eq_of_same {t u : Ty} (h : t.same S u = true) :
    t.fullRange = u.fullRange := by
  cases t <;> cases u <;> simp only [same, sameWith, Bool.and_eq_true, beq_iff_eq,
    Bool.false_eq_true] at h
  case scalar.scalar f s g s' =>
    simp only [Scalar.same, Bool.and_eq_true, beq_iff_eq] at h
    exact Scalar.fullRange_congr h.2.1.1 h.2.2
  all_goals rfl

namespace CastQuery

variable {q : CastQuery} {G G' : CastGraph} {c c' : Cast} {casts casts' : List Cast}

/-- Conversions that are alike carry ranges alike. -/
theorem rangeAfter_eq_of_like (h : c.Like S c') (q : CastQuery) (r : Option ValueRange) :
    q.rangeAfter c r = q.rangeAfter c' r := by
  have hdestination := Ty.fullRange_eq_of_same h.destination
  rcases h with rfl | ⟨hc, hc', -, -⟩
  · rfl
  · have hadmits : admits q.implicit c r = .ok true := by simp [admits, hc.rule]
    have hadmits' : admits q.implicit c' r = .ok true := by simp [admits, hc'.rule]
    unfold rangeAfter
    rw [hadmits, hadmits']
    cases r with
    | none => rw [hdestination]
    | some p => rw [hc.transform, hc'.transform]; rfl

theorem matches_steps (h : casts.map (Cast.toClass S) = casts'.map (Cast.toClass S))
    (q : CastQuery) (r : Option ValueRange) :
    Outcome.Matches (List.Forall₂ (ChainStep.Like S)) (q.steps r casts) (q.steps r casts') := by
  induction casts generalizing casts' r with
  | nil =>
    rw [List.map_nil, eq_comm, List.map_eq_nil_iff] at h
    rw [h]
    exact .ok .nil
  | cons c rest ih =>
    rw [List.map_cons, eq_comm, List.map_eq_cons_iff] at h
    obtain ⟨c', rest', rfl, hc, hrest⟩ := h
    have hlike : c.Like S c' := Cast.toClass_eq.1 hc.symm
    rw [steps, steps, rangeAfter_eq_of_like hlike]
    refine .bind (.refl (q.rangeAfter c' r)) ?_
    rintro after _ - - rfl
    refine .bind (ih hrest.symm after) fun others others' _ _ hothers => ?_
    exact .ok (.cons ⟨hlike, rfl⟩ hothers)

theorem totalWeight_eq (h : casts.map (Cast.toClass S) = casts'.map (Cast.toClass S)) :
    totalWeight casts = totalWeight casts' := by
  have hweight : ∀ cs : List Cast, totalWeight cs =
      (cs.map (Cast.toClass S)).foldl (fun w c => addWeight w c.weight) 0 := by
    intro cs
    rw [List.foldl_map]
    rfl
  rw [hweight casts, hweight casts', h]

/-- Graphs with the same conversions give the same answer, up to the types of decays. -/
theorem matches_resolve (hG : G.Offers S q.implicit into) (hG' : G'.Offers S q.implicit into)
    (h : (G.castsTo S q.destination).Perm (G'.castsTo S q.destination)) :
    Outcome.Matches (Chain.Like S) (q.resolve S G) (q.resolve S G') := by
  unfold resolve
  split
  · exact .ok ⟨rfl, rfl, .nil⟩
  · refine .bind (matches_casts hG hG' h) fun casts casts' _ _ hcasts => ?_
    dsimp only
    rw [totalWeight_eq hcasts]
    split
    · exact .error _
    · refine .bind (matches_steps hcasts q q.range) fun steps steps' _ _ hsteps => ?_
      refine .ok ⟨rfl, ?_, hsteps⟩
      show (steps.getLast?.map (·.range)).getD q.range = (steps'.getLast?.map (·.range)).getD q.range
      rw [← List.getLast?_map, ← List.getLast?_map, ChainStep.map_range_eq hsteps]

end CastQuery

/-! ### Types that are told apart -/

/-- Decays of a type that start at types which are the same are one. -/
theorem Cast.eq_of_mem_decays {t : Ty} {c c' : Cast} (ht : t.flags.isEmpty = true)
    (hc : c ∈ decays t) (hc' : c' ∈ decays t) (h : c.source.same S c'.source = true) : c = c' := by
  have hflags := Ty.flags_eq_of_same h
  rw [Flags.isEmpty_iff] at ht
  simp only [decays, List.mem_cons, List.not_mem_nil, or_false] at hc hc'
  rcases hc with rfl | rfl | rfl <;> rcases hc' with rfl | rfl | rfl <;>
    first
      | rfl
      | simp [Ty.addFlags, ht, Flags.union, Flags.none, Flags.ref, Flags.refMut, Flags.mutOnly]
          at hflags

theorem Cast.eq_of_map_toClass_eq {casts casts' : List Cast}
    (h : casts.map (toClass S) = casts'.map (toClass S))
    (heq : ∀ c ∈ casts, ∀ c' ∈ casts', c.Like S c' → c = c') : casts = casts' := by
  induction casts generalizing casts' with
  | nil =>
    rw [List.map_nil, eq_comm, List.map_eq_nil_iff] at h
    exact h.symm
  | cons c rest ih =>
    rw [List.map_cons, eq_comm, List.map_eq_cons_iff] at h
    obtain ⟨c', rest', rfl, hc, hrest⟩ := h
    rw [heq c (List.mem_cons_self ..) c' (List.mem_cons_self ..) (toClass_eq.1 hc.symm)]
    rw [ih hrest.symm fun e he e' he' =>
      heq e (List.mem_cons_of_mem _ he) e' (List.mem_cons_of_mem _ he')]

/-- The types between which the conversions lead. -/
def Cast.types (casts : List Cast) : List Ty := casts.flatMap fun c => [c.source, c.destination]

namespace LookupContext.Places

variable {C : LookupContext} {placed : List (List Cast)} {q : CastQuery} {c : Cast}
  {casts : List Cast} {implicit : Bool}

theorem offers (h : C.Places S placed) (implicit : Bool) :
    C.castGraph.Offers S implicit (Cast.into S placed.flatten implicit) := by
  refine ⟨fun t => ?_, fun y c hc => Cast.destination_of_mem_into hc⟩
  rw [h.castsTo_eq, Cast.into_toClass]
  rfl

/-- Every conversion of a chain ends at the destination or at a type of those that are
registered. -/
theorem destination_mem (h : C.Places S placed) (hcasts : q.casts S C.castGraph = .ok casts)
    (hc : c ∈ casts) : c.destination ∈ q.destination :: Cast.types placed.flatten := by
  have hmem : ∀ {t : Ty} {c : Cast}, c ∈ C.castGraph.castsTo S t →
      c ∈ placed.flatten ∨ t.flags.isEmpty = true ∧ c ∈ Cast.decays t := by
    intro t c hc
    rw [h.castsTo_eq] at hc
    rcases List.mem_append.1 hc with hc | hc
    · exact .inl (List.mem_filter.1 hc).1
    · split at hc
      · rename_i ht
        exact .inr ⟨ht, hc⟩
      · cases hc
  obtain ⟨t, -, hleads⟩ := CastGraph.leads_of_casts
    (P := (· ∈ Cast.candidates placed.flatten q.destination))
    (fun t ht c hc _ => Cast.source_mem_candidates ht (hmem hc)) (Cast.mem_candidates_self _ _) hcasts
  obtain ⟨v, hv, hcv⟩ := hleads.exists_of_mem (Cast.mem_candidates_self _ _) c hc
  rcases hmem hcv with hc | ⟨hplain, hc⟩
  · exact List.mem_cons_of_mem _ (List.mem_flatMap.2 ⟨c, hc, by simp⟩)
  · rw [Cast.destination_of_mem_decays hc]
    rcases List.mem_cons.1 (Cast.mem_of_mem_candidates hv hplain) with hv | hv
    · exact List.mem_cons.2 (.inl hv)
    · obtain ⟨e, he, rfl⟩ := List.mem_map.1 hv
      exact List.mem_cons_of_mem _ (List.mem_flatMap.2 ⟨e, he, by simp⟩)

end LookupContext.Places

namespace CastQuery

variable {q : CastQuery} {C C' : LookupContext} {placed placed' : List (List Cast)}

/-- Where types that are the same are one, a decay has only one form. -/
theorem casts_eq_of_apart (h : C.Places S placed) (h' : C'.Places S placed')
    (hperm : placed.flatten.Perm placed'.flatten)
    (hapart : ∀ t ∈ q.destination :: Cast.types placed.flatten,
      ∀ u ∈ q.destination :: Cast.types placed.flatten, t.same S u = true → t = u) :
    q.casts S C.castGraph = q.casts S C'.castGraph := by
  have hinto := Cast.into_perm (S := S) hperm q.implicit
  have hmatches := matches_casts (q := q) (h.offers q.implicit) (hinto ▸ h'.offers q.implicit)
    (by rw [h.castsTo_eq, h'.castsTo_eq]; exact (hperm.filter _).append_right _)
  have htypes : ∀ t ∈ q.destination :: Cast.types placed'.flatten,
      t ∈ q.destination :: Cast.types placed.flatten := by
    intro t ht
    rwa [List.mem_cons, Cast.types, (hperm.flatMap_right _).mem_iff, ← Cast.types, ← List.mem_cons]
  refine hmatches.eq fun casts casts' hcasts hcasts' hclasses => ?_
  refine Cast.eq_of_map_toClass_eq hclasses fun c hc c' hc' hlike => ?_
  -- conversions of one class are equal, or decays with the same ends
  rcases hlike with rfl | ⟨hdecay, hdecay', hsource, hdestination⟩
  · rfl
  · have heq := hapart _ (h.destination_mem hcasts hc) _
      (htypes _ (h'.destination_mem hcasts' hc')) hdestination
    have hmem := hdecay'.2
    rw [← heq] at hmem
    exact Cast.eq_of_mem_decays hdecay.1 hdecay.2 hmem hsource

/-- **Where and when conversions are registered does not matter.**  If the same conversions are
registered in the open scopes of two contexts, in any order and spread over the scopes in any way,
every query has the same answer in both: the same error, or chains of the same weight with the same
ranges and the same conversions, up to decays between types that are the same.  If moreover types
that are the same are one, the answers are identical. -/
theorem resolve_of_placed_perm (h : C.Places S placed) (h' : C'.Places S placed')
    (hperm : placed.flatten.Perm placed'.flatten) (q : CastQuery) :
    Outcome.Matches (Chain.Like S) (q.resolve S C.castGraph) (q.resolve S C'.castGraph) ∧
    ((∀ t ∈ q.destination :: Cast.types placed.flatten,
        ∀ u ∈ q.destination :: Cast.types placed.flatten, t.same S u = true → t = u) →
      q.resolve S C.castGraph = q.resolve S C'.castGraph) := by
  constructor
  · have hinto := Cast.into_perm (S := S) hperm q.implicit
    refine matches_resolve (h.offers q.implicit) (hinto ▸ h'.offers q.implicit) ?_
    rw [h.castsTo_eq, h'.castsTo_eq]
    exact (hperm.filter _).append_right _
  · intro hapart
    unfold resolve
    rw [casts_eq_of_apart h h' hperm hapart]

/-- An unsigned integer of that name and size. -/
def word (name : String) (size : Nat) : Ty := .ofScalar ⟨name, size, size, .unsignedInt, 0, 1⟩

/-- A conversion that can always be used. -/
def link (source destination : Ty) (weight : Weight) : Cast :=
  ⟨source, destination, weight, .always, .noOp, .keep⟩

/-- Two ways lead from `a` to `d`, over `b` at the weight 2 and over `c` at the weight 3. -/
def diamond : List Cast :=
  [link (word "a" 1) (word "b" 2) 1, link (word "b" 2) (word "d" 8) 1,
    link (word "a" 1) (word "c" 4) 1, link (word "c" 4) (word "d" 8) 2]

/-- The conversions of the diamond in one scope, and the other way round in two. -/
theorem resolve_of_placed_perm_diamond :
    let q : CastQuery := ⟨word "a" 1, none, word "d" 8, true, maxWeight⟩
    let together := LookupContext.arrange .empty [diamond]
    let apart := LookupContext.arrange .empty [diamond.reverse.take 3, diamond.reverse.drop 3]
    q.resolve .empty together.castGraph = q.resolve .empty apart.castGraph ∧
      (q.resolve .empty apart.castGraph).toOption.map (·.weight) = some 2 := by
  intro q together apart
  have hperm : (([diamond] ++ [[]]).flatten : List Cast).Perm
      ([diamond.reverse.take 3, diamond.reverse.drop 3] ++ [[]]).flatten :=
    (List.reverse_perm diamond).symm
  have happly := resolve_of_placed_perm (S := .empty) (LookupContext.places_arrange _)
    (LookupContext.places_arrange _) hperm q
  refine ⟨happly.2 ?_, by decide +kernel⟩
  -- the types have different sizes
  have htypes : ∀ t ∈ q.destination :: Cast.types ([diamond] ++ [[]]).flatten,
      t = word "a" 1 ∨ t = word "b" 2 ∨ t = word "c" 4 ∨ t = word "d" 8 := by
    simp [q, Cast.types, diamond, link]
  intro t ht u hu hsame
  rcases htypes t ht with rfl | rfl | rfl | rfl <;>
    rcases htypes u hu with rfl | rfl | rfl | rfl <;>
    first
      | rfl
      | exact absurd hsame (by decide)

/-- **The type of which a decay is made depends on the order**: of two types that are the same, a
search keeps the one that it meets first. -/
theorem exists_resolve_ne_of_swapped :
    ∃ (casts casts' : List Cast) (q : CastQuery), casts.Perm casts' ∧
      q.resolve .empty (LookupContext.arrange .empty [casts]).castGraph ≠
        q.resolve .empty (LookupContext.arrange .empty [casts']).castGraph := by
  refine ⟨[link (word "Near" 1) (word "Far" 4) 1, link (word "Byte" 1) (word "Far" 4) 2],
    [link (word "Byte" 1) (word "Far" 4) 2, link (word "Near" 1) (word "Far" 4) 1],
    ⟨(word "Near" 1).addFlags .ref, none, word "Far" 4, true, maxWeight⟩, .swap _ _ _, ?_⟩
  intro h
  have hfirst := congrArg (fun o => o.toOption.map fun chain : Chain =>
    chain.steps.map fun step => step.cast.source.text .empty) h
  revert hfirst
  decide +kernel

end CastQuery

end RangeTyping
