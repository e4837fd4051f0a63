import Mathlib
import RangeTyping.Proofs.Budget.Cost
import RangeTyping.Proofs.Cast.WalkCount

/-!
# What a query takes

A query between different types takes the only cheapest direct conversion, and where there is no direct
one, the only cheapest walk.  `CastQuery.Chooses` says so without a search: the least weight is that of
all walks from the source to the destination (`CastQuery.IsLeastWeight`), of which there may be
infinitely many, and the number of cheapest ones may be infinite too.

* `CastQuery.searchedChain_cases`: the search finds nothing if every walk is as heavy as the greatest
  weight, and otherwise takes the only cheapest walk or tells how many there are.
* `CastQuery.casts_cases`: a query that can be answered at less than the greatest weight, or directly, takes
  what it should.
* `CastQuery.Chooses.unique`: what a query takes is determined, up to types that are the same.
* `CastQuery.resolve_matches_chosen`: a query is answered by carrying the range through what it takes.

Weights are sums that do not stop at a greatest weight.  The weight of all conversions together has to
be below it, and then so is the least weight of a walk (`CastQuery.IsLeastWeight.le_totalWeight`).
-/

namespace RangeTyping

variable {S : StructStore} {G : CastGraph} {q : CastQuery}

/-- Conversions that are registered are found where they end. -/
theorem LookupContext.Places.keyed {C : LookupContext} {placed : List (List Cast)}
    (h : C.Places S placed) : C.castGraph.Keyed S := by
  intro t c hc
  rw [h.castsTo_eq] at hc
  rcases List.mem_append.1 hc with hc | hc
  · exact (List.mem_filter.1 hc).2
  · split at hc
    · rw [Cast.destination_of_mem_decays hc]
      exact Ty.toClass_eq.1 rfl
    · cases hc

namespace CastQuery

variable {walk : List (Nat × Cast)} {m : Nat} {casts casts' : List Cast}
  {choice choice' : Outcome CastError (List Cast)}

/-! ### What there is to take -/

/-- The usable conversions that lead from the source to the destination. -/
def direct (S : StructStore) (G : CastGraph) (q : CastQuery) : List Cast :=
  (q.usableInto S G q.destination).filter (·.source.same S q.source)

/-- Those of them that weigh least. -/
def leastDirect (S : StructStore) (G : CastGraph) (q : CastQuery) : List Cast :=
  (q.direct S G).filter fun c => ∀ c' ∈ q.direct S G, c.weight ≤ c'.weight

/-- The walk leads from the source to the destination. -/
structure Connects (S : StructStore) (G : CastGraph) (q : CastQuery) (walk : List (Nat × Cast)) :
    Prop where
  isWalk : q.IsWalk S G walk
  start : (q.startOf walk).toClass S = q.source.toClass S

/-- The least weight of a walk from the source to the destination. -/
def IsLeastWeight (S : StructStore) (G : CastGraph) (q : CastQuery) (m : Nat) : Prop :=
  IsLeast {w | ∃ walk, q.Connects S G walk ∧ walkWeight walk = w} m

/-- The walks of weight `m` that come to the source only at their start and to the destination only at
their end. -/
def walksOfWeight (S : StructStore) (G : CastGraph) (q : CastQuery) (m : Nat) :
    Set (List (Nat × Cast)) :=
  {walk | q.Connects S G walk ∧ q.Steady S walk ∧ walkWeight walk = m}

/-- **What a query takes where no conversion is direct.** -/
inductive Searches (S : StructStore) (G : CastGraph) (q : CastQuery) :
    Outcome CastError (List Cast) → Prop where
  | noWalk (h : ∀ walk, ¬ q.Connects S G walk) :
    Searches S G q (Outcome.fail (.noPath q.source q.destination))
  | severalWalks {m n : Nat} (hm : q.IsLeastWeight S G m)
      (h : 1 < (q.walksOfWeight S G m).encard)
      (hn : (n : ℕ∞) = min (q.walksOfWeight S G m).encard maxWeight) :
    Searches S G q (Outcome.fail (.ambiguous q.source q.destination n))
  | onlyWalk {m : Nat} {walk : List (Nat × Cast)} {casts : List Cast} (hm : q.IsLeastWeight S G m)
      (h : q.walksOfWeight S G m = {walk})
      (hcasts : casts.map (Cast.toClass S) = walk.map (·.2.toClass S)) :
    Searches S G q (.ok casts)

/-- **What a query takes.** -/
inductive Chooses (S : StructStore) (G : CastGraph) (q : CastQuery) :
    Outcome CastError (List Cast) → Prop where
  | onlyDirect {c : Cast} (h : q.leastDirect S G = [c]) : Chooses S G q (.ok [c])
  | severalDirect (h : 1 < (q.leastDirect S G).length) :
    Chooses S G q (Outcome.fail (.ambiguous q.source q.destination
      (min (q.leastDirect S G).length maxWeight)))
  | searched {choice : Outcome CastError (List Cast)} (h : q.direct S G = [])
      (hsearch : q.Searches S G choice) : Chooses S G q choice

/-- The query can be answered directly, or at less than the greatest weight. -/
def Light (S : StructStore) (G : CastGraph) (q : CastQuery) : Prop :=
  q.direct S G ≠ [] ∨ ∃ walk, q.Connects S G walk ∧ walkWeight walk < maxWeight

/-- What becomes of the conversions that were taken. -/
def deliver (q : CastQuery) (casts : List Cast) : Outcome CastError Chain :=
  let weight := (casts.map (·.weight)).sum
  if q.limit < weight then
    Outcome.fail (.tooExpensive weight q.limit)
  else do
    let steps ← q.steps q.range casts
    return ⟨steps, weight, (steps.getLast?.map (·.range)).getD q.range⟩

/-! ### Direct conversions -/

/-- A conversion weighs no more than all conversions together. -/
theorem weight_le_totalWeight {t : Ty} {c : Cast} (hc : c ∈ q.usableInto S G t) :
    c.weight ≤ G.totalWeight := by
  have hmem : c.weight ∈ (G.arrivals S q.implicit (t.toClass S)).map (·.weight) := by
    rw [CastGraph.arrivals_toClass, List.map_map]
    exact List.mem_map_of_mem hc
  have hsum := G.sum_arrivals_le q.implicit {t.toClass S}
  rw [Finset.sum_singleton] at hsum
  exact (List.single_le_sum (fun _ _ => Nat.zero_le _) _ hmem).trans hsum

theorem cheapestDirect_eq : q.cheapestDirect S G = q.leastDirect S G := by
  have hdirect : ((G.castsTo S q.destination).filter fun c =>
      c.usable q.implicit && c.source.same S q.source) = q.direct S G := by
    rw [direct, usableInto, List.filter_filter]
    exact List.filter_congr fun c _ => Bool.and_comm ..
  rw [cheapestDirect, hdirect, leastDirect]
  exact List.filter_congr fun c _ => by simp [List.all_eq]

/-- Where there are direct conversions, some weigh least. -/
theorem leastDirect_eq_nil : q.leastDirect S G = [] ↔ q.direct S G = [] := by
  constructor
  · intro h
    by_contra hne
    obtain ⟨c, hc, hleast⟩ := Set.exists_min_image {c | c ∈ q.direct S G} (·.weight)
      (q.direct S G).finite_toSet (List.exists_mem_of_ne_nil _ hne)
    have hmem : c ∈ q.leastDirect S G := List.mem_filter.2 ⟨hc, decide_eq_true hleast⟩
    rw [h] at hmem
    cases hmem
  · intro h
    rw [leastDirect, h]
    rfl

/-! ### The least weight of a walk -/

theorem Connects.exists_reaches (h : q.Connects S G walk) :
    ∃ v ≤ walkWeight walk, Reaches (G.offered S q.implicit) (q.source.toClass S)
      (q.destination.toClass S) (q.source.toClass S) v := by
  obtain ⟨v, hv, hreaches⟩ := exists_reaches_of_isWalk h.isWalk (q.source.toClass S)
  rw [h.start, or_self] at hreaches
  exact ⟨v, hv, hreaches⟩

/-- Where there is a walk, there is one without detours, no heavier than all conversions together. -/
theorem Connects.exists_le_totalWeight (hne : q.source.toClass S ≠ q.destination.toClass S)
    (htotal : G.totalWeight < maxWeight) (h : q.Connects S G walk) :
    ∃ walk', q.Connects S G walk' ∧ walkWeight walk' ≤ G.totalWeight := by
  obtain ⟨w, -, hreaches⟩ := h.exists_reaches
  obtain ⟨v, hv, hreaches⟩ := CastGraph.exists_reaches_le hreaches
  obtain ⟨walk', hwalk', hstart, -, hle⟩ :=
    exists_steady_of_reaches hne hreaches (hv.trans_lt htotal)
  exact ⟨walk', ⟨hwalk', hstart⟩, hle.trans hv⟩

/-- The least weight of a walk is that of one without detours. -/
theorem IsLeastWeight.le_totalWeight (hne : q.source.toClass S ≠ q.destination.toClass S)
    (htotal : G.totalWeight < maxWeight) (hm : q.IsLeastWeight S G m) : m ≤ G.totalWeight := by
  obtain ⟨walk, hwalk, -⟩ := hm.1
  obtain ⟨walk', hwalk', hle⟩ := hwalk.exists_le_totalWeight hne htotal
  exact (hm.2 ⟨walk', hwalk', rfl⟩).trans hle

end CastQuery

namespace Search

variable {s : Search} {j : Nat} {m : Weight}

/-- A search that does not meet the source shows that every walk is as heavy as the greatest weight. -/
theorem Solved.le_walkWeight {walk : List (Nat × Cast)}
    (h : s.Solved (G.offered S q.implicit) (q.source.toClass S) (q.destination.toClass S))
    (horigin : s.origin = none) (hwalk : q.Connects S G walk) :
    maxWeight ≤ CastQuery.walkWeight walk := by
  obtain ⟨v, hv, hreaches⟩ := hwalk.exists_reaches
  exact (h.le_of_unmet horigin hreaches).trans hv

namespace Finds

theorem distanceOf_source (h : s.Finds S G q j m) : s.distanceOf S (q.source.toClass S) = m := by
  obtain ⟨-, ⟨n, hn, -, hclass, hdist⟩, -⟩ := h.solved.surveys.met j m h.origin
  rw [← hclass, h.solved.distanceOf_toClass (List.mem_of_getElem? hn), hdist]

/-- The walks that the search counts. -/
theorem walksOfWeight_eq (h : s.Finds S G q j m) :
    q.walksOfWeight S G m = cheapestFrom S G q s (q.source.toClass S) := by
  ext walk
  rw [cheapestFrom, h.distanceOf_source]
  constructor
  · rintro ⟨⟨hwalk, hstart⟩, hsteady, hweight⟩
    exact ⟨hwalk, hstart, hsteady, hweight⟩
  · rintro ⟨hwalk, hstart, hsteady, hweight⟩
    exact ⟨⟨hwalk, hstart⟩, hsteady, hweight⟩

/-- **The distance of the source is the least weight of a walk.** -/
theorem isLeastWeight (h : s.Finds S G q j m) : q.IsLeastWeight S G m := by
  constructor
  · obtain ⟨walk, hwalk⟩ := h.nonempty_cheapestFrom h.near_source
    rw [← h.walksOfWeight_eq] at hwalk
    exact ⟨walk, hwalk.1, hwalk.2.2⟩
  · rintro _ ⟨walk, hwalk, rfl⟩
    obtain ⟨v, hv, hreaches⟩ := hwalk.exists_reaches
    exact ((h.solved.origin_least h.origin).2 v hreaches).trans hv

theorem chainCount_eq_encard (h : s.Finds S G q j m) :
    (s.chainCount j : ℕ∞) = min (q.walksOfWeight S G m).encard maxWeight := by
  rw [h.chainCount_eq, h.walksOfWeight_eq]

/-- A count of at most one is exact. -/
theorem exists_eq_singleton (h : s.Finds S G q j m) (hone : s.chainCount j ≤ 1) :
    ∃ walk, q.walksOfWeight S G m = {walk} := by
  obtain ⟨walk, hwalk⟩ := h.nonempty_cheapestFrom h.near_source
  rw [← h.walksOfWeight_eq] at hwalk
  have hle : (q.walksOfWeight S G m).encard ≤ 1 := by
    by_contra hlt
    rw [not_le] at hlt
    have htwo : (1 : ℕ∞) < s.chainCount j := by
      rw [h.chainCount_eq_encard]
      exact lt_min hlt (by exact_mod_cast (by decide : 1 < maxWeight))
    exact absurd hone (by exact_mod_cast htwo.not_ge)
  refine ⟨walk, Set.eq_singleton_iff_unique_mem.2 ⟨hwalk, fun walk' hwalk' => ?_⟩⟩
  exact Set.encard_le_one_iff.1 hle walk' walk hwalk' hwalk

end Finds

end Search

namespace CastQuery

variable {walk : List (Nat × Cast)} {m : Nat} {casts casts' : List Cast}
  {choice choice' : Outcome CastError (List Cast)}

/-! ### What is taken -/

/-- **The search takes the only cheapest walk**, or tells how many there are.  It finds nothing exactly if
no walk is lighter than the greatest weight, at which distances stop. -/
theorem searchedChain_cases (hG : G.Keyed S) (hne : q.source.toClass S ≠ q.destination.toClass S) :
    (q.searchedChain S G = Outcome.fail (.noPath q.source q.destination) ∧
      ∀ walk, q.Connects S G walk → maxWeight ≤ walkWeight walk) ∨
    ∃ m < maxWeight, q.IsLeastWeight S G m ∧ q.Searches S G (q.searchedChain S G) := by
  have hsolved := Search.solved_explore (hG.offers q.implicit) q.source q.destination
  unfold searchedChain
  dsimp only
  generalize Search.explore S G q.source q.destination q.implicit = s at *
  cases horigin : s.origin with
  | none => exact .inl ⟨rfl, fun walk hwalk => hsolved.le_walkWeight horigin hwalk⟩
  | some p =>
    obtain ⟨j, m⟩ := p
    have hfinds : s.Finds S G q j m := ⟨hne, hsolved, horigin⟩
    obtain ⟨hm, ⟨n, hn, -, hclass, -⟩, -⟩ := hsolved.surveys.met j m horigin
    refine .inr ⟨m, hm, hfinds.isLeastWeight, ?_⟩
    dsimp only
    split
    · rename_i hseveral
      refine .severalWalks hfinds.isLeastWeight ?_ hfinds.chainCount_eq_encard
      calc (1 : ℕ∞) < s.chainCount j := by exact_mod_cast hseveral
        _ ≤ _ := hfinds.chainCount_eq_encard.trans_le (min_le_left _ _)
    · rename_i hone
      rw [not_lt] at hone
      obtain ⟨casts, hchain, htrail⟩ := hsolved.exists_chain hn hone
      rw [hclass] at htrail
      rw [hchain]
      -- the only cheapest walk is the chain that was followed
      obtain ⟨walk, hwalk⟩ := hfinds.exists_eq_singleton hone
      have hmem : walk ∈ Search.cheapestFrom S G q s (q.source.toClass S) := by
        rw [← hfinds.walksOfWeight_eq, hwalk]
        exact Set.mem_singleton walk
      have hcasts := hfinds.map_toClass_of_trail hfinds.near_source htrail hmem
      exact .onlyWalk hfinds.isLeastWeight hwalk hcasts.symm

/-- **What is taken, at any weights**: nothing if the walks are all too heavy for the search, and what a
query should take otherwise. -/
theorem casts_cases (hG : G.Keyed S) (hne : q.source.toClass S ≠ q.destination.toClass S) :
    (¬ q.Light S G ∧ q.casts S G = Outcome.fail (.noPath q.source q.destination)) ∨
      (q.Light S G ∧ q.Chooses S G (q.casts S G)) := by
  unfold casts
  rw [cheapestDirect_eq]
  rcases hdirect : q.leastDirect S G with _ | ⟨c, _ | ⟨c', rest⟩⟩
  · -- without direct conversions the search decides
    have hnone := leastDirect_eq_nil.1 hdirect
    rcases searchedChain_cases hG hne with ⟨hnoPath, hheavy⟩ | ⟨m, hm, hleast, hsearches⟩
    · refine .inl ⟨?_, hnoPath⟩
      rintro (hlight | ⟨walk, hwalk, hlt⟩)
      · exact hlight hnone
      · exact absurd hlt (hheavy walk hwalk).not_gt
    · obtain ⟨walk, hwalk, rfl⟩ := hleast.1
      exact .inr ⟨.inr ⟨walk, hwalk, hm⟩, .searched hnone hsearches⟩
  · refine .inr ⟨.inl fun hnone => ?_, .onlyDirect hdirect⟩
    simp [leastDirect_eq_nil.2 hnone] at hdirect
  · refine .inr ⟨.inl fun hnone => ?_, ?_⟩
    · simp [leastDirect_eq_nil.2 hnone] at hdirect
    · dsimp only
      rw [← hdirect]
      refine .severalDirect ?_
      rw [hdirect]
      exact Nat.succ_lt_succ (Nat.succ_pos _)

/-- **The conversions that are applied are those that a query takes.** -/
theorem chooses_casts (hG : G.Keyed S) (htotal : G.totalWeight < maxWeight)
    (hne : q.source.toClass S ≠ q.destination.toClass S) : q.Chooses S G (q.casts S G) := by
  rcases casts_cases hG hne with ⟨hheavy, hnoPath⟩ | ⟨-, hchooses⟩
  · rw [hnoPath]
    refine .searched (not_not.1 fun hdirect => hheavy (.inl hdirect)) (.noWalk fun walk hwalk => ?_)
    obtain ⟨walk', hwalk', hle⟩ := hwalk.exists_le_totalWeight hne htotal
    exact hheavy (.inr ⟨walk', hwalk', hle.trans_lt htotal⟩)
  · exact hchooses

theorem Searches.unique (h : q.Searches S G choice) (h' : q.Searches S G choice') :
    Outcome.Matches (fun cs cs' => cs.map (Cast.toClass S) = cs'.map (Cast.toClass S))
      choice choice' := by
  cases h with
  | noWalk hnone =>
    cases h' with
    | noWalk => exact .error _
    | severalWalks hm' =>
      obtain ⟨walk, hwalk, -⟩ := hm'.1
      exact absurd hwalk (hnone walk)
    | onlyWalk hm' =>
      obtain ⟨walk, hwalk, -⟩ := hm'.1
      exact absurd hwalk (hnone walk)
  | @severalWalks m n hm hseveral hn =>
    cases h' with
    | noWalk hnone =>
      obtain ⟨walk, hwalk, -⟩ := hm.1
      exact absurd hwalk (hnone walk)
    | @severalWalks m' n' hm' _ hn' =>
      obtain rfl : m = m' := hm.unique hm'
      obtain rfl : n = n' := Nat.cast_injective (hn.trans hn'.symm)
      exact .error _
    | @onlyWalk m' walk casts hm' hwalk =>
      obtain rfl : m = m' := hm.unique hm'
      rw [hwalk, Set.encard_singleton] at hseveral
      exact absurd hseveral (lt_irrefl 1)
  | @onlyWalk m walk casts hm hwalk hcasts =>
    cases h' with
    | noWalk hnone =>
      obtain ⟨walk, hwalk, -⟩ := hm.1
      exact absurd hwalk (hnone walk)
    | @severalWalks m' n' hm' hseveral =>
      obtain rfl : m = m' := hm.unique hm'
      rw [hwalk, Set.encard_singleton] at hseveral
      exact absurd hseveral (lt_irrefl 1)
    | @onlyWalk m' walk' casts' hm' hwalk' hcasts' =>
      obtain rfl : m = m' := hm.unique hm'
      obtain rfl : walk = walk' := Set.singleton_injective (hwalk.symm.trans hwalk')
      exact .ok (hcasts.trans hcasts'.symm)

/-- **What a query takes is determined**, up to types that are the same. -/
theorem Chooses.unique (h : q.Chooses S G choice) (h' : q.Chooses S G choice') :
    Outcome.Matches (fun cs cs' => cs.map (Cast.toClass S) = cs'.map (Cast.toClass S))
      choice choice' := by
  cases h with
  | onlyDirect hc =>
    cases h' with
    | onlyDirect hc' =>
      cases hc.symm.trans hc'
      exact .ok rfl
    | severalDirect hseveral' => simp [hc] at hseveral'
    | searched hdirect' => simp [leastDirect_eq_nil.2 hdirect'] at hc
  | severalDirect hseveral =>
    cases h' with
    | onlyDirect hc' => simp [hc'] at hseveral
    | severalDirect => exact .error _
    | searched hdirect' => simp [leastDirect_eq_nil.2 hdirect'] at hseveral
  | searched hdirect hsearch =>
    cases h' with
    | onlyDirect hc' => simp [leastDirect_eq_nil.2 hdirect] at hc'
    | severalDirect hseveral' => simp [leastDirect_eq_nil.2 hdirect] at hseveral'
    | searched _ hsearch' => exact hsearch.unique hsearch'

/-! ### What is returned -/

theorem sum_weight_eq (h : casts.map (Cast.toClass S) = casts'.map (Cast.toClass S)) :
    (casts.map (·.weight)).sum = (casts'.map (·.weight)).sum := by
  have hweight : ∀ cs : List Cast, cs.map (·.weight) = (cs.map (Cast.toClass S)).map (·.weight) := by
    intro cs
    rw [List.map_map]
    rfl
  rw [hweight casts, hweight casts', h]

/-- Conversions that are alike are delivered alike. -/
theorem matches_deliver (h : casts.map (Cast.toClass S) = casts'.map (Cast.toClass S)) :
    Outcome.Matches (Chain.Like S) (q.deliver casts) (q.deliver casts') := by
  unfold deliver
  dsimp only
  rw [sum_weight_eq h]
  split
  · exact .error _
  · refine .bind (matches_steps h q q.range) fun steps steps' _ _ hsteps => ?_
    refine .ok ⟨rfl, ?_, hsteps⟩
    show (steps.getLast?.map (·.range)).getD q.range = (steps'.getLast?.map (·.range)).getD q.range
    rw [← List.getLast?_map, ← List.getLast?_map, ChainStep.map_range_eq hsteps]

/-- A search that takes something takes a walk of least weight. -/
theorem Searches.isLeastWeight (h : q.Searches S G (.ok casts)) :
    q.IsLeastWeight S G (casts.map (·.weight)).sum := by
  cases h with
  | @onlyWalk m walk _ hm hwalk hcasts =>
    have hmem : walk ∈ q.walksOfWeight S G m := by
      rw [hwalk]
      exact Set.mem_singleton walk
    have hlike : casts.map (Cast.toClass S) = (walk.map (·.2)).map (Cast.toClass S) := by
      rw [hcasts, List.map_map]
      rfl
    have hweight : ((walk.map (·.2)).map (·.weight)).sum = m := by
      rw [List.map_map]
      exact hmem.2.2
    rwa [sum_weight_eq hlike, hweight]

/-- What is taken is lighter than the greatest weight. -/
theorem Chooses.sum_lt (hne : q.source.toClass S ≠ q.destination.toClass S)
    (htotal : G.totalWeight < maxWeight) (h : q.Chooses S G (.ok casts)) :
    (casts.map (·.weight)).sum < maxWeight := by
  cases h with
  | @onlyDirect c hc =>
    have hmem : c ∈ q.leastDirect S G := by
      rw [hc]
      exact List.mem_singleton_self c
    have husable := (List.mem_filter.1 (List.mem_filter.1 hmem).1).1
    rw [List.map_singleton, List.sum_singleton]
    exact (weight_le_totalWeight husable).trans_lt htotal
  | searched _ hsearch => exact (hsearch.isLeastWeight.le_totalWeight hne htotal).trans_lt htotal

theorem toClass_ne (hne : q.source.same S q.destination = false) :
    q.source.toClass S ≠ q.destination.toClass S := by
  rw [Ne, Ty.toClass_eq, hne]
  exact Bool.false_ne_true

/-- What is returned for the conversions that were taken, whatever they weigh. -/
def charge (q : CastQuery) (casts : List Cast) : Outcome CastError Chain :=
  if q.limit < totalWeight casts then
    Outcome.fail (.tooExpensive (totalWeight casts) q.limit)
  else do
    let steps ← q.steps q.range casts
    return ⟨steps, totalWeight casts, (steps.getLast?.map (·.range)).getD q.range⟩

theorem resolve_eq_charge (hne : q.source.same S q.destination = false) :
    q.resolve S G = q.casts S G >>= q.charge := by
  unfold resolve
  rw [hne]
  cases q.casts S G with
  | error e => rfl
  | ok casts =>
    show (do
      if q.limit < totalWeight casts then
        Outcome.fail (.tooExpensive (totalWeight casts) q.limit)
      let steps ← q.steps q.range casts
      return ⟨steps, totalWeight casts, (steps.getLast?.map (·.range)).getD q.range⟩) = q.charge casts
    unfold charge
    split
    · rfl
    · rfl

theorem resolve_eq_deliver (hG : G.Keyed S) (htotal : G.totalWeight < maxWeight)
    (hne : q.source.same S q.destination = false) :
    q.resolve S G = q.casts S G >>= q.deliver := by
  have hclass := toClass_ne hne
  have hchooses := chooses_casts hG htotal hclass
  rw [resolve_eq_charge hne]
  cases hcasts : q.casts S G with
  | error e => rfl
  | ok casts =>
    rw [hcasts] at hchooses
    have hweight : totalWeight casts = (casts.map (·.weight)).sum := by
      rw [totalWeight_eq_min, Nat.min_eq_left (hchooses.sum_lt hclass htotal).le]
    show q.charge casts = q.deliver casts
    rw [charge, hweight]
    rfl

/-- A chain that is delivered has the conversions that were taken, in their order. -/
theorem of_deliver {chain : Chain} (h : q.deliver casts = .ok chain) :
    chain.steps.map (·.cast) = casts ∧ chain.weight = (casts.map (·.weight)).sum ∧
      chain.weight ≤ q.limit := by
  unfold deliver at h
  dsimp only at h
  split at h
  · cases h
  · rename_i hle
    obtain ⟨steps, hsteps, h⟩ := Outcome.bind_ok h
    cases h
    exact ⟨casts_of_steps hsteps, rfl, not_lt.1 hle⟩

/-- **A query between different types** is answered by what it takes: the only cheapest direct
conversion, or else the only cheapest walk.  A chain that is returned has these conversions, from the
source to the destination. -/
theorem resolve_matches_chosen (hG : G.Keyed S) (htotal : G.totalWeight < maxWeight)
    (hne : q.source.same S q.destination = false) :
    (q.Chooses S G (q.casts S G) ∧ q.resolve S G = q.casts S G >>= q.deliver) ∧
      (∀ choice, q.Chooses S G choice →
        Outcome.Matches (Chain.Like S) (q.resolve S G) (choice >>= q.deliver)) ∧
      ∀ chain, q.resolve S G = .ok chain → ∃ casts, q.Chooses S G (.ok casts) ∧
        chain.steps.map (·.cast) = casts ∧ chain.weight = (casts.map (·.weight)).sum ∧
          chain.weight ≤ q.limit := by
  have hclass := toClass_ne hne
  have hchooses := chooses_casts hG htotal hclass
  have hresolve := resolve_eq_deliver hG htotal hne
  refine ⟨⟨hchooses, hresolve⟩, fun choice hchoice => ?_, fun chain hchain => ?_⟩
  · rw [hresolve]
    exact (hchooses.unique hchoice).bind fun _ _ _ _ hcasts => matches_deliver hcasts
  · rw [hresolve] at hchain
    obtain ⟨casts, hcasts, hchain⟩ := Outcome.bind_ok hchain
    exact ⟨casts, hcasts ▸ hchooses, of_deliver hchain⟩

/-- From one end of the diamond to the other. -/
def crossing : CastQuery := ⟨word "a" 1, none, word "d" 8, true, maxWeight⟩

/-- The diamond with a way back and forth between `b` and `c` that costs nothing. -/
def roundabout : List Cast :=
  link (word "b" 2) (word "c" 4) 0 :: link (word "c" 4) (word "b" 2) 0 :: diamond

/-- In the diamond, a walk of weight 2 is taken.  With the roundabout, there are more cheapest walks than
can be counted. -/
theorem resolve_matches_chosen_roundabout :
    (∃ chain, crossing.resolve .empty (LookupContext.arrange .empty [diamond]).castGraph = .ok chain ∧
      chain.weight = 2 ∧
      crossing.Chooses .empty (LookupContext.arrange .empty [diamond]).castGraph
        (.ok (chain.steps.map (·.cast)))) ∧
      crossing.Chooses .empty (CastGraph.ofList roundabout)
        (Outcome.fail (.ambiguous crossing.source crossing.destination maxWeight)) := by
  have hne : crossing.source.same .empty crossing.destination = false := by decide +kernel
  constructor
  · have happly := resolve_matches_chosen (LookupContext.places_arrange [diamond]).keyed
      (by decide +kernel) hne
    have hweight : (crossing.resolve .empty (LookupContext.arrange .empty
        [diamond]).castGraph).toOption.map (·.weight) = some 2 := by decide +kernel
    generalize crossing.resolve .empty _ = answer at happly hweight ⊢
    cases answer with
    | error e => cases hweight
    | ok chain =>
      obtain ⟨casts, hchooses, rfl, -⟩ := happly.2.2 chain rfl
      exact ⟨chain, rfl, Option.some.inj hweight, hchooses⟩
  · have happly := resolve_matches_chosen (CastGraph.keyed_ofList roundabout) (by decide +kernel) hne
    have hcasts : crossing.casts .empty (CastGraph.ofList roundabout) =
        Outcome.fail (.ambiguous crossing.source crossing.destination maxWeight) := by cbv
    rw [← hcasts]
    exact happly.1.1

end CastQuery

end RangeTyping
