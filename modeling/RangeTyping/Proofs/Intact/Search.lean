import Mathlib
import RangeTyping.Proofs.Cast.Chain
import RangeTyping.Proofs.Intact.Range

/-!
# A cheapest chain can be followed to its end

The search expands types in the order of their distance, so the distance of a type that is expanded
does not change any more.  Hence at any time every type that was met, other than the destination,
has a tight conversion: one that starts there and leads to an expanded type on a cheapest way
(`Search.Settled`).

Following tight conversions can then only fail by going round in a circle, and in this case the
number of chains is not one: it is as large as it can be (`Search.walkCounts_of_follow`).  So
a query that is not ambiguous has a chain (`CastQuery.intact_casts`), and between types of a setting
a range can be carried along it (`Setting.intact_resolve`).
-/

namespace RangeTyping

theorem le_addWeight {d w : Weight} (h : d ≤ maxWeight) : d ≤ addWeight d w :=
  Nat.le_min.2 ⟨Nat.le_add_right d w, h⟩

theorem addWeight_maxWeight (w : Weight) : addWeight w maxWeight = maxWeight :=
  Nat.min_eq_right (Nat.le_add_left maxWeight w)

theorem maxWeight_addWeight (w : Weight) : addWeight maxWeight w = maxWeight :=
  Nat.min_eq_right (Nat.le_add_right maxWeight w)

namespace Search

variable {S : StructStore} {s s' : Search} {d : Weight} {c : Cast} {i j : Nat} {n m : SearchNode}

/-! ### Distances -/

theorem nearest_none {nodes : List SearchNode} {k : Nat} (h : nearest k nodes = none) :
    ∀ m ∈ nodes, m.expanded = false → maxWeight ≤ m.distance := by
  induction nodes generalizing k with
  | nil => exact fun m hm => absurd hm List.not_mem_nil
  | cons a rest ih =>
    rw [nearest] at h
    split at h
    · rename_i hrest
      split at h
      · cases h
      · rename_i hhead
        intro m hm hfresh
        rcases List.mem_cons.1 hm with rfl | hm
        · simpa [hfresh] using hhead
        · exact ih hrest m hm hfresh
    · split at h <;> cases h

/-- The nearest node is not expanded, and no other node that is not expanded is nearer. -/
theorem nearest_le {nodes : List SearchNode} {k : Nat} (h : nearest k nodes = some (i, n)) :
    n.expanded = false ∧ n.distance < maxWeight ∧
      ∀ m ∈ nodes, m.expanded = false → n.distance ≤ m.distance := by
  induction nodes generalizing k i n with
  | nil => cases h
  | cons a rest ih =>
    rw [nearest] at h
    split at h
    · -- the rest has no node to expand
      rename_i hrest
      split at h
      · rename_i hhead
        cases h
        simp only [Bool.and_eq_true, Bool.not_eq_true', decide_eq_true_eq] at hhead
        refine ⟨hhead.1, hhead.2, fun m hm hfresh => ?_⟩
        rcases List.mem_cons.1 hm with rfl | hm
        · exact le_rfl
        · exact hhead.2.le.trans (nearest_none hrest m hm hfresh)
      · cases h
    · -- the rest has one, and it is left to compare it with the first
      rename_i j' m' hrest
      obtain ⟨hfresh', hlt, hle⟩ := ih hrest
      split at h
      · rename_i hhead
        cases h
        simp only [Bool.and_eq_true, Bool.not_eq_true', decide_eq_true_eq] at hhead
        refine ⟨hhead.1.1, hhead.1.2, fun m hm hfresh => ?_⟩
        rcases List.mem_cons.1 hm with rfl | hm
        · exact le_rfl
        · exact hhead.2.trans (hle m hm hfresh)
      · rename_i hhead
        cases h
        refine ⟨hfresh', hlt, fun m hm hfresh => ?_⟩
        rcases List.mem_cons.1 hm with rfl | hm
        · simp only [hfresh, Bool.not_false, Bool.true_and, Bool.and_eq_true, decide_eq_true_eq,
            not_and, not_le] at hhead
          by_cases hreach : m.distance < maxWeight
          · exact (hhead hreach).le
          · exact hlt.le.trans (not_lt.1 hreach)
        · exact hle m hm hfresh

/-- **What the search keeps about distances**: expanded nodes are at most as far as `d` and the
others at least as far, the conversions that were seen lead to expanded nodes, and every node but
the destination has a tight one. -/
structure Settled (d : Weight) (s : Search) : Prop where
  near : ∀ (i : Nat) (n : SearchNode), s.nodes[i]? = some n → n.expanded = true → n.distance ≤ d
  far : ∀ (i : Nat) (n : SearchNode), s.nodes[i]? = some n → n.expanded = false → d ≤ n.distance
  source : ∀ e ∈ s.edges, e.source < s.nodes.length
  target : ∀ e ∈ s.edges, ∃ m : SearchNode, s.nodes[e.target]? = some m ∧ m.expanded = true
  tight : ∀ (i : Nat) (n : SearchNode), 0 < i → s.nodes[i]? = some n → ∃ e ∈ s.edges, e.source = i ∧
    ∃ m : SearchNode, s.nodes[e.target]? = some m ∧ n.distance = addWeight m.distance e.cast.weight
  origin : ∀ i w, s.origin = some (i, w) → i < s.nodes.length

theorem settled_start (t : Ty) : Settled 0 (start t) := by
  refine ⟨?_, fun _ _ _ _ => Nat.zero_le _, nofun, nofun, ?_, nofun⟩
  · intro i n hn hexp
    cases List.mem_singleton.1 (List.mem_of_getElem? hn)
    cases hexp
  · intro i n hi hn
    have hlt : i < 1 := (List.getElem?_eq_some_iff.1 hn).1
    omega

/-- Where a node stands after marking `i`. -/
theorem getElem?_mark (hn : (s.mark i).nodes[j]? = some n) :
    ∃ m, s.nodes[j]? = some m ∧ n.distance = m.distance ∧
      n.expanded = (decide (i = j) || m.expanded) := by
  rw [mark, List.getElem?_modify] at hn
  cases hm : s.nodes[j]? with
  | none => simp [hm] at hn
  | some m =>
    simp only [hm, Option.map_eq_map, Option.map_some, Option.some.injEq] at hn
    subst hn
    refine ⟨m, rfl, ?_⟩
    by_cases hij : i = j <;> simp [hij]

theorem getElem?_mark_of_expanded (hn : s.nodes[j]? = some n) (hexp : n.expanded = true) :
    (s.mark i).nodes[j]? = some n := by
  rw [mark, List.getElem?_modify, hn]
  obtain ⟨t, w, x⟩ := n
  cases hexp
  by_cases hij : i = j <;> simp [hij]

/-- Marking the nearest node moves the bound to its distance. -/
theorem Settled.mark (h : s.Settled d) (hnear : nearest 0 s.nodes = some (i, n)) :
    (s.mark i).Settled n.distance := by
  obtain ⟨hfresh, -, hle⟩ := nearest_le hnear
  obtain ⟨-, hn⟩ := getElem?_nearest hnear
  rw [Nat.sub_zero] at hn
  have hlength : (s.mark i).nodes.length = s.nodes.length := by simp [Search.mark]
  refine ⟨?_, ?_, ?_, ?_, ?_, ?_⟩
  · intro j m' hj hexp
    obtain ⟨m, hm, hdist, hx⟩ := getElem?_mark hj
    rw [hdist]
    by_cases hij : i = j
    · subst hij
      cases hn.symm.trans hm
      exact le_rfl
    · -- a node that was expanded before is not farther than one that was not
      have hold : m.expanded = true := by simpa [hij, hexp] using hx.symm
      exact (h.near j m hm hold).trans (h.far i n hn hfresh)
  · intro j m' hj hunmarked
    obtain ⟨m, hm, hdist, hx⟩ := getElem?_mark hj
    rw [hdist]
    refine hle m (List.mem_of_getElem? hm) ?_
    rw [hunmarked] at hx
    simp only [Bool.false_eq, Bool.or_eq_false_iff] at hx
    exact hx.2
  · intro e he
    rw [hlength]
    exact h.source e he
  · intro e he
    obtain ⟨m, hm, hexp⟩ := h.target e he
    exact ⟨m, getElem?_mark_of_expanded hm hexp, hexp⟩
  · intro j m' hpos hj
    obtain ⟨m, hm, hdist, -⟩ := getElem?_mark hj
    obtain ⟨e, he, hsource, k, hk, hweight⟩ := h.tight j m hpos hm
    -- the target of this edge is expanded already, so that marking leaves it alone
    obtain ⟨k', hk', hexp⟩ := h.target e he
    cases hk.symm.trans hk'
    exact ⟨e, he, hsource, k, getElem?_mark_of_expanded hk hexp, hdist.trans hweight⟩
  · intro j w hj
    rw [hlength]
    exact h.origin j w hj

/-! ### Seeing a conversion -/

/-- What a node is after a conversion into node `i` was seen: what it was before, or nearer by this
conversion. -/
theorem getElem?_relax (hn : (s.relax S i d c).nodes[j]? = some n) :
    s.nodes[j]? = some n ∨
      n.distance = addWeight d c.weight ∧ ⟨j, i, c⟩ ∈ (s.relax S i d c).edges ∧
        (n.expanded = true → ∃ m, s.nodes[j]? = some m ∧ m.expanded = true ∧
          addWeight d c.weight < m.distance) := by
  unfold relax at hn ⊢
  split at hn <;> rename_i hfind
  · -- the node was there before
    rename_i k
    rw [List.getElem?_modify] at hn
    cases hm : s.nodes[j]? with
    | none => simp [hm] at hn
    | some m =>
      simp only [hm, Option.map_eq_map, Option.map_some, Option.some.injEq] at hn
      subst hn
      by_cases hkj : k = j
      · subst hkj
        by_cases hcloser : addWeight d c.weight < m.distance
        · refine .inr ⟨by simp [hcloser.le], by simp, fun hexp => ?_⟩
          exact ⟨m, rfl, by simpa using hexp, hcloser⟩
        · exact .inl (by simp [not_lt.1 hcloser])
      · exact .inl (by simp [hkj])
  · by_cases hj : j < s.nodes.length
    · rw [List.getElem?_append_left hj] at hn
      exact .inl hn
    · -- the node is new and comes last
      have hlast : j = s.nodes.length := by
        have hbound := (List.getElem?_eq_some_iff.1 hn).1
        rw [List.length_append, List.length_singleton] at hbound
        omega
      subst hlast
      rw [List.getElem?_concat_length] at hn
      cases hn
      exact .inr ⟨rfl, by simp, nofun⟩

/-- A node at which no shorter way ends is not changed. -/
theorem getElem?_relax_of_le (hn : s.nodes[j]? = some n) (hle : n.distance ≤ addWeight d c.weight) :
    (s.relax S i d c).nodes[j]? = some n := by
  unfold relax
  split
  · rename_i k hfind
    rw [List.getElem?_modify, hn]
    by_cases hkj : k = j <;> simp [hkj, hle]
  · exact (List.getElem?_append_left (List.getElem?_eq_some_iff.1 hn).1).trans hn

theorem length_le_relax : s.nodes.length ≤ (s.relax S i d c).nodes.length := by
  unfold relax
  split <;> simp

theorem subset_edges_relax {e : SearchEdge} (he : e ∈ s.edges) : e ∈ (s.relax S i d c).edges := by
  unfold relax
  split <;> exact List.mem_append_left _ he

theorem edges_relax {e : SearchEdge} (he : e ∈ (s.relax S i d c).edges) :
    e ∈ s.edges ∨ e.target = i ∧ e.source < (s.relax S i d c).nodes.length := by
  unfold relax at he ⊢
  split at he <;> rename_i hfind <;>
    rcases List.mem_append.1 he with he | he
  · exact .inl he
  · cases List.mem_singleton.1 he
    exact .inr ⟨rfl, by simpa using (List.findIdx?_eq_some_iff_getElem.1 hfind).1⟩
  · exact .inl he
  · cases List.mem_singleton.1 he
    exact .inr ⟨rfl, by simp⟩

theorem origin_relax : (s.relax S i d c).origin = s.origin := by
  unfold relax
  split <;> rfl

/-- **Seeing a conversion into the node that was expanded last** keeps the distances settled. -/
theorem Settled.relax (h : s.Settled d) (hd : d ≤ maxWeight) (hi : s.nodes[i]? = some n)
    (hexp : n.expanded = true) (hdist : n.distance = d) : (s.relax S i d c).Settled d := by
  have hle : d ≤ addWeight d c.weight := le_addWeight hd
  -- expanded nodes are too near to be changed
  have hkeep : ∀ (j : Nat) (m : SearchNode), s.nodes[j]? = some m → m.expanded = true →
      (s.relax S i d c).nodes[j]? = some m := fun j m hm hx =>
    getElem?_relax_of_le hm ((h.near j m hm hx).trans hle)
  refine ⟨?_, ?_, ?_, ?_, ?_, ?_⟩
  · intro j m hm hx
    rcases getElem?_relax hm with hold | ⟨-, -, hcloser⟩
    · exact h.near j m hold hx
    · obtain ⟨m', hm', hx', hlt⟩ := hcloser hx
      exact absurd (hle.trans_lt hlt) (h.near j m' hm' hx').not_gt
  · intro j m hm hx
    rcases getElem?_relax hm with hold | ⟨hw, -, -⟩
    · exact h.far j m hold hx
    · rwa [hw]
  · intro e he
    rcases edges_relax he with he | ⟨-, hlt⟩
    · exact (h.source e he).trans_le length_le_relax
    · exact hlt
  · intro e he
    rcases edges_relax he with he | ⟨rfl, -⟩
    · obtain ⟨m, hm, hx⟩ := h.target e he
      exact ⟨m, hkeep _ m hm hx, hx⟩
    · exact ⟨n, hkeep _ n hi hexp, hexp⟩
  · intro j m hpos hm
    rcases getElem?_relax hm with hold | ⟨hw, hmem, -⟩
    · obtain ⟨e, he, hsource, k, hk, hweight⟩ := h.tight j m hpos hold
      obtain ⟨k', hk', hx⟩ := h.target e he
      cases hk.symm.trans hk'
      exact ⟨e, subset_edges_relax he, hsource, k, hkeep _ k hk hx, hweight⟩
    · exact ⟨_, hmem, rfl, n, hkeep _ n hi hexp, by rw [hw, hdist]⟩
  · intro j w hj
    rw [origin_relax] at hj
    exact (h.origin j w hj).trans_le length_le_relax

theorem Settled.foldl_relax {casts : List Cast} (h : s.Settled d) (hd : d ≤ maxWeight)
    (hi : s.nodes[i]? = some n) (hexp : n.expanded = true) (hdist : n.distance = d) :
    (casts.foldl (Search.relax S i d) s).Settled d := by
  induction casts generalizing s with
  | nil => exact h
  | cons c rest ih =>
    refine ih (h.relax hd hi hexp hdist) (getElem?_relax_of_le hi ?_)
    rw [hdist]
    exact le_addWeight hd

/-! ### The whole search -/

theorem Settled.step {G : CastGraph} {source : Ty} {implicit : Bool} (h : s.Settled d)
    (hstep : s.step S G source implicit = some s') : ∃ d', s'.Settled d' := by
  unfold Search.step at hstep
  split at hstep
  · cases hstep
  · rename_i i n hnear
    have hmark := h.mark hnear
    obtain ⟨-, hreach, -⟩ := nearest_le hnear
    obtain ⟨-, hn⟩ := getElem?_nearest hnear
    rw [Nat.sub_zero] at hn
    have hmarked : (s.mark i).nodes[i]? = some { n with expanded := true } := by
      rw [Search.mark, List.getElem?_modify, hn]
      simp
    refine ⟨n.distance, ?_⟩
    split at hstep
    · cases hstep
    · split at hstep
      · cases hstep
        refine ⟨hmark.near, hmark.far, hmark.source, hmark.target, hmark.tight, fun j w hj => ?_⟩
        cases hj
        exact (List.getElem?_eq_some_iff.1 hmarked).1
      · cases hstep
        exact hmark.foldl_relax hreach.le hmarked rfl rfl

/-- **The finished search** keeps the distances settled. -/
theorem settled_explore (S : StructStore) (G : CastGraph) (source destination : Ty)
    (implicit : Bool) : ∃ d, (explore S G source destination implicit).Settled d := by
  suffices hrun : ∀ fuel (s : Search), (∃ d, s.Settled d) →
      ∃ d, (s.run S G source implicit fuel).Settled d from
    hrun _ _ ⟨0, settled_start destination⟩
  intro fuel
  induction fuel with
  | zero => exact fun s h => h
  | succ fuel ih =>
    intro s h
    rw [run]
    split
    · exact h
    · rename_i s' hstep
      obtain ⟨d, hd⟩ := h
      exact ih s' (hd.step hstep)

/-! ### Counting and following chains -/

/-- A sum of counts with one that is as large as it can be is that large. -/
theorem getD_foldl_modify {before sums : Array Weight} {edges : List SearchEdge}
    (hi : i < sums.size)
    (h : sums.getD i 0 = maxWeight ∨
      ∃ e ∈ edges, e.source = i ∧ before.getD e.target 0 = maxWeight) :
    (edges.foldl (fun sums e => sums.modify e.source (addWeight · (before.getD e.target 0)))
      sums).getD i 0 = maxWeight := by
  induction edges generalizing sums with
  | nil =>
    rcases h with h | ⟨e, he, -⟩
    · exact h
    · cases he
  | cons e rest ih =>
    refine ih (by simpa using hi) ?_
    simp only [Array.getD_eq_getD_getElem?] at h ⊢
    rcases h with h | ⟨e', he', hsource, hlarge⟩
    · -- what is saturated stays so
      left
      rw [Array.getElem?_eq_getElem hi, Option.getD_some] at h
      rw [Array.getElem?_modify, Array.getElem?_eq_getElem hi, h]
      split
      · rw [Option.map_some, Option.getD_some, maxWeight_addWeight]
      · rw [Option.getD_some]
    · rcases List.mem_cons.1 he' with rfl | hrest
      · left
        rw [Array.getElem?_modify, if_pos hsource, Array.getElem?_eq_getElem hi,
          Option.map_some, Option.getD_some, hlarge, addWeight_maxWeight]
      · exact .inr ⟨e', hrest, hsource, hlarge⟩

/-- **Where chains cannot be followed to their end there are too many of them**: with a way on from
every node but the last, the only obstacle is a circle. -/
theorem walkCounts_of_follow {edges : List SearchEdge} {size fuel : Nat}
    (hon : ∀ i, 0 < i → i < size → ∃ e ∈ edges, e.source = i)
    (htarget : ∀ e ∈ edges, e.target < size) (hi : i < size) (h : follow edges fuel i = none) :
    (walkCounts edges size fuel).getD i 0 = maxWeight := by
  induction fuel generalizing i with
  | zero => simp [walkCounts, hi]
  | succ fuel ih =>
    cases i with
    | zero => cases h
    | succ i =>
      obtain ⟨e₀, he₀, hsource₀⟩ := hon (i + 1) i.succ_pos hi
      simp only [follow] at h
      split at h
      · rename_i hnone
        exact absurd (List.find?_eq_none.1 hnone e₀ he₀) (by simp [hsource₀])
      · rename_i e hfind
        have he := List.mem_of_find?_eq_some hfind
        -- nor can the target be followed to the end, so that its count is saturated
        have hlarge := ih (htarget e he) (Option.map_eq_none_iff.1 h)
        have hsize : i + 1 < (Array.replicate size (0 : Weight)).size := by simpa using hi
        have hsum := getD_foldl_modify hsize
          (.inr ⟨e, he, by simpa using List.find?_some hfind, hlarge⟩)
        rw [walkCounts]
        simp only [Array.getD_eq_getD_getElem?] at hsum ⊢
        rw [Array.getElem?_setIfInBounds_ne (by omega)]
        exact hsum

/-- A node from which no chain can be followed has too many chains. -/
theorem Settled.chainCount (h : s.Settled d) (hi : i < s.nodes.length) (hc : s.chain i = none) :
    s.chainCount i = maxWeight := by
  refine walkCounts_of_follow ?_ ?_ hi hc
  · intro j hpos hj
    obtain ⟨e, he, hsource, m, hm, hweight⟩ := h.tight j _ hpos (List.getElem?_eq_getElem hj)
    refine ⟨e, List.mem_filter.2 ⟨he, ?_⟩, hsource⟩
    simp only [distance, hsource, List.getElem?_eq_getElem hj, hm, Option.map_some,
      Option.getD_some, hweight, beq_self_eq_true]
  · intro e he
    obtain ⟨m, hm, -⟩ := h.target e (List.mem_filter.1 he).1
    exact (List.getElem?_eq_some_iff.1 hm).1

end Search

/-! ### Queries -/

/-- **Finding the conversions of a query** breaks no invariant. -/
theorem CastQuery.intact_casts (S : StructStore) (G : CastGraph) (q : CastQuery) :
    (q.casts S G).Intact := by
  unfold casts
  split
  · unfold searchedChain
    dsimp only
    split
    · trivial
    · rename_i i w horigin
      split
      · trivial
      · rename_i hpaths
        split
        · trivial
        · rename_i hchain
          -- a chain that cannot be followed would have been ambiguous
          obtain ⟨d, hd⟩ := Search.settled_explore S G q.source q.destination q.implicit
          rw [hd.chainCount (hd.origin i w horigin) hchain] at hpaths
          exact absurd (by norm_num [maxWeight]) hpaths
  · trivial
  · trivial

/-- Conversions that break no invariant may follow each other. -/
theorem CastQuery.intact_steps {q : CastQuery} {casts : List Cast}
    (h : ∀ c ∈ casts, ∀ r, (q.rangeAfter c r).Intact) (r : Option ValueRange) :
    (q.steps r casts).Intact := by
  induction casts generalizing r with
  | nil => trivial
  | cons c rest ih =>
    rw [List.forall_mem_cons] at h
    exact .bind (h.1 r) fun after _ => .bind (ih h.2 after) fun _ _ => trivial

namespace Setting

variable {X : Setting} {G : CastGraph} {q : CastQuery} {c : Cast} {t u : Ty}
  {r : Option ValueRange}

theorem sized_of_known {s : Scalar} (h : X.Known t) (hs : t.asScalar? = some s) :
    s.kind ≠ .void → s.Sized := fun hv => BuiltinTypes.sized_of_mem (h.mem_all hs) hv

/-- Known types have a full range, or none. -/
theorem Known.fullRange_total (h : X.Known t) : ∃ o, t.fullRange = .ok o := by
  unfold Ty.fullRange
  cases hs : t.asScalar? with
  | none => exact ⟨none, rfl⟩
  | some s => exact Scalar.fullRange_total (sized_of_known h hs)

theorem Edge.admits_total (he : X.Edge c) (implicit : Bool) (r : Option ValueRange) :
    ∃ f, CastQuery.admits implicit c r = .ok f := by
  unfold CastQuery.admits
  split
  · split
    · rename_i p s hs
      exact Scalar.fits_total (sized_of_known he.plain_destination.known hs) p
    · exact ⟨_, rfl⟩
  · exact ⟨_, rfl⟩

theorem Edge.transform_total (he : X.Edge c) (p : ValueRange) (implicit : Bool) :
    ∃ o, c.transform c.source c.destination p implicit = .ok o := by
  rcases he with hc | ⟨t, ht, hc⟩
  · obtain ⟨a, -, b, hb, -, hd, -, hint⟩ := isIntegral_of_mem_casts hc
    rw [transform_of_mem_casts hc, hd]
    have hv := ne_void_of_isIntegral hint
    obtain ⟨r, hr⟩ := Scalar.convert_total (BuiltinTypes.sized_of_mem hb hv) hv p
    exact ⟨some r, by simp [RangeTransform.integer, Ty.ofScalar, Ty.asScalar?, hr]⟩
  · rw [transform_of_mem_decays hc]
    exact ⟨_, rfl⟩

theorem Edge.intact_rangeAfter (he : X.Edge c) (q : CastQuery) (r : Option ValueRange) :
    (q.rangeAfter c r).Intact := by
  refine .bind (.ofInternal (he.admits_total q.implicit r)) fun admitted _ => ?_
  cases admitted with
  | false => trivial
  | true =>
    cases r with
    | none => exact .ofInternal he.plain_destination.known.fullRange_total
    | some p =>
      refine .bind (.ofInternal (he.transform_total p q.implicit)) fun o _ => ?_
      cases o <;> trivial

theorem edge_of_linked {casts : List Cast} (hl : X.Linked t casts u) : ∀ c ∈ casts, X.Edge c := by
  induction casts generalizing t with
  | nil => exact fun c hc => absurd hc List.not_mem_nil
  | cons c rest ih =>
    obtain ⟨he, -, hl⟩ := hl
    exact List.forall_mem_cons.2 ⟨he, ih hl⟩

/-- **Resolving a query between types of the setting** breaks no invariant. -/
theorem intact_resolve (hG : X.Carries G) (hs : X.Known q.source) (hd : X.Known q.destination) :
    (q.resolve X.structs G).Intact := by
  unfold CastQuery.resolve
  split
  · trivial
  · refine .bind (q.intact_casts X.structs G) fun casts hcasts => ?_
    dsimp only
    split
    · trivial
    · have hedges := edge_of_linked (linked_of_casts hG hs hd hcasts)
      have hsteps := CastQuery.intact_steps (fun c hc => (hedges c hc).intact_rangeAfter q) q.range
      exact .bind hsteps fun _ _ => trivial

end Setting

end RangeTyping
