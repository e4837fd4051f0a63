import Mathlib
import RangeTyping.Proofs.Cast.Reference
import RangeTyping.Proofs.Cast.Table

/-!
# Queries that find nothing, and queries that cost too much

Weights are added up to a greatest weight, and the greatest weight is also the distance of a type
that was not reached.  A walk that is as heavy as that, or heavier, is therefore never seen.  So a
query finds nothing exactly if it has no direct conversion and no walk below the greatest weight
(`CastQuery.Light`), and that is not the same as having no walk at all:
`CastQuery.heavy_walk_unseen` is a query with a single walk, of two conversions, which is told that
there is none.  A direct conversion is not searched for and may be as heavy as it likes.

All else is as it should be (`CastQuery.resolve_classifies`): what is taken is refused for its
weight exactly if this exceeds the limit, and never without a limit.  Where even the least weight of
a walk exceeds the limit, so does what is taken, since a direct conversion is a walk too
(`CastQuery.IsLeastWeight.le_sum`).
-/

namespace RangeTyping.CastQuery

variable {S : StructStore} {G : CastGraph} {q : CastQuery} {casts : List Cast} {m : Nat}

/-! ### Walks and direct conversions -/

/-- A direct conversion is a walk of one step. -/
theorem exists_connects_of_direct {c : Cast} (hc : c ∈ q.direct S G) :
    ∃ i, q.Connects S G [(i, c)] := by
  obtain ⟨husable, hsame⟩ := List.mem_filter.1 hc
  obtain ⟨i, hi⟩ := List.mem_iff_getElem?.1 husable
  exact ⟨i, ⟨trivial, hi⟩, Ty.toClass_eq.2 hsame⟩

/-- A query that can be answered has a walk. -/
theorem Light.exists_connects (h : q.Light S G) : ∃ walk, q.Connects S G walk := by
  rcases h with hdirect | ⟨walk, hwalk, -⟩
  · obtain ⟨c, hc⟩ := List.exists_mem_of_ne_nil _ hdirect
    obtain ⟨i, hi⟩ := exists_connects_of_direct hc
    exact ⟨_, hi⟩
  · exact ⟨walk, hwalk⟩

/-- **What a query takes is no lighter than the lightest walk.** -/
theorem IsLeastWeight.le_sum (hm : q.IsLeastWeight S G m) (h : q.Chooses S G (.ok casts)) :
    m ≤ (casts.map (·.weight)).sum := by
  cases h with
  | @onlyDirect c hc =>
    have hmem : c ∈ q.leastDirect S G := by
      rw [hc]
      exact List.mem_singleton_self c
    obtain ⟨i, hi⟩ := exists_connects_of_direct (List.mem_filter.1 hmem).1
    exact hm.2 ⟨_, hi, rfl⟩
  | searched _ hsearch => exact hm.2 hsearch.isLeastWeight.1

/-! ### What a query fails for -/

/-- **The errors of a query** are those of taking conversions, that these cost too much, and that
one of them refuses the range. -/
theorem resolve_error_cases {error : CastError} (hne : q.source.same S q.destination = false)
    (h : q.resolve S G = Outcome.fail error) :
    q.casts S G = Outcome.fail error ∨ ∃ casts, q.casts S G = .ok casts ∧
      (q.limit < totalWeight casts ∧ error = .tooExpensive (totalWeight casts) q.limit ∨
        ∃ r, error = .rangeUnsafe q.source q.destination r) := by
  rw [resolve_eq_charge hne] at h
  rcases Outcome.bind_error h with hcasts | ⟨casts, hcasts, hcharge⟩
  · exact .inl hcasts
  · refine .inr ⟨casts, hcasts, ?_⟩
    unfold charge at hcharge
    split at hcharge
    · rename_i hlt
      cases hcharge
      exact .inl ⟨hlt, rfl⟩
    · rcases Outcome.bind_error hcharge with hsteps | ⟨steps, -, hpure⟩
      · exact .inr (eq_rangeUnsafe_of_steps hsteps)
      · cases hpure

/-- Taking conversions fails for want of a walk, or because there are several. -/
theorem Chooses.error_eq {error : CastError} (hlight : q.Light S G)
    (h : q.Chooses S G (Outcome.fail error)) :
    ∃ paths, error = .ambiguous q.source q.destination paths := by
  generalize hchoice : (Outcome.fail error : Outcome CastError (List Cast)) = choice at h
  cases h with
  | onlyDirect => cases hchoice
  | severalDirect =>
    cases hchoice
    exact ⟨_, rfl⟩
  | searched _ hsearch =>
    cases hsearch with
    | noWalk hnone =>
      obtain ⟨walk, hwalk⟩ := hlight.exists_connects
      exact absurd hwalk (hnone walk)
    | severalWalks =>
      cases hchoice
      exact ⟨_, rfl⟩
    | onlyWalk => cases hchoice

/-- What a query takes is found, if it can be answered. -/
theorem exists_casts_of_chooses (hG : G.Keyed S)
    (hne : q.source.toClass S ≠ q.destination.toClass S) (hlight : q.Light S G)
    (h : q.Chooses S G (.ok casts)) :
    ∃ found, q.casts S G = .ok found ∧
      totalWeight found = min (casts.map (·.weight)).sum maxWeight := by
  rcases casts_cases hG hne with ⟨hheavy, -⟩ | ⟨-, hchooses⟩
  · exact absurd hlight hheavy
  · have hmatches := hchooses.unique h
    generalize q.casts S G = outcome at hmatches
    cases hmatches with
    | ok hlike => exact ⟨_, rfl, by rw [totalWeight_eq_min, sum_weight_eq hlike]⟩

/-! ### The two errors -/

/-- **A query finds nothing exactly if it has neither a direct conversion nor a light walk.** -/
theorem resolve_noPath_iff (hG : G.Keyed S) (hne : q.source.same S q.destination = false)
    {s d : Ty} :
    q.resolve S G = Outcome.fail (.noPath s d) ↔
      s = q.source ∧ d = q.destination ∧ ¬ q.Light S G := by
  have hcases := casts_cases hG (toClass_ne hne)
  constructor
  · intro h
    -- the search failed, or what it found was refused for its weight or its range
    rcases resolve_error_cases hne h with hcasts | ⟨casts, -, ⟨-, herror⟩ | ⟨r, herror⟩⟩
    · rcases hcases with ⟨hheavy, hnoPath⟩ | ⟨hlight, hchooses⟩
      · rw [hnoPath] at hcasts
        cases hcasts
        exact ⟨rfl, rfl, hheavy⟩
      · rw [hcasts] at hchooses
        obtain ⟨paths, hambiguous⟩ := hchooses.error_eq hlight
        cases hambiguous
    · cases herror
    · cases herror
  · rintro ⟨rfl, rfl, hheavy⟩
    rcases hcases with ⟨-, hnoPath⟩ | ⟨hlight, -⟩
    · rw [resolve_eq_charge hne, hnoPath]
      rfl
    · exact absurd hlight hheavy

/-- **A query costs too much exactly if what it takes exceeds the limit.** -/
theorem resolve_tooExpensive_iff (hG : G.Keyed S) (hne : q.source.same S q.destination = false)
    {w l : Weight} :
    q.resolve S G = Outcome.fail (.tooExpensive w l) ↔
      l = q.limit ∧ q.limit < w ∧ q.Light S G ∧
        ∃ casts, q.Chooses S G (.ok casts) ∧ w = min (casts.map (·.weight)).sum maxWeight := by
  have hclass := toClass_ne hne
  have hcases := casts_cases hG hclass
  constructor
  · intro h
    rcases resolve_error_cases hne h with hcasts | ⟨casts, hcasts, ⟨hlt, herror⟩ | ⟨r, herror⟩⟩
    · rcases hcases with ⟨-, hnoPath⟩ | ⟨hlight, hchooses⟩
      · rw [hnoPath] at hcasts
        cases hcasts
      · rw [hcasts] at hchooses
        obtain ⟨paths, hambiguous⟩ := hchooses.error_eq hlight
        cases hambiguous
    · rw [CastError.tooExpensive.injEq] at herror
      obtain ⟨rfl, rfl⟩ := herror
      rcases hcases with ⟨-, hnoPath⟩ | ⟨hlight, hchooses⟩
      · rw [hnoPath] at hcasts
        cases hcasts
      · rw [hcasts] at hchooses
        exact ⟨rfl, hlt, hlight, casts, hchooses, totalWeight_eq_min casts⟩
    · cases herror
  · rintro ⟨rfl, hlt, hlight, casts, hchooses, rfl⟩
    obtain ⟨found, hfound, hweight⟩ := exists_casts_of_chooses hG hclass hlight hchooses
    rw [← hweight] at hlt ⊢
    rw [resolve_eq_charge hne, hfound]
    exact if_pos hlt

/-- **How a query fails, at any weights.**  Between different types it finds nothing exactly if it
has neither a direct conversion nor a walk below the greatest weight; in particular if it has no
walk.  What it takes is refused for its weight exactly if this exceeds the limit.  It is so where
the least weight of all walks exceeds the limit, and never where there is no limit. -/
theorem resolve_classifies (hG : G.Keyed S) (hne : q.source.same S q.destination = false) :
    (∀ s d, q.resolve S G = Outcome.fail (.noPath s d) ↔
      s = q.source ∧ d = q.destination ∧ ¬ q.Light S G) ∧
    ((∀ walk, ¬ q.Connects S G walk) → ¬ q.Light S G) ∧
    (∀ w l, q.resolve S G = Outcome.fail (.tooExpensive w l) ↔
      l = q.limit ∧ q.limit < w ∧ q.Light S G ∧
        ∃ casts, q.Chooses S G (.ok casts) ∧ w = min (casts.map (·.weight)).sum maxWeight) ∧
    (∀ m casts, q.Light S G → q.IsLeastWeight S G m → q.Chooses S G (.ok casts) →
      q.limit < min m maxWeight → ∃ w, q.resolve S G = Outcome.fail (.tooExpensive w q.limit)) ∧
    (q.limit = maxWeight → ∀ w l, q.resolve S G ≠ Outcome.fail (.tooExpensive w l)) := by
  refine ⟨fun s d => resolve_noPath_iff hG hne, fun hnone hlight => ?_,
    fun w l => resolve_tooExpensive_iff hG hne, ?_, ?_⟩
  · obtain ⟨walk, hwalk⟩ := hlight.exists_connects
    exact hnone walk hwalk
  · intro m casts hlight hm hchooses hlt
    have hle : min m maxWeight ≤ min (casts.map (·.weight)).sum maxWeight :=
      min_le_min_right _ (hm.le_sum hchooses)
    exact ⟨_, (resolve_tooExpensive_iff hG hne).2
      ⟨rfl, hlt.trans_le hle, hlight, casts, hchooses, rfl⟩⟩
  · intro hlimit w l h
    obtain ⟨-, hlt, -, casts, -, rfl⟩ := (resolve_tooExpensive_iff hG hne).1 h
    rw [hlimit] at hlt
    exact absurd hlt (min_le_right _ _).not_gt

/-! ### Heavy walks -/

/-- Two conversions in a row. -/
def twoLinks (first second : Weight) : CastGraph :=
  .ofList [link (word "a" 1) (word "b" 2) first, link (word "b" 2) (word "c" 4) second]

/-- From the start of the first conversion to the end of the second. -/
def overBoth (limit : Weight) : CastQuery := ⟨word "a" 1, none, word "c" 4, true, limit⟩

theorem connects_overBoth (first second limit : Weight) :
    (overBoth limit).Connects .empty (twoLinks first second)
      [(0, link (word "a" 1) (word "b" 2) first), (0, link (word "b" 2) (word "c" 4) second)] :=
  ⟨⟨⟨trivial, rfl⟩, rfl⟩, rfl⟩

/-- One below the greatest weight, the walk is found.  It costs too much if the limit is lower
still, and this is the error that is reported. -/
theorem resolve_classifies_below :
    (overBoth 4294967293).resolve .empty (twoLinks 2147483647 2147483647) =
        Outcome.fail (.tooExpensive 4294967294 4294967293) ∧
      (∀ s d, (overBoth 4294967293).resolve .empty (twoLinks 2147483647 2147483647) ≠
        Outcome.fail (.noPath s d)) ∧
      ∃ casts, (overBoth 4294967293).Chooses .empty (twoLinks 2147483647 2147483647) (.ok casts) ∧
        4294967294 = min (casts.map (·.weight)).sum maxWeight := by
  have hne : (overBoth 4294967293).source.same .empty (overBoth 4294967293).destination =
      false := by decide +kernel
  obtain ⟨hnoPath, -, htooExpensive, -⟩ := resolve_classifies
    (CastGraph.keyed_ofList [link (word "a" 1) (word "b" 2) 2147483647,
      link (word "b" 2) (word "c" 4) 2147483647]) hne
  have hresolve : (overBoth 4294967293).resolve .empty (twoLinks 2147483647 2147483647) =
      Outcome.fail (.tooExpensive 4294967294 4294967293) := by cbv
  have hlight : (overBoth 4294967293).Light .empty (twoLinks 2147483647 2147483647) :=
    .inr ⟨_, connects_overBoth _ _ _, by decide⟩
  refine ⟨hresolve, fun s d h => ((hnoPath s d).1 h).2.2 hlight, ?_⟩
  exact ((htooExpensive _ _).1 hresolve).2.2.2

/-- **A walk that is not seen.**  It weighs exactly as much as may be spent where there is no limit,
and the query is told that there is no walk. -/
theorem heavy_walk_unseen :
    (∃ walk, (overBoth maxWeight).Connects .empty (twoLinks 2147483648 2147483647) walk ∧
      walkWeight walk = maxWeight) ∧
      (overBoth maxWeight).resolve .empty (twoLinks 2147483648 2147483647) =
        Outcome.fail (.noPath (word "a" 1) (word "c" 4)) :=
  ⟨⟨_, connects_overBoth _ _ _, rfl⟩, by cbv⟩

end RangeTyping.CastQuery
