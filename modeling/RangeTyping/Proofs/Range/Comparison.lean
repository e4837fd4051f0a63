import Mathlib
import RangeTyping.Proofs.Range.Soundness

/-!
# Comparisons of ranges are exact

The range of a comparison says as much as two ranges can say about it: it is `[1, 1]` if the
comparison holds for every pair of values, `[0, 0]` if it holds for none, and `[0, 1]` only if it
holds for some pairs and not for others (`Comparison.range_exact`).

What the bounds prove is what holds of every pair (`always_iff`).  One direction is soundness.
For the other, a pair of bounds is enough to read the condition off, except for inequality: ranges
that overlap have a value in common, and only its existence shows that they are not apart
(`ValueRange.exists_common`).

So ranges of opposite comparisons are negations of each other, and exchanging the operands goes
along with turning the comparison round (`Comparison.swapped`).
-/

namespace RangeTyping

/-- Two ranges that are not apart have a value in common. -/
theorem ValueRange.exists_common {a b : ValueRange} (hab : b.lo ≤ a.hi) (hba : a.lo ≤ b.hi) :
    ∃ v, v ∈ a ∧ v ∈ b := by
  have ha := a.lo_le_hi
  have hb := b.lo_le_hi
  exact ⟨max a.lo b.lo, mem_iff.2 (by omega), mem_iff.2 (by omega)⟩

namespace Comparison

variable {c : Comparison} {a b : ValueRange}

/-- The comparison with its operands exchanged. -/
def swapped : Comparison → Comparison
  | equal => equal
  | notEqual => notEqual
  | less => greater
  | lessOrEqual => greaterOrEqual
  | greater => less
  | greaterOrEqual => lessOrEqual

/-! ### What the bounds prove -/

/-- **The bounds prove a comparison exactly if it holds of every pair of values.** -/
theorem always_iff : c.always a b = true ↔ ∀ x ∈ a, ∀ y ∈ b, c.holds x y = true := by
  refine ⟨fun h x hx y hy => holds_of_always h hx hy, fun h => ?_⟩
  have hlolo := h a.lo a.lo_mem b.lo b.lo_mem
  have hlohi := h a.lo a.lo_mem b.hi b.hi_mem
  have hhilo := h a.hi a.hi_mem b.lo b.lo_mem
  cases c with
  | notEqual =>
    -- no pair of bounds shows that the ranges are apart
    by_contra hapart
    simp only [always, verdicts, Bool.or_eq_true, decide_eq_true_eq, not_or, not_lt] at hapart
    obtain ⟨v, hva, hvb⟩ := ValueRange.exists_common hapart.1 hapart.2
    simpa [holds] using h v hva v hvb
  | equal =>
    simp only [holds, beq_iff_eq] at hlolo hlohi hhilo
    simp only [always, verdicts, ValueRange.isSingle, Bool.and_eq_true, beq_iff_eq]
    omega
  | less => exact hhilo
  | lessOrEqual => exact hhilo
  | greater => exact hlohi
  | greaterOrEqual => exact hlohi

/-- **The bounds refute a comparison exactly if it holds of no pair of values.** -/
theorem never_iff : c.never a b = true ↔ ∀ x ∈ a, ∀ y ∈ b, c.holds x y = false := by
  simp only [never_eq, always_iff, holds_opposite, Bool.not_eq_true']

/-- A comparison is not both proved and refuted, since no range is empty. -/
theorem not_never_of_always (h : c.always a b = true) : c.never a b = false := by
  rw [Bool.eq_false_iff]
  intro hnever
  have htrue := always_iff.1 h a.lo a.lo_mem b.lo b.lo_mem
  rw [never_iff.1 hnever a.lo a.lo_mem b.lo b.lo_mem] at htrue
  cases htrue

theorem opposite_opposite (c : Comparison) : c.opposite.opposite = c := by
  cases c <;> rfl

theorem opposite_swapped (c : Comparison) : c.swapped.opposite = c.opposite.swapped := by
  cases c <;> rfl

theorem holds_swapped (c : Comparison) (x y : Int) : c.swapped.holds y x = c.holds x y := by
  cases c <;> simp [swapped, holds, Bool.beq_comm, bne]

theorem always_swapped (c : Comparison) (a b : ValueRange) :
    c.swapped.always b a = c.always a b := by
  rw [Bool.eq_iff_iff, always_iff, always_iff]
  simp only [holds_swapped]
  exact ⟨fun h x hx y hy => h y hy x hx, fun h y hy x hx => h x hx y hy⟩

/-! ### Ranges of comparisons -/

/-- **The three ranges of a comparison**, with what the bounds prove in each case. -/
theorem range_cases (c : Comparison) (a b : ValueRange) :
    (c.always a b = true ∧ c.never a b = false ∧ c.range a b = .ofBool true) ∨
      (c.always a b = false ∧ c.never a b = true ∧ c.range a b = .ofBool false) ∨
      (c.always a b = false ∧ c.never a b = false ∧ c.range a b = .anyBool) := by
  cases h : c.always a b with
  | true => simp [range, h, not_never_of_always h]
  | false => cases h' : c.never a b <;> simp [range, h, h']

theorem range_eq_true_iff : c.range a b = .ofBool true ↔ c.always a b = true := by
  rcases c.range_cases a b with ⟨h, -, hr⟩ | ⟨h, -, hr⟩ | ⟨h, -, hr⟩ <;> rw [h, hr] <;> decide

theorem range_eq_false_iff : c.range a b = .ofBool false ↔ c.never a b = true := by
  rcases c.range_cases a b with ⟨-, h, hr⟩ | ⟨-, h, hr⟩ | ⟨-, h, hr⟩ <;> rw [h, hr] <;> decide

theorem range_eq_any_iff :
    c.range a b = .anyBool ↔ c.always a b = false ∧ c.never a b = false := by
  rcases c.range_cases a b with ⟨h, h', hr⟩ | ⟨h, h', hr⟩ | ⟨h, h', hr⟩ <;> rw [h, h', hr] <;>
    decide

/-- **Opposite comparisons have opposite ranges.** -/
theorem logicalNot_range (c : Comparison) (a b : ValueRange) :
    (c.range a b).logicalNot = .ok (c.opposite.range a b) := by
  rcases c.range_cases a b with ⟨h, h', hr⟩ | ⟨h, h', hr⟩ | ⟨h, h', hr⟩
  all_goals
    have hopposite := c.opposite.range_cases a b
    rw [never_eq, opposite_opposite, ← never_eq, h, h'] at hopposite
    simp only [Bool.true_eq_false, Bool.false_eq_true, false_and, true_and, false_or, or_false]
      at hopposite
    rw [hr, hopposite]
    rfl

/-- Exchanging the operands and turning the comparison round changes nothing. -/
theorem range_swapped (c : Comparison) (a b : ValueRange) :
    c.swapped.range b a = c.range a b := by
  rw [range, range, never_eq, never_eq, always_swapped, opposite_swapped, always_swapped]

/-- **Comparisons of ranges are exact.**  Whatever the two ranges and their representations are, the
range of a comparison is `[1, 1]` exactly if it holds for all pairs of values, `[0, 0]` exactly if
it holds for none, and `[0, 1]` exactly if it holds for some and not for others.  The opposite
comparison has the negated range, and the comparison with its operands exchanged has the same one.
-/
theorem range_exact (c : Comparison) (a b : ValueRange) :
    (c.range a b = .ofBool true ↔ ∀ x ∈ a, ∀ y ∈ b, c.holds x y = true) ∧
    (c.range a b = .ofBool false ↔ ∀ x ∈ a, ∀ y ∈ b, c.holds x y = false) ∧
    (c.range a b = .anyBool ↔
      (∃ x ∈ a, ∃ y ∈ b, c.holds x y = true) ∧ ∃ x ∈ a, ∃ y ∈ b, c.holds x y = false) ∧
    (c.range a b).logicalNot = .ok (c.opposite.range a b) ∧
    (c.opposite.range a b).logicalNot = .ok (c.range a b) ∧
    c.swapped.range b a = c.range a b := by
  refine ⟨range_eq_true_iff.trans always_iff, range_eq_false_iff.trans never_iff, ?_,
    c.logicalNot_range a b, ?_, c.range_swapped a b⟩
  · rw [range_eq_any_iff, Bool.eq_false_iff, Bool.eq_false_iff, Ne, Ne, always_iff,
      never_iff, and_comm]
    push Not
    simp only [Bool.not_eq_false, Bool.not_eq_true]
  · rw [logicalNot_range, opposite_opposite]

end Comparison

end RangeTyping
