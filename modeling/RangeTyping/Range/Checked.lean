import RangeTyping.Failure

/-!
# Checked construction of ranges

The two ways to make a range out of computed bounds: `ValueRange.ofWords` from two words, and
`ValueRange.hull` from two ranges.  Both refuse with an internal error what no caller may ask for.
-/

namespace RangeTyping.ValueRange

/-- The range from `a` to `b`, each cut to a word of the representation. -/
def ofWords (s : Signedness) (a b : Int) : Except InternalError ValueRange :=
  if h : s.wrap a ≤ s.wrap b then
    .ok ⟨s, s.wrap a, s.wrap b, h, s.least_le_wrap a, s.wrap_le_greatest b⟩
  else
    .error (.rangeOrder s (s.wrap a) (s.wrap b))

/-- **Bounds that are words in order make the range between them.** -/
theorem ofWords_of_le {s : Signedness} {a b : Int} (hl : s.least ≤ a) (hab : a ≤ b)
    (hg : b ≤ s.greatest) : ofWords s a b = .ok ⟨s, a, b, hab, hl, hg⟩ := by
  have ha : s.wrap a = a := Signedness.wrap_of_bounds hl (by omega)
  have hb : s.wrap b = b := Signedness.wrap_of_bounds (by omega) hg
  simp only [ofWords, ha, hb, hab, dite_true]

/-- The smallest range that contains both; they must share a representation. -/
def hull (a b : ValueRange) : Except InternalError ValueRange :=
  if h : a.signedness = b.signedness then
    .ok
      { signedness := a.signedness
        lo := min a.lo b.lo
        hi := max a.hi b.hi
        lo_le_hi := by have := a.lo_le_hi; omega
        least_le_lo := by
          have ha := a.least_le_lo
          have hb := b.least_le_lo
          rw [← h] at hb
          omega
        hi_le_greatest := by
          have ha := a.hi_le_greatest
          have hb := b.hi_le_greatest
          rw [← h] at hb
          omega }
  else
    .error (.hullMismatch a b)

end RangeTyping.ValueRange
