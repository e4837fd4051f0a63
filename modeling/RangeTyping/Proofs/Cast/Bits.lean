import Mathlib
import RangeTyping.Proofs.Range.Conversion

/-!
# Operations on bits and rules on ranges agree

A builtin conversion is written down twice: as the operation that the backend performs on the bits
of a number, and as the rule that computes the range of the converted numbers.  The operation is
picked by comparing sizes and signs, the rule wraps the bounds of the range.  Nothing but a proof
keeps the two together.

For each of the 58 conversions between integers, and between the character and the unsigned integer
of its size, the operation suits the two scalars (`CastOp.Suits`), turns every number into the value
of the destination that is congruent to it, and this value lies in the converted range
(`Builtins.casts_act_mem_range`).  A negative number that becomes a wider unsigned one is no
exception: its bits are filled up with the sign bit first and read without a sign afterwards.
-/

namespace RangeTyping

/-- **The operation is meant for the two scalars**: it narrows, widens or keeps the width as it
should, and the sign bit is filled in exactly for numbers that have a sign. -/
def CastOp.Suits (op : CastOp) (a b : Scalar) : Prop :=
  match op with
  | .noOp => b.bits = a.bits ∧ b.isSigned = a.isSigned
  | .changeSign => b.bits = a.bits ∧ b.isSigned ≠ a.isSigned
  | .truncate => b.bits < a.bits
  | .expandSigned => a.bits < b.bits ∧ a.isSigned = true
  | .expandUnsigned => a.bits < b.bits ∧ a.isSigned = false
  | .dereference => False

/-- What a conversion has to do with a number of the scalar `a`: its operation makes it the value of
`b` that is congruent to it, and this value lies in the range that its rule computes. -/
structure Cast.Agrees (c : Cast) (a b : Scalar) : Prop where
  source : c.source = .ofScalar a
  destination : c.destination = .ofScalar b
  suits : c.op.Suits a b
  holds : ∀ v, a.Holds v → b.Holds (c.op.act a b v)
  modEq : ∀ v, a.Holds v → c.op.act a b v ≡ v [ZMOD 2 ^ b.bits]
  mem_range : ∀ (r : ValueRange) (implicit : Bool),
    ∃ q, c.transform c.source c.destination r implicit = .ok (some q) ∧ q.Of b ∧
      ∀ v ∈ r, a.Holds v → c.op.act a b v ∈ q

namespace Cast

variable {a b : Scalar} {c : Cast}

/-- **Operation and rule agree if the operation wraps** the numbers into the destination. -/
theorem agrees_of_act (hb : b.Sized) (hbi : b.isIntegral = true) (hsource : c.source = .ofScalar a)
    (hdestination : c.destination = .ofScalar b) (htransform : c.transform = .integer)
    (hsuits : c.op.Suits a b) (hact : ∀ v, a.Holds v → c.op.act a b v = b.wrap v) :
    c.Agrees a b where
  source := hsource
  destination := hdestination
  suits := hsuits
  holds v hv := by
    rw [hact v hv]
    exact b.holds_wrap v
  modEq v hv := by
    rw [hact v hv]
    exact ((Scalar.holds_and_modEq_iff hb hbi).2 rfl).2
  mem_range r implicit := by
    -- the range that comes out holds the wrapped values
    obtain ⟨q, hq⟩ := Scalar.convert_total hb (Scalar.kind_of_isIntegral hbi).2 r
    obtain ⟨hof, hmem⟩ := Scalar.convert_ok hb hbi hq
    refine ⟨q, ?_, hof, fun v hv hholds => ?_⟩
    · rw [htransform, hdestination]
      show some <$> b.convert r = _
      rw [hq]
      rfl
    · rw [hact v hholds]
      exact hmem v hv

end Cast

namespace BuiltinTypes

variable {cookie : Registration → Nat} {a b : Scalar}

/-- An integer is as wide as its alignment. -/
theorem alignment_of_integer (h : a ∈ (ofBackend cookie).integers) : a.alignment = a.size := by
  simp only [integers, List.mem_cons, List.not_mem_nil, or_false] at h
  rcases h with rfl | rfl | rfl | rfl | rfl | rfl | rfl | rfl <;> rfl

/-- Two integers of one size differ in their signs. -/
theorem isSigned_ne_of_size_eq (ha : a ∈ (ofBackend cookie).integers)
    (hb : b ∈ (ofBackend cookie).integers) (hne : a ≠ b) (hsize : b.size = a.size) :
    b.isSigned ≠ a.isSigned := by
  intro hsign
  have hkind : ∀ {s : Scalar}, s.isInteger = true →
      s.kind = if s.isSigned then .signedInt else .unsignedInt := by
    intro s hs
    rcases hk : s.kind with _ | _ | _ | _ | _ <;>
      simp [Scalar.isInteger, Scalar.isSigned, hk] at hs ⊢
  refine hne (eq_of_same (mem_all_of_integer ha) (mem_all_of_integer hb) ?_)
  rw [same_iff_shape, shape, shape, alignment_of_integer ha, alignment_of_integer hb,
    hkind (isInteger_of_mem ha), hkind (isInteger_of_mem hb), hsize, hsign]

/-- The operation between two integers suits them. -/
theorem suits_ofIntegers (ha : a ∈ (ofBackend cookie).integers)
    (hb : b ∈ (ofBackend cookie).integers) (hne : a ≠ b) : (Cast.ofIntegers a b).op.Suits a b := by
  have habits := (sized_of_integer ha).bits_eq
  have hbbits := (sized_of_integer hb).bits_eq
  rw [Cast.ofIntegers_op, CastOp.between]
  split
  · show b.bits < a.bits
    omega
  split
  · rename_i hsize
    exact ⟨by omega, isSigned_ne_of_size_eq ha hb hne hsize⟩
  split
  · rename_i hsigned
    exact ⟨by omega, hsigned⟩
  · rename_i hsigned
    exact ⟨by omega, Bool.eq_false_iff.2 hsigned⟩

theorem agrees_ofIntegers (ha : a ∈ (ofBackend cookie).integers)
    (hb : b ∈ (ofBackend cookie).integers) (hne : a ≠ b) : (Cast.ofIntegers a b).Agrees a b := by
  have hbi := isInteger_of_mem hb
  refine Cast.agrees_of_act (sized_of_integer hb) (by rw [Scalar.isIntegral, hbi, Bool.true_or])
    Cast.ofIntegers_source Cast.ofIntegers_destination Cast.ofIntegers_transform
    (suits_ofIntegers ha hb hne) fun v hv => ?_
  exact Cast.act_ofIntegers (sized_of_integer ha) (isInteger_of_mem ha) (sized_of_integer hb) hbi hv

/-- Between two unsigned scalars of one width the bits stay as they are. -/
theorem agrees_ofChar (hb : b.Sized) (hbi : b.isIntegral = true) (hbits : b.bits = a.bits)
    (hsigned : b.isSigned = a.isSigned) : (Cast.ofChar a b).Agrees a b := by
  refine Cast.agrees_of_act hb hbi rfl rfl rfl ⟨hbits, hsigned⟩ fun v _ => ?_
  show b.decode ((BitVec.ofInt a.bits v).setWidth b.bits) = b.wrap v
  rw [setWidth_ofInt_of_le hbits.le, Scalar.decode_ofInt hb hbi]

end BuiltinTypes

/-- **Every builtin conversion agrees with its rule on ranges.**  There are 58 conversions between
two of the builtin scalars; the operation of each suits its scalars, gives the value that is
congruent modulo two to the power of the destination's width, and stays in the range that the rule
computes. -/
theorem Builtins.casts_act_mem_range (cookie : Registration → Nat) :
    (prepare cookie).root.current.casts.casts.length = 58 ∧
    ∀ c ∈ (prepare cookie).root.current.casts.casts,
      ∃ a ∈ (prepare cookie).types.all, ∃ b ∈ (prepare cookie).types.all,
        a.isIntegral = true ∧ b.isIntegral = true ∧ c.Agrees a b := by
  refine ⟨rfl, fun c hc => ?_⟩
  have hintegral : ∀ {s : Scalar}, s ∈ (BuiltinTypes.ofBackend cookie).integers →
      s.isIntegral = true := fun hs => by
    rw [Scalar.isIntegral, BuiltinTypes.isInteger_of_mem hs, Bool.true_or]
  have hc8 : (BuiltinTypes.ofBackend cookie).c8 ∈ (BuiltinTypes.ofBackend cookie).all := by
    simp [BuiltinTypes.all]
  have hu8 : (BuiltinTypes.ofBackend cookie).u8 ∈ (BuiltinTypes.ofBackend cookie).all := by
    simp [BuiltinTypes.all]
  rcases BuiltinTypes.mem_casts hc with ⟨a, ha, b, hb, hne, rfl⟩ | rfl | rfl
  · exact ⟨a, BuiltinTypes.mem_all_of_integer ha, b, BuiltinTypes.mem_all_of_integer hb,
      hintegral ha, hintegral hb, BuiltinTypes.agrees_ofIntegers ha hb hne⟩
  · have hsized := BuiltinTypes.sized_of_mem hu8 (Scalar.kind_of_isIntegral rfl).2
    exact ⟨_, hc8, _, hu8, rfl, rfl, BuiltinTypes.agrees_ofChar hsized rfl rfl rfl⟩
  · have hsized := BuiltinTypes.sized_of_mem hc8 (Scalar.kind_of_isIntegral rfl).2
    exact ⟨_, hu8, _, hc8, rfl, rfl, BuiltinTypes.agrees_ofChar hsized rfl rfl rfl⟩

/-- The signed byte -1 becomes the greatest unsigned number of eight bytes, and this number is in
the range to which the range of -1 and 5 is converted. -/
theorem Builtins.casts_act_mem_range_minus_one :
    let types := BuiltinTypes.ofBackend fun _ => 0
    let r : ValueRange := ⟨.signed, -1, 5, by decide, by decide, by decide⟩
    (Cast.ofIntegers types.s8 types.u64).op = .expandSigned ∧
      CastOp.expandSigned.act types.s8 types.u64 (-1) = 18446744073709551615 ∧
      ∃ q, RangeTransform.integer (.ofScalar types.s8) (.ofScalar types.u64) r true = .ok (some q) ∧
        (18446744073709551615 : Int) ∈ q := by
  intro types r
  have hmem : Cast.ofIntegers types.s8 types.u64 ∈
      (prepare fun _ => 0).root.current.casts.casts := by
    show _ ∈ types.casts.casts
    simp only [CastTable.casts, List.mem_flatMap]
    refine ⟨_, List.mem_append_left _ (List.mem_map_of_mem (a := types.u64) ?_), ?_⟩
    · simp [BuiltinTypes.integers]
    · refine List.mem_append_left _ (List.mem_map_of_mem (List.mem_filter.2 ⟨?_, rfl⟩))
      simp [BuiltinTypes.integers]
  obtain ⟨a, -, b, -, -, -, hagrees⟩ := (casts_act_mem_range fun _ => 0).2 _ hmem
  obtain rfl : types.s8 = a := by
    injection hagrees.source.symm.trans Cast.ofIntegers_source with _ h
    exact h.symm
  obtain rfl : types.u64 = b := by
    injection hagrees.destination.symm.trans Cast.ofIntegers_destination with _ h
    exact h.symm
  have hop : (Cast.ofIntegers types.s8 types.u64).op = .expandSigned := rfl
  have hact : CastOp.expandSigned.act types.s8 types.u64 (-1) = 18446744073709551615 := by
    decide +kernel
  obtain ⟨q, hq, -, hin⟩ := hagrees.mem_range r true
  rw [Cast.ofIntegers_transform, Cast.ofIntegers_source, Cast.ofIntegers_destination] at hq
  refine ⟨hop, hact, q, hq, ?_⟩
  have hminus := hin (-1) (by decide) (by decide)
  rwa [hop, hact] at hminus

end RangeTyping
