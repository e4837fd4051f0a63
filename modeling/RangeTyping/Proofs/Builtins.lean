import Mathlib
import RangeTyping.Builtins
import RangeTyping.Proofs.Range.Soundness

/-!
# Facts about the builtins

The builtin scalars differ in size, alignment or kind, so `Scalar.same` is equality on them
(`eq_of_same`).  What the backend does for a conversion between two integers depends on their sizes
and on the sign of the source (`CastOp.between`), and is always to wrap the number into the
destination (`act_ofIntegers`), which is also what the range rule assumes.

The table of conversions holds those between two integers and, both ways, that between the character
and the unsigned integer of its size (`mem_casts`).
-/

namespace RangeTyping

namespace BuiltinTypes

variable {cookie : Registration → Nat} {a b : Scalar}

/-- What `Scalar.same` looks at. -/
def shape (s : Scalar) : Nat × Nat × ScalarKind := (s.size, s.alignment, s.kind)

theorem same_iff_shape : a.same b = true ↔ shape a = shape b := by
  simp [Scalar.same, shape, and_assoc]

theorem nodup_shapes (cookie : Registration → Nat) :
    ((ofBackend cookie).all.map shape).Nodup := by
  show ([(0, 1, .void), (1, 1, .bool), (1, 1, .signedInt), (2, 2, .signedInt), (4, 4, .signedInt),
    (8, 8, .signedInt), (1, 1, .unsignedInt), (2, 2, .unsignedInt), (4, 4, .unsignedInt),
    (8, 8, .unsignedInt), (1, 1, .char)] : List (Nat × Nat × ScalarKind)).Nodup
  decide

/-- **Builtin scalars that are the same are equal.** -/
theorem eq_of_same (ha : a ∈ (ofBackend cookie).all) (hb : b ∈ (ofBackend cookie).all)
    (h : a.same b = true) : a = b :=
  List.inj_on_of_nodup_map (nodup_shapes cookie) ha hb (same_iff_shape.1 h)

theorem mem_all_of_integer (h : a ∈ (ofBackend cookie).integers) : a ∈ (ofBackend cookie).all := by
  simp only [integers, all, List.mem_cons, List.not_mem_nil, or_false] at h ⊢
  tauto

theorem bool_mem_all : (ofBackend cookie).bool ∈ (ofBackend cookie).all := by
  simp [all]

theorem void_mem_all : (ofBackend cookie).void ∈ (ofBackend cookie).all := by
  simp [all]

/-- A builtin scalar with values has one to eight bytes. -/
theorem sized_of_mem (h : a ∈ (ofBackend cookie).all) (hv : a.kind ≠ .void) : a.Sized := by
  simp only [all, List.mem_cons, List.not_mem_nil, or_false] at h
  rcases h with rfl | rfl | rfl | rfl | rfl | rfl | rfl | rfl | rfl | rfl | rfl <;>
    simp_all [Scalar.Sized, ofBackend]

theorem isInteger_of_mem (h : a ∈ (ofBackend cookie).integers) : a.isInteger = true := by
  simp only [integers, List.mem_cons, List.not_mem_nil, or_false] at h
  rcases h with rfl | rfl | rfl | rfl | rfl | rfl | rfl | rfl <;> rfl

/-- An integer among the builtin scalars is one of the integers. -/
theorem mem_integers_of_all (h : a ∈ (ofBackend cookie).all) (hi : a.isInteger = true) :
    a ∈ (ofBackend cookie).integers := by
  simp only [all, List.mem_cons, List.not_mem_nil, or_false] at h
  rcases h with rfl | rfl | rfl | rfl | rfl | rfl | rfl | rfl | rfl | rfl | rfl <;>
    first
    | exact absurd hi Bool.false_ne_true
    | simp [integers]

theorem sized_of_integer (h : a ∈ (ofBackend cookie).integers) : a.Sized := by
  refine sized_of_mem (mem_all_of_integer h) fun hk => ?_
  have := isInteger_of_mem h
  simp [Scalar.isInteger, hk] at this

end BuiltinTypes

/-! ### Conversions of bits -/

namespace Scalar

variable {s : Scalar}

/-- The value congruent to `v` is the only one of the scalar. -/
theorem wrap_eq_of_emod_eq {v z : Int} (hz : s.Holds z) (h : v % s.modulus = z % s.modulus) :
    s.wrap v = z := by
  have hsub : (v - s.least) % s.modulus = (z - s.least) % s.modulus := by
    rw [Int.sub_emod, h, ← Int.sub_emod]
  rw [← wrap_of_holds hz, wrap, wrap, hsub]

theorem Sized.isSigned_bounds (hs : s.Sized) (h : s.isSigned = true) :
    s.least = -(2 ^ (s.bits - 1) : Int) ∧ s.greatest = (2 ^ (s.bits - 1) : Int) - 1 := by
  have hk := isSigned_iff.1 h
  rw [least_of_signed hk, greatest_of_signed hk, hs.magnitudeBits_eq, hs.bits_eq]
  exact ⟨rfl, rfl⟩

/-- **Reading the bits of a number wraps it into the scalar.** -/
theorem decode_ofInt (hs : s.Sized) (hi : s.isIntegral) (v : Int) :
    s.decode (BitVec.ofInt s.bits v) = s.wrap v := by
  have hmod := hs.modulus_eq hi
  have hbits : 0 < s.bits := by
    have := hs.bits_eq
    have := hs.1
    omega
  symm
  unfold decode
  split
  · -- signed: the bits give the number between the bounds that is congruent to `v`
    rename_i hsig
    obtain ⟨hl, hg⟩ := hs.isSigned_bounds hsig
    have h1 := BitVec.le_toInt (BitVec.ofInt s.bits v)
    have h2 := BitVec.toInt_lt (x := BitVec.ofInt s.bits v)
    refine wrap_eq_of_emod_eq ⟨by omega, by omega⟩ ?_
    rw [BitVec.toInt_ofInt, hmod]
    exact_mod_cast (Int.bmod_emod (x := v) (m := 2 ^ s.bits)).symm
  · -- unsigned: the least number is zero, and the bits give the remainder
    rename_i hsig
    have hne : s.kind ≠ .signedInt := fun hk => hsig (isSigned_iff.2 hk)
    have hu : s.kind = .unsignedInt ∨ s.kind = .char := by
      simpa [isIntegral, isInteger, hne] using hi
    have hg : s.greatest = s.modulus - 1 := by
      have := least_of_unsigned hne
      unfold modulus
      omega
    have hnat : ((BitVec.ofInt s.bits v).toNat : Int) = v % 2 ^ s.bits := by
      rw [BitVec.toNat_ofInt]
      push_cast
      rw [Int.toNat_of_nonneg (Int.emod_nonneg _ (by positivity))]
    rw [hnat, ← hmod]
    have h0 := Int.emod_nonneg v (ne_of_gt s.modulus_pos)
    have h1 := Int.emod_lt_of_pos v s.modulus_pos
    refine wrap_eq_of_emod_eq ⟨?_, ?_⟩ (Int.emod_emod_of_dvd v (dvd_refl _)).symm
    · rw [least_of_unsigned hne]
      exact h0
    · rw [hg]
      omega

end Scalar

/-- Keeping the low bits of a number keeps what it is modulo the smaller width. -/
theorem setWidth_ofInt_of_le {m n : Nat} (h : n ≤ m) (v : Int) :
    (BitVec.ofInt m v).setWidth n = BitVec.ofInt n v := by
  have hdvd : (2 ^ n : Int) ∣ 2 ^ m := pow_dvd_pow 2 h
  apply BitVec.eq_of_toNat_eq
  rw [BitVec.toNat_setWidth, BitVec.toNat_ofInt, BitVec.toNat_ofInt]
  zify
  rw [Int.toNat_of_nonneg (Int.emod_nonneg _ (by positivity)),
    Int.toNat_of_nonneg (Int.emod_nonneg _ (by positivity)), Int.emod_emod_of_dvd v hdvd]

/-- Filling up with zeros keeps a number that is not negative. -/
theorem setWidth_ofInt_of_nonneg {m n : Nat} (h : m ≤ n) {v : Int} (h0 : 0 ≤ v) (h1 : v < 2 ^ m) :
    (BitVec.ofInt m v).setWidth n = BitVec.ofInt n v := by
  have hle : (2 ^ m : Int) ≤ 2 ^ n := pow_le_pow_right₀ (by norm_num) h
  apply BitVec.eq_of_toNat_eq
  rw [BitVec.toNat_setWidth_of_le h, BitVec.toNat_ofInt, BitVec.toNat_ofInt, Nat.cast_pow,
    Nat.cast_pow, Nat.cast_ofNat, Int.emod_eq_of_lt h0 h1, Int.emod_eq_of_lt h0 (by omega)]

/-- Filling up with the sign bit keeps a number that fits. -/
theorem signExtend_ofInt {m n : Nat} (hm : 0 < m) {v : Int} (h0 : -(2 ^ (m - 1) : Int) ≤ v)
    (h1 : v < 2 ^ (m - 1)) : (BitVec.ofInt m v).signExtend n = BitVec.ofInt n v := by
  unfold BitVec.signExtend
  rw [BitVec.toInt_ofInt_eq_self hm h0 h1]

/-- The operation that turns numbers of the integer `a` into numbers of the integer `b`. -/
def CastOp.between (a b : Scalar) : CastOp :=
  if b.size < a.size then .truncate
  else if b.size = a.size then .changeSign
  else if a.isSigned then .expandSigned
  else .expandUnsigned

namespace Cast

variable {a b : Scalar}

@[simp] theorem ofIntegers_source : (ofIntegers a b).source = .ofScalar a := by
  by_cases hw : a.widensTo b = true
  · rw [ofIntegers, if_pos hw]
  · rw [ofIntegers, if_neg hw]

@[simp] theorem ofIntegers_destination : (ofIntegers a b).destination = .ofScalar b := by
  by_cases hw : a.widensTo b = true
  · rw [ofIntegers, if_pos hw]
  · rw [ofIntegers, if_neg hw]

@[simp] theorem ofIntegers_transform : (ofIntegers a b).transform = .integer := by
  by_cases hw : a.widensTo b = true
  · rw [ofIntegers, if_pos hw]
  · rw [ofIntegers, if_neg hw]

theorem ofIntegers_op : (ofIntegers a b).op = .between a b := by
  unfold CastOp.between
  by_cases hw : a.widensTo b = true
  · have hlt : a.size < b.size := by
      simp only [Scalar.widensTo, Bool.and_eq_true, decide_eq_true_eq] at hw
      exact hw.1
    rw [if_neg (by omega), if_neg (by omega), ofIntegers, if_pos hw]
  · rw [ofIntegers, if_neg hw]

/-- **The backend wraps the number into the destination**, whichever operation the conversion
between two integers names. -/
theorem act_ofIntegers (ha : a.Sized) (hai : a.isInteger) (hb : b.Sized) (hbi : b.isInteger)
    {v : Int} (hv : a.Holds v) : (ofIntegers a b).op.act a b v = b.wrap v := by
  have habits := ha.bits_eq
  have hbbits := hb.bits_eq
  have hapos := ha.1
  obtain ⟨hv1, hv2⟩ := hv
  have hint : ∀ {c : Scalar}, c.isInteger → c.isIntegral := fun h => by
    rw [Scalar.isIntegral, h, Bool.true_or]
  -- in every case the bits become those of `v` in the destination
  suffices h : (ofIntegers a b).op.onBits b.bits (a.encode v) = BitVec.ofInt b.bits v by
    rw [CastOp.act, h, Scalar.decode_ofInt hb (hint hbi)]
  rw [ofIntegers_op, CastOp.between]
  split
  · exact setWidth_ofInt_of_le (by omega) v
  split
  · exact setWidth_ofInt_of_le (by omega) v
  split
  · rename_i hsig
    obtain ⟨hl, hg⟩ := ha.isSigned_bounds hsig
    exact signExtend_ofInt (by omega) (by omega) (by omega)
  · rename_i hsig
    have hleast := Scalar.least_of_unsigned fun hk => hsig (Scalar.isSigned_iff.2 hk)
    have hmod := ha.modulus_eq (hint hai)
    unfold Scalar.modulus at hmod
    exact setWidth_ofInt_of_nonneg (by omega) (by omega) (by omega)

end Cast

/-! ### The table of conversions -/

/-- What is found in a table for a type belongs to an entry for that type. -/
theorem CastTable.mem_find {S : StructStore} {t : Ty} {c : Cast} {table : CastTable}
    (h : c ∈ table.find S t) : ∃ entry ∈ table, entry.1.same S t = true ∧ c ∈ entry.2 := by
  induction table with
  | nil => cases h
  | cons entry rest ih =>
    obtain ⟨key, casts⟩ := entry
    rw [find] at h
    split at h
    · rename_i hsame
      exact ⟨_, List.mem_cons_self .., hsame, h⟩
    · obtain ⟨other, hother, hfound⟩ := ih h
      exact ⟨other, List.mem_cons_of_mem _ hother, hfound⟩

namespace BuiltinTypes

variable {cookie : Registration → Nat} {c : Cast}

/-- **The builtin conversions**: between two integers, or between the character and the unsigned
integer of its size. -/
theorem mem_casts (h : c ∈ (ofBackend cookie).casts.casts) :
    (∃ a ∈ (ofBackend cookie).integers, ∃ b ∈ (ofBackend cookie).integers,
      a ≠ b ∧ c = .ofIntegers a b) ∨
      c = .ofChar (ofBackend cookie).c8 (ofBackend cookie).u8 ∨
      c = .ofChar (ofBackend cookie).u8 (ofBackend cookie).c8 := by
  have hu8 : (ofBackend cookie).u8 ∈ (ofBackend cookie).all := by simp [all]
  simp only [CastTable.casts, List.mem_flatMap, casts, List.mem_append, List.mem_map,
    List.mem_singleton] at h
  obtain ⟨entry, ⟨b, hb, rfl⟩ | rfl, hc⟩ := h
  · rcases List.mem_append.1 hc with hc | hc
    · obtain ⟨a, ha, rfl⟩ := List.mem_map.1 hc
      obtain ⟨ha, hdiffer⟩ := List.mem_filter.1 ha
      refine .inl ⟨a, ha, b, hb, ?_, rfl⟩
      rintro rfl
      simp [Scalar.same] at hdiffer
    · -- only the unsigned integer of its size comes of a character
      split at hc
      · rename_i hsame
        have hbu := eq_of_same (mem_all_of_integer hb) hu8 hsame
        rw [List.mem_singleton.1 hc, hbu]
        exact .inr (.inl rfl)
      · cases hc
  · exact .inr (.inr (List.mem_singleton.1 hc))

/-- Every entry of the table is for a scalar, and its conversions end there. -/
theorem entry_of_mem_casts {entry : Ty × List Cast} (h : entry ∈ (ofBackend cookie).casts) :
    ∃ b ∈ (ofBackend cookie).all, entry.1 = .ofScalar b ∧ ∀ c ∈ entry.2, c.destination = entry.1 := by
  have hc8 : (ofBackend cookie).c8 ∈ (ofBackend cookie).all := by simp [all]
  simp only [casts, List.mem_append, List.mem_map, List.mem_singleton] at h
  rcases h with ⟨b, hb, rfl⟩ | rfl
  · refine ⟨b, mem_all_of_integer hb, rfl, fun c hc => ?_⟩
    rcases List.mem_append.1 hc with hc | hc
    · obtain ⟨a, -, rfl⟩ := List.mem_map.1 hc
      exact Cast.ofIntegers_destination
    · split at hc
      · rw [List.mem_singleton.1 hc]
        rfl
      · cases hc
  · refine ⟨_, hc8, rfl, fun c hc => ?_⟩
    rw [List.mem_singleton.1 hc]
    rfl

/-- What is found in the table for a type ends at a scalar that is the same type. -/
theorem mem_casts_of_find {S : StructStore} {t : Ty}
    (h : c ∈ CastTable.find S t (ofBackend cookie).casts) :
    c ∈ (ofBackend cookie).casts.casts ∧ ∃ b ∈ (ofBackend cookie).all,
      c.destination = .ofScalar b ∧ c.destination.same S t = true := by
  obtain ⟨entry, hentry, hsame, hc⟩ := CastTable.mem_find h
  obtain ⟨b, hb, hkey, hdest⟩ := entry_of_mem_casts hentry
  have hd := hdest c hc
  exact ⟨List.mem_flatMap.2 ⟨entry, hentry, hc⟩, b, hb, hd.trans hkey, hd ▸ hsame⟩

end BuiltinTypes

end RangeTyping
