import Mathlib
import RangeTyping.Proofs.Builtins

/-!
# The setting of an analysis

While the bodies of a module are analysed, the builtin scalars, the structs of the module and the
functions that can be called do not change.  A `Setting` holds them, together with what makes the
types of the setting well behaved: the structs have different names, and signatures mention only
types of the setting.

The types of the setting (`Setting.Known`) are built from its scalars and its structs, and have
qualifiers at their top only; without those they are *plain*.  On known types the comparison
`Ty.same` is equality (`Setting.eq_of_same`).
-/

namespace RangeTyping

/-! ### Known and plain types -/

/-- The type is built from the builtin scalars of `types` and from structs that are `declared`, and
has qualifiers at its top only. -/
def Ty.KnownIn (types : BuiltinTypes) (declared : StructId → Prop) : Ty → Prop
  | .scalar _ s => s ∈ types.all
  | .pointer _ t | .array _ t _ => KnownIn types declared t ∧ t.flags = .none
  | .struct _ i => declared i
  | .function _ _ _ => False

/-- The type is known and has no qualifiers. -/
def Ty.PlainIn (types : BuiltinTypes) (declared : StructId → Prop) (t : Ty) : Prop :=
  t.KnownIn types declared ∧ t.flags = .none

/-- What is fixed while the body of a function is analysed. -/
structure Setting where
  cookie : Registration → Nat
  structs : StructStore
  /-- The structs of the module. -/
  declared : StructId → Prop
  /-- The functions of the module: symbol, parameter types and result type. -/
  callable : String → List Ty → Ty → Prop
  /-- The result type of the function under analysis. -/
  returnType : Ty
  name_inj : ∀ i j, declared i → declared j → structs.name? i = structs.name? j → i = j
  plain_of_callable : ∀ f as r, callable f as r →
    (∀ a ∈ as, a.PlainIn (.ofBackend cookie) declared) ∧ r.PlainIn (.ofBackend cookie) declared
  returnType_plain : returnType.PlainIn (.ofBackend cookie) declared

namespace Setting

variable {X : Setting} {t u : Ty} {f g : Flags} {s : Scalar}

/-- The builtin scalars. -/
def types (X : Setting) : BuiltinTypes := .ofBackend X.cookie

/-- The type is one of the setting. -/
def Known (X : Setting) (t : Ty) : Prop := t.KnownIn X.types X.declared

/-- The type is one of the setting and has no qualifiers. -/
def Plain (X : Setting) (t : Ty) : Prop := t.PlainIn X.types X.declared

theorem Plain.known (h : X.Plain t) : X.Known t := h.1

theorem Plain.flags (h : X.Plain t) : t.flags = .none := h.2

@[simp] theorem known_withFlags : X.Known (t.withFlags f) ↔ X.Known t := by
  cases t <;> rfl

theorem known_addFlags : X.Known (t.addFlags f) ↔ X.Known t := known_withFlags

theorem plain_unqualified (h : X.Known t) : X.Plain t.unqualified :=
  ⟨known_withFlags.2 h, Ty.flags_withFlags _ _⟩

theorem Plain.unqualified_eq (h : X.Plain t) : t.unqualified = t := by
  rw [Ty.unqualified, ← h.flags, Ty.withFlags_flags]

theorem plain_ofScalar (h : s ∈ X.types.all) : X.Plain (.ofScalar s) := ⟨h, rfl⟩

theorem plain_boolTy (X : Setting) : X.Plain X.types.boolTy :=
  plain_ofScalar BuiltinTypes.bool_mem_all

theorem plain_voidTy (X : Setting) : X.Plain X.types.voidTy :=
  plain_ofScalar BuiltinTypes.void_mem_all

theorem plain_pointerTo : X.Plain (.pointerTo t) ↔ X.Plain t :=
  ⟨fun h => h.1, fun h => ⟨h, rfl⟩⟩

theorem plain_arrayOf {n : Nat} : X.Plain (.arrayOf t n) ↔ X.Plain t :=
  ⟨fun h => h.1, fun h => ⟨h, rfl⟩⟩

theorem Known.mem_all (h : X.Known t) (hs : t.asScalar? = some s) : s ∈ X.types.all := by
  cases t <;> cases hs
  exact h

/-- A plain scalar type is the plain type of its scalar. -/
theorem Plain.eq_ofScalar (h : X.Plain t) (hs : t.asScalar? = some s) : t = .ofScalar s := by
  cases t <;> cases hs
  rw [Ty.ofScalar, ← h.flags]
  rfl

/-! ### Equality of known types -/

/-- Types built alike are equal, if the structs in them are. -/
theorem eq_of_sameWith {types : BuiltinTypes} {declared : StructId → Prop}
    {same : StructId → StructId → Bool}
    (hscalar : ∀ a ∈ types.all, ∀ b ∈ types.all, a.same b = true → a = b)
    (hstruct : ∀ i j, declared i → declared j → same i j = true → i = j) :
    ∀ t u : Ty, t.KnownIn types declared → u.KnownIn types declared →
      Ty.sameWith same t u = true → t = u
  | .scalar f a, .scalar g b, ht, hu, h => by
    simp only [Ty.sameWith, Bool.and_eq_true, beq_iff_eq] at h
    rw [h.1, hscalar a ht b hu h.2]
  | .pointer f t, .pointer g u, ht, hu, h => by
    simp only [Ty.sameWith, Bool.and_eq_true, beq_iff_eq] at h
    rw [h.1, eq_of_sameWith hscalar hstruct t u ht.1 hu.1 h.2]
  | .array f t n, .array g u m, ht, hu, h => by
    simp only [Ty.sameWith, Bool.and_eq_true, beq_iff_eq] at h
    rw [h.1.1, h.1.2, eq_of_sameWith hscalar hstruct t u ht.1 hu.1 h.2]
  | .struct f i, .struct g j, ht, hu, h => by
    simp only [Ty.sameWith, Bool.and_eq_true, beq_iff_eq] at h
    rw [h.1, hstruct i j ht hu h.2]
  | .function _ _ _, _, ht, _, _ => False.elim ht
  | .scalar _ _, .pointer _ _, _, _, h | .scalar _ _, .array _ _ _, _, _, h
  | .scalar _ _, .struct _ _, _, _, h | .scalar _ _, .function _ _ _, _, _, h
  | .pointer _ _, .scalar _ _, _, _, h | .pointer _ _, .array _ _ _, _, _, h
  | .pointer _ _, .struct _ _, _, _, h | .pointer _ _, .function _ _ _, _, _, h
  | .array _ _ _, .scalar _ _, _, _, h | .array _ _ _, .pointer _ _, _, _, h
  | .array _ _ _, .struct _ _, _, _, h | .array _ _ _, .function _ _ _, _, _, h
  | .struct _ _, .scalar _ _, _, _, h | .struct _ _, .pointer _ _, _, _, h
  | .struct _ _, .array _ _ _, _, _, h | .struct _ _, .function _ _ _, _, _, h => by
    simp [Ty.sameWith] at h

/-- Structs that are the same have the same name. -/
theorem name_eq_of_sameStruct {S : StructStore} {fuel : Nat} {i j : StructId}
    (h : S.sameStruct (fuel + 1) [] i j = true) : S.name? i = S.name? j := by
  rw [StructStore.sameStruct] at h
  split at h
  · rename_i hij
    rw [beq_iff_eq.1 hij]
  split at h
  · cases h
  · rename_i hname
    simpa using hname

/-- **Types of the setting that are the same are equal.** -/
theorem eq_of_same (ht : X.Known t) (hu : X.Known u) (h : t.same X.structs u = true) : t = u := by
  refine eq_of_sameWith (fun a ha b hb => BuiltinTypes.eq_of_same ha hb) ?_ t u ht hu h
  intro i j hi hj hsame
  exact X.name_inj i j hi hj (name_eq_of_sameStruct hsame)

end Setting

/-! ### Ranges of a type -/

/-- What a value of the type may have for a range: one of its scalar if it is a number, and none
otherwise. -/
def Ty.Admits (t : Ty) (r : Option ValueRange) : Prop :=
  match t.asScalar? with
  | some s => if s.kind = .void then r = none else ∃ q, r = some q ∧ q.Of s
  | none => r = none

namespace Ty

variable {t : Ty} {r : Option ValueRange} {f : Flags} {s : Scalar}

@[simp] theorem asScalar?_withFlags : (t.withFlags f).asScalar? = t.asScalar? := by
  cases t <;> rfl

@[simp] theorem isVoid_withFlags : (t.withFlags f).isVoid = t.isVoid := by
  simp [isVoid]

@[simp] theorem fullRange_withFlags : (t.withFlags f).fullRange = t.fullRange := by
  simp [fullRange]

@[simp] theorem admits_withFlags : (t.withFlags f).Admits r ↔ t.Admits r := by
  simp [Admits]

theorem admits_none (h : t.asScalar? = none) : t.Admits r ↔ r = none := by
  simp [Admits, h]

theorem admits_some (h : t.asScalar? = some s) (hv : s.kind ≠ .void) :
    t.Admits r ↔ ∃ q, r = some q ∧ q.Of s := by
  simp [Admits, h, hv]

theorem admits_of_isVoid (h : t.isVoid = true) : t.Admits r ↔ r = none := by
  unfold isVoid at h
  cases hs : t.asScalar? with
  | none => simp [hs] at h
  | some s =>
    have hk : s.kind = .void := by simpa [hs] using h
    simp [Admits, hs, hk]

/-- A type with values that have no range has no ranges. -/
theorem Admits.eq_none (h : t.Admits none) (h' : t.Admits r) : r = none := by
  cases hs : t.asScalar? with
  | none => exact (admits_none hs).1 h'
  | some s =>
    by_cases hv : s.kind = .void
    · simpa [Admits, hs, hv] using h'
    · obtain ⟨q, hq, -⟩ := (admits_some hs hv).1 h
      cases hq

/-- A range of a type is one of its scalar. -/
theorem Admits.of {q : ValueRange} (h : t.Admits (some q)) :
    ∃ s, t.asScalar? = some s ∧ s.kind ≠ .void ∧ q.Of s := by
  cases hs : t.asScalar? with
  | none =>
    rw [admits_none hs] at h
    cases h
  | some s =>
    by_cases hv : s.kind = .void
    · simp [Admits, hs, hv] at h
    · obtain ⟨p, hp, hof⟩ := (admits_some hs hv).1 h
      cases hp
      exact ⟨s, rfl, hv, hof⟩

end Ty

/-- **The full range of a type is a range of it.** -/
theorem Setting.Known.admits_fullRange {X : Setting} {t : Ty} (h : X.Known t)
    {r : Option ValueRange} (hr : t.fullRange = .ok r) : t.Admits r := by
  unfold Ty.fullRange at hr
  cases hs : t.asScalar? with
  | none =>
    rw [hs] at hr
    cases hr
    exact (Ty.admits_none hs).2 rfl
  | some s =>
    rw [hs] at hr
    have hmem := h.mem_all hs
    by_cases hv : s.kind = .void
    · have hnone : s.fullRange = .ok none := by simp [Scalar.fullRange, hv]
      cases hnone.symm.trans hr
      simp [Ty.Admits, hs, hv]
    · have hsized := BuiltinTypes.sized_of_mem hmem hv
      rcases Scalar.fullRange_ok hsized hr with ⟨hk, -⟩ | ⟨-, q, rfl, hof, -⟩
      · exact absurd hk hv
      · exact (Ty.admits_some hs hv).2 ⟨q, rfl, hof⟩

end RangeTyping
