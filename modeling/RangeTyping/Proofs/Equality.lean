import RangeTyping.Ty.Equality

/-!
# Types that are the same

Every type is the same as itself (`Ty.same_self`).  Scalar types that are the same may differ in
name, cookie and literal weight, but not in the format of their numbers (`Ty.format?_eq_of_same`).
-/

namespace RangeTyping

/-! ### Comparing a type with itself -/

mutual
theorem Ty.sameWith_self {same : StructId → StructId → Bool} (h : ∀ i, same i i = true) :
    ∀ t : Ty, Ty.sameWith same t t = true
  | .scalar f s => by simp [Ty.sameWith, Scalar.same]
  | .function f as r => by
    simp [Ty.sameWith, Ty.sameWith_self h r, Ty.sameAllWith_self h as]
  | .pointer f t => by simp [Ty.sameWith, Ty.sameWith_self h t]
  | .array f t n => by simp [Ty.sameWith, Ty.sameWith_self h t]
  | .struct f i => by simp [Ty.sameWith, h i]

theorem Ty.sameAllWith_self {same : StructId → StructId → Bool} (h : ∀ i, same i i = true) :
    ∀ ts : List Ty, Ty.sameAllWith same ts ts = true
  | [] => rfl
  | t :: ts => by simp [Ty.sameAllWith, Ty.sameWith_self h t, Ty.sameAllWith_self h ts]
end

theorem StructStore.sameStruct_self (S : StructStore) (fuel : Nat)
    (assumed : List (StructId × StructId)) (i : StructId) : S.sameStruct fuel assumed i i = true := by
  cases fuel with
  | zero => rfl
  | succ fuel => simp [StructStore.sameStruct]

@[simp] theorem Ty.same_self (S : StructStore) (t : Ty) : t.same S t = true :=
  Ty.sameWith_self (S.sameStruct_self _ _) t

@[simp] theorem Ty.sameAll_self (S : StructStore) (ts : List Ty) : Ty.sameAll S ts ts = true :=
  Ty.sameAllWith_self (S.sameStruct_self _ _) ts

/-! ### Formats of numbers -/

/-- What decides which numbers are of a scalar type: how many bytes they have and how these are
read. -/
def Ty.format? (t : Ty) : Option (Nat × ScalarKind) := t.asScalar?.map fun s => (s.size, s.kind)

@[simp] theorem Ty.format?_withFlags (f : Flags) (t : Ty) : (t.withFlags f).format? = t.format? := by
  cases t <;> rfl

theorem Ty.format?_eq_of_same {S : StructStore} {t u : Ty} (h : t.same S u = true) :
    t.format? = u.format? := by
  cases t <;> cases u
  case scalar.scalar f a g b =>
    simp only [Ty.same, Ty.sameWith, Scalar.same, Bool.and_eq_true, beq_iff_eq] at h
    show some (a.size, a.kind) = some (b.size, b.kind)
    rw [h.2.1.1, h.2.2]
  all_goals first
    | rfl
    | simp [Ty.same, Ty.sameWith] at h

end RangeTyping
