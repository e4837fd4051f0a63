import RangeTyping.Range.Conversion

/-!
# Types

A type is a scalar, a function, a pointer, an array or a struct, and every type carries two
qualifier flags.  Structs may refer to themselves, so a type does not hold its structs: it names
them by their number in a store (`RangeTyping.Ty.Store`), and what needs a struct's name or members
takes the store as an argument.
-/

namespace RangeTyping

/-! ### Flags -/

/-- The qualifiers of a type. -/
structure Flags where
  /-- The value is the place where a value of the type is kept. -/
  reference : Bool
  /-- The value may be changed. -/
  mutable : Bool
deriving DecidableEq, Repr

namespace Flags

/-- No qualifier. -/
def none : Flags := ⟨false, false⟩

/-- The reference qualifier alone. -/
def ref : Flags := ⟨true, false⟩

/-- The mutable qualifier alone. -/
def mutOnly : Flags := ⟨false, true⟩

/-- Both qualifiers. -/
def refMut : Flags := ⟨true, true⟩

/-- The qualifiers that are in `a` or in `b`. -/
def union (a b : Flags) : Flags := ⟨a.reference || b.reference, a.mutable || b.mutable⟩

/-- The qualifiers of `a` that are not in `b`. -/
def difference (a b : Flags) : Flags := ⟨a.reference && !b.reference, a.mutable && !b.mutable⟩

/-- Whether every qualifier of `b` is in `a`. -/
def contains (a b : Flags) : Bool := (a.reference || !b.reference) && (a.mutable || !b.mutable)

/-- Whether there is no qualifier. -/
def isEmpty (a : Flags) : Bool := !a.reference && !a.mutable

end Flags

/-! ### Types -/

/-- The number of a struct in its store. -/
abbrev StructId : Type := Nat

/-- A type with its qualifiers. -/
inductive Ty where
  | scalar (flags : Flags) (scalar : Scalar)
  | function (flags : Flags) (arguments : List Ty) (result : Ty)
  | pointer (flags : Flags) (pointee : Ty)
  | array (flags : Flags) (element : Ty) (count : Nat)
  | struct (flags : Flags) (id : StructId)
deriving Repr

namespace Ty

/-- The unqualified type of the scalar `s`. -/
def ofScalar (s : Scalar) : Ty := .scalar .none s

/-- The unqualified pointer to `t`. -/
def pointerTo (t : Ty) : Ty := .pointer .none t

/-- The unqualified array of `count` values of type `t`. -/
def arrayOf (t : Ty) (count : Nat) : Ty := .array .none t count

/-- The unqualified function type. -/
def arrow (arguments : List Ty) (result : Ty) : Ty := .function .none arguments result

/-- The qualifiers. -/
def flags : Ty → Flags
  | scalar f _ | function f _ _ | pointer f _ | array f _ _ | struct f _ => f

/-- The type with other qualifiers. -/
def withFlags (f : Flags) : Ty → Ty
  | scalar _ s => scalar f s
  | function _ as r => function f as r
  | pointer _ t => pointer f t
  | array _ t n => array f t n
  | struct _ i => struct f i

/-- The type with the qualifiers `f` added. -/
def addFlags (f : Flags) (t : Ty) : Ty := t.withFlags (t.flags.union f)

/-- The type with the qualifiers `f` taken away. -/
def removeFlags (f : Flags) (t : Ty) : Ty := t.withFlags (t.flags.difference f)

/-- The type without qualifiers. -/
def unqualified (t : Ty) : Ty := t.withFlags .none

@[simp] theorem flags_withFlags (f : Flags) (t : Ty) : (t.withFlags f).flags = f := by
  cases t <;> rfl

@[simp] theorem withFlags_withFlags (f g : Flags) (t : Ty) :
    (t.withFlags f).withFlags g = t.withFlags g := by
  cases t <;> rfl

@[simp] theorem withFlags_flags (t : Ty) : t.withFlags t.flags = t := by
  cases t <;> rfl

/-- Whether the type is a reference. -/
def isReference (t : Ty) : Bool := t.flags.reference

/-- Whether the type is mutable. -/
def isMutable (t : Ty) : Bool := t.flags.mutable

/-- The scalar a scalar type is made of. -/
def asScalar? : Ty → Option Scalar
  | scalar _ s => some s
  | _ => none

/-- The number of a struct type. -/
def asStruct? : Ty → Option StructId
  | struct _ i => some i
  | _ => none

/-- The argument types and the result type of a function type. -/
def asFunction? : Ty → Option (List Ty × Ty)
  | function _ as r => some (as, r)
  | _ => none

/-- Whether the type is a pointer. -/
def isPointer : Ty → Bool
  | pointer _ _ => true
  | _ => false

/-- Whether the type is a function type. -/
def isFunction : Ty → Bool
  | function _ _ _ => true
  | _ => false

/-- Whether the type is the scalar without values. -/
def isVoid (t : Ty) : Bool := t.asScalar?.any (·.kind == .void)

/-- Whether the type is the scalar of truth values. -/
def isBool (t : Ty) : Bool := t.asScalar?.any (·.kind == .bool)

/-- Whether the type is an integer or a character. -/
def isIntegral (t : Ty) : Bool := t.asScalar?.any Scalar.isIntegral

/-- The backend's cookie, which only scalars have. -/
def cookie? (t : Ty) : Option Nat := t.asScalar?.map (·.cookie)

/-- The range of all values of the type, if its values have ranges. -/
def fullRange (t : Ty) : Except InternalError (Option ValueRange) :=
  match t.asScalar? with
  | some s => s.fullRange
  | none => .ok none

end Ty

end RangeTyping
