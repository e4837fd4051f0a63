import RangeTyping.Ty.Store

/-!
# Equality of types

Types are equal when they are built alike: the same constructors, qualifiers and counts, scalars
that are the same, and structs with the same name and members, all the way down.  Structs may be
cyclic, so "all the way down" has no end.  `StructStore.sameStruct` therefore keeps the pairs it is
in the middle of comparing; meeting one of them again adds nothing, since a difference would show
on the way that is already being looked at.

A store of `n` structs has `n * n` pairs, so no comparison nests deeper than that; this is the fuel
that `Ty.same` starts with.

`Ty.digest` is what a hash of a type is computed from.  Equal types have the same digest; it leaves
out the members of structs, so it does not change when a struct is defined.
-/

namespace RangeTyping

/-! ### Types built alike -/

mutual
/-- Whether two types are built alike, where `same` compares structs. -/
def Ty.sameWith (same : StructId → StructId → Bool) : Ty → Ty → Bool
  | .scalar f s, .scalar g t => f == g && s.same t
  | .function f as r, .function g bs q => f == g && sameWith same r q && sameAllWith same as bs
  | .pointer f t, .pointer g u => f == g && sameWith same t u
  | .array f t n, .array g u m => f == g && n == m && sameWith same t u
  | .struct f i, .struct g j => f == g && same i j
  | _, _ => false

/-- Whether two lists of types are built alike, where `same` compares structs. -/
def Ty.sameAllWith (same : StructId → StructId → Bool) : List Ty → List Ty → Bool
  | [], [] => true
  | t :: ts, u :: us => sameWith same t u && sameAllWith same ts us
  | _, _ => false
end

/-- Whether two lists of members have the same names and, by `same`, the same types. -/
def Member.sameAllWith (same : Ty → Ty → Bool) : List Member → List Member → Bool
  | [], [] => true
  | m :: ms, n :: ns => m.name == n.name && same m.type n.type && sameAllWith same ms ns
  | _, _ => false

/-! ### Structs -/

/-- Whether two structs are the same, given that the pairs in `assumed` are. -/
def StructStore.sameStruct (S : StructStore) :
    (fuel : Nat) → (assumed : List (StructId × StructId)) → StructId → StructId → Bool
  | 0, _, _, _ => true
  | fuel + 1, assumed, i, j =>
    if i == j then true
    else if S.name? i != S.name? j then false
    else if assumed.contains (i, j) then true
    else
      match S.layout? i, S.layout? j with
      | none, none => true
      | some a, some b =>
        Member.sameAllWith (Ty.sameWith (S.sameStruct fuel ((i, j) :: assumed))) a.members b.members
      | _, _ => false

/-- **Whether two types are equal.** -/
def Ty.same (S : StructStore) (a b : Ty) : Bool :=
  Ty.sameWith (S.sameStruct (S.size * S.size + 1) []) a b

/-- Whether two lists of types are equal. -/
def Ty.sameAll (S : StructStore) (as bs : List Ty) : Bool :=
  Ty.sameAllWith (S.sameStruct (S.size * S.size + 1) []) as bs

/-! ### Digests -/

/-- A piece of the data from which the hash of a type is computed. -/
inductive DigestItem where
  | tag (kind : String)
  | flags (f : Flags)
  | number (n : Nat)
  | kind (k : ScalarKind)
  | name (s : Option String)
deriving DecidableEq, Repr

mutual
/-- The data from which the hash of a type is computed. -/
def Ty.digest (S : StructStore) : Ty → List DigestItem
  | .scalar f s =>
    [.tag "scalar", .number s.size, .number s.alignment, .kind s.kind, .flags f]
  | .function f as r =>
    .tag "function" :: (digest S r ++ .number as.length :: digestAll S as ++ [.flags f])
  | .pointer f t => .tag "pointer" :: (digest S t ++ [.flags f])
  | .array f t n => .tag "array" :: (digest S t ++ [.number n, .flags f])
  | .struct f i => [.tag "struct", .name (S.name? i), .flags f]

/-- The data from which the hashes of several types are computed. -/
def Ty.digestAll (S : StructStore) : List Ty → List DigestItem
  | [] => []
  | t :: ts => digest S t ++ digestAll S ts
end

end RangeTyping
