import RangeTyping.Ty.Basic

/-!
# The struct store

A struct is declared under a name, or under none, and later defined once: it is given its members
and their places.  The store keeps both, numbered in the order of declaration.  A struct that is
declared and not yet defined is incomplete; it has size zero.

With the store at hand every type has a size, an alignment and a text.  Sizes are 64-bit words; the
size of an array stops at the greatest one.
-/

namespace RangeTyping

/-! ### Structs -/

/-- A member of a struct and its distance from the struct's start. -/
structure Member where
  name : String
  type : Ty
  offset : Nat

/-- The members of a defined struct, in order, with the struct's size and alignment. -/
structure Layout where
  members : List Member
  size : Nat
  alignment : Nat

/-- A struct: its name, unless it is anonymous, and its layout, once it is defined. -/
structure StructBody where
  name : Option String
  layout : Option Layout

/-- All structs, by number. -/
structure StructStore where
  bodies : Array StructBody

namespace StructStore

/-- The store without structs. -/
def empty : StructStore := ⟨#[]⟩

/-- The number of structs. -/
def size (S : StructStore) : Nat := S.bodies.size

/-- Declares a struct, which is incomplete for now. -/
def declare (S : StructStore) (name : Option String) : StructStore × StructId :=
  (⟨S.bodies.push ⟨name, none⟩⟩, S.bodies.size)

/-- The name of a struct. -/
def name? (S : StructStore) (i : StructId) : Option String := S.bodies[i]?.bind (·.name)

/-- The layout of a struct that is defined. -/
def layout? (S : StructStore) (i : StructId) : Option Layout := S.bodies[i]?.bind (·.layout)

/-- Whether a struct is defined. -/
def isComplete (S : StructStore) (i : StructId) : Bool := (S.layout? i).isSome

/-- The name of a struct in messages. -/
def displayName (S : StructStore) (i : StructId) : String := (S.name? i).getD "<anonymous>"

/-- Gives a struct its layout. -/
def setLayout (S : StructStore) (i : StructId) (layout : Layout) : StructStore :=
  ⟨S.bodies.modify i fun body => { body with layout := some layout }⟩

end StructStore

/-! ### Sizes -/

/-- The size of a pointer, and its alignment. -/
def pointerSize : Nat := 8

/-- The greatest size. -/
def maxSize : Nat := 18446744073709551615

namespace Ty

/-- The size in bytes: zero for the scalar without values and for incomplete structs. -/
def size (S : StructStore) : Ty → Nat
  | scalar _ s => s.size
  | function _ _ _ | pointer _ _ => pointerSize
  | array _ t n => min (size S t * n) maxSize
  | struct _ i => ((S.layout? i).map (·.size)).getD 0

/-- The alignment in bytes. -/
def alignment (S : StructStore) : Ty → Nat
  | scalar _ s => s.alignment
  | function _ _ _ | pointer _ _ => pointerSize
  | array _ t _ => alignment S t
  | struct _ i => ((S.layout? i).map (·.alignment)).getD 1

/-! ### Text -/

/-- How the qualifiers are written after a type. -/
def flagsText (f : Flags) : String :=
  (if f.mutable then " mut" else "") ++ (if f.reference then " ref" else "")

mutual
/-- The type as it is written in messages. -/
def text (S : StructStore) : Ty → String
  | scalar f s => s.name ++ flagsText f
  | function f as r =>
    "(" ++ String.intercalate "," (texts S as) ++ ")->" ++ text S r ++ flagsText f
  | pointer f t => text S t ++ "@" ++ flagsText f
  | array f t n => text S t ++ s!"[{n}]" ++ flagsText f
  | struct f i =>
    "Struct " ++ S.displayName i ++ (if S.isComplete i then "" else "(incomplete)") ++ flagsText f

/-- The types of a list as they are written in messages. -/
def texts (S : StructStore) : List Ty → List String
  | [] => []
  | t :: ts => text S t :: texts S ts
end

end Ty

end RangeTyping
