/-!
# Locations and identifiers of values

A location is a place in a source file.  Values, branch targets and modules are told apart by
numbers; the number zero marks a value that nobody reads.
-/

namespace RangeTyping

/-- A place in a source file; lines and columns count from one. -/
structure Location where
  line : Nat
  column : Nat
  file : String
deriving DecidableEq, Repr

/-- The location written as `line:column`. -/
def Location.text (l : Location) : String := s!"{l.line}:{l.column}"

/-- The identity of a value. -/
structure ValueId where
  index : Nat
deriving DecidableEq, Repr

namespace ValueId

/-- The identity of every value that is never read. -/
def unread : ValueId := ⟨0⟩

/-- Whether the value is never read. -/
def isUnread (v : ValueId) : Bool := v == unread

/-- The identity as it is written in messages. -/
def text (v : ValueId) : String := if v.isUnread then "none" else toString v.index

end ValueId

/-- The identity of a branch target. -/
structure PointId where
  index : Nat
deriving DecidableEq, Repr

end RangeTyping
