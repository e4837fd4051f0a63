import RangeTyping.Cast.Basic
import RangeTyping.Ty.Equality

/-!
# The graph of conversions

Conversions are kept by destination, in tables.  A table is searched by equality of types, and its
first entry that matches holds all its conversions to that type; a conversion joins the entry that
matches when it is added.  A graph is a list of tables, all of which count.  On top of that, a graph
may decay: every plain type can then be reached from its qualified forms.
-/

namespace RangeTyping

/-- Conversions by destination, in the order of their first one. -/
abbrev CastTable : Type := List (Ty × List Cast)

namespace CastTable

/-- The conversions to `t`. -/
def find (S : StructStore) (t : Ty) : CastTable → List Cast
  | [] => []
  | (key, casts) :: rest => if key.same S t then casts else find S t rest

/-- Adds a conversion. -/
def insert (S : StructStore) (c : Cast) : CastTable → CastTable
  | [] => [(c.destination, [c])]
  | (key, casts) :: rest =>
    if key.same S c.destination then (key, casts ++ [c]) :: rest
    else (key, casts) :: insert S c rest

/-- All conversions of a table. -/
def casts (table : CastTable) : List Cast := table.flatMap (·.2)

end CastTable

/-- Where conversions are looked up. -/
structure CastGraph where
  tables : List CastTable
  /-- Whether qualified values become plain ones by themselves. -/
  decays : Bool

namespace CastGraph

/-- The graph of exactly the given conversions. -/
def ofList (casts : List Cast) : CastGraph := ⟨casts.map fun c => [(c.destination, [c])], false⟩

/-- **All conversions that end at `t`**, in order. -/
def castsTo (S : StructStore) (G : CastGraph) (t : Ty) : List Cast :=
  G.tables.flatMap (CastTable.find S t) ++
    (if G.decays && t.flags.isEmpty then Cast.decays t else [])

/-- A bound on the number of different types that conversions lead from: each conversion in a table
has one, and each plain type among these, and the destination, has three qualified forms. -/
def typeBound (G : CastGraph) : Nat := 4 * ((G.tables.flatMap CastTable.casts).length + 1)

end CastGraph

end RangeTyping
