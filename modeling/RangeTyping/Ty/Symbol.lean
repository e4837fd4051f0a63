import RangeTyping.Ty.Store

/-!
# Symbols

The symbol of a type is the text by which a backend tells functions of one name apart.  Qualifiers
come first (`M`, `R`), then the type: a scalar's name, `F` arguments `_` result, `P` pointee,
`A` count `_` element, `S` length name.  Names are preceded by their length in bytes.

An anonymous struct is told apart by its members.  One that reaches itself ends in `S0R` at the
struct that is still open, and one that is not defined is `S0I`.  Structs nest at most as deep as
there are structs, which is the fuel that `Ty.symbol` starts with.
-/

namespace RangeTyping

/-- A name after its length in bytes. -/
def sized (name : String) : String := toString name.utf8ByteSize ++ name

namespace Ty

/-- How the qualifiers are written before a type. -/
def flagsSymbol (f : Flags) : String :=
  (if f.mutable then "M" else "") ++ (if f.reference then "R" else "")

mutual
/-- The symbol of a type, where `struct` writes structs. -/
def symbolWith (struct : StructId → String) : Ty → String
  | .scalar f s => flagsSymbol f ++ s.name
  | .function f as r =>
    flagsSymbol f ++ "F" ++ symbolsWith struct as ++ "_" ++ symbolWith struct r
  | .pointer f t => flagsSymbol f ++ "P" ++ symbolWith struct t
  | .array f t n => flagsSymbol f ++ s!"A{n}_" ++ symbolWith struct t
  | .struct f i => flagsSymbol f ++ struct i

/-- The symbols of several types, one after another. -/
def symbolsWith (struct : StructId → String) : List Ty → String
  | [] => ""
  | t :: ts => symbolWith struct t ++ symbolsWith struct ts
end

end Ty

/-- The members of an anonymous struct, each as its name and the symbol of its type. -/
def Member.symbolsWith (type : Ty → String) : List Member → String
  | [] => ""
  | m :: ms => sized m.name ++ type m.type ++ symbolsWith type ms

/-- The symbol of a struct inside the anonymous structs `outer`. -/
def StructStore.symbol (S : StructStore) :
    (fuel : Nat) → (outer : List StructId) → StructId → String
  | 0, _, _ => ""
  | fuel + 1, outer, i =>
    match S.name? i, S.layout? i with
    | some name, _ => "S" ++ sized name
    | none, layout =>
      if outer.contains i then "S0R"
      else
        match layout with
        | none => "S0I"
        | some l =>
          s!"S0{l.members.length}_" ++
            Member.symbolsWith (Ty.symbolWith (S.symbol fuel (i :: outer))) l.members

/-- **The symbol of a type.** -/
def Ty.symbol (S : StructStore) (t : Ty) : String := t.symbolWith (S.symbol (S.size + 1) [])

end RangeTyping
