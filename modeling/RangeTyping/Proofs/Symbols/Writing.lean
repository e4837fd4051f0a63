import Mathlib
import RangeTyping.Ty.Symbol
import RangeTyping.Proofs.Equality.Structural

/-!
# Writing a symbol ends

The symbol of a type is written from left to right.  The anonymous structs whose members are being
written are open, and one that is open is not entered again.  So structs nest at most as deep as
there are structs, however they refer to each other: writing ends for every store, with the symbol
of the type, and leaves open what was open (`Ty.writes_write`).
-/

namespace RangeTyping

/-! ### Writing -/

/-- Writes a symbol.  The state is the text so far and the anonymous structs that are open; there is
no state afterwards if writing has not ended. -/
abbrev Ty.Writer := StateT (String × List StructId) Option Unit

namespace Ty.Writer

/-- Appends a text. -/
def put (text : String) : Ty.Writer := modify fun s => (s.1 ++ text, s.2)

/-- Writes with the struct open. -/
def within (i : StructId) (w : Ty.Writer) : Ty.Writer := do
  modify fun s => (s.1, i :: s.2)
  w
  modify fun s => (s.1, s.2.tail)

/-- The writer ends: it appends the text and leaves open what was open. -/
def Writes (w : Ty.Writer) (outer : List StructId) (text : String) : Prop :=
  ∀ out, w (out, outer) = some ((), out ++ text, outer)

variable {w w' : Ty.Writer} {outer : List StructId} {i : StructId} {text text' : String}

theorem writes_put (text : String) : (put text).Writes outer text := fun _ => rfl

theorem Writes.seq (h : w.Writes outer text) (h' : w'.Writes outer text') :
    Writes (w >>= fun _ => w') outer (text ++ text') := by
  intro out
  show (w (out, outer)).bind (fun p => w' p.2) = some ((), out ++ (text ++ text'), outer)
  rw [h, Option.bind_some, h', String.append_assoc]

theorem Writes.within (h : w.Writes (i :: outer) text) : (within i w).Writes outer text := by
  intro out
  show (w (out, i :: outer)).bind (fun p => some ((), p.2.1, p.2.2.tail)) = _
  rw [h, Option.bind_some, List.tail_cons]

end Ty.Writer

open Ty.Writer (put within)

mutual
/-- Writes the symbol of a type, where `struct` writes structs. -/
def Ty.writeWith (struct : StructId → Ty.Writer) : Ty → Ty.Writer
  | .scalar f s => do
    put (Ty.flagsSymbol f)
    put s.name
  | .function f as r => do
    put (Ty.flagsSymbol f)
    put "F"
    Ty.writeAllWith struct as
    put "_"
    Ty.writeWith struct r
  | .pointer f t => do
    put (Ty.flagsSymbol f)
    put "P"
    Ty.writeWith struct t
  | .array f t n => do
    put (Ty.flagsSymbol f)
    put s!"A{n}_"
    Ty.writeWith struct t
  | .struct f i => do
    put (Ty.flagsSymbol f)
    struct i

/-- Writes the symbols of several types, one after another. -/
def Ty.writeAllWith (struct : StructId → Ty.Writer) : List Ty → Ty.Writer
  | [] => put ""
  | t :: ts => do
    Ty.writeWith struct t
    Ty.writeAllWith struct ts
end

/-- Writes the members of an anonymous struct, where `type` writes types. -/
def Member.writeAllWith (type : Ty → Ty.Writer) : List Member → Ty.Writer
  | [] => put ""
  | m :: ms => do
    put (sized m.name)
    type m.type
    Member.writeAllWith type ms

/-- Writes the symbol of a struct.  An anonymous one is open while its members are written. -/
def StructStore.writeStruct (S : StructStore) : Nat → StructId → Ty.Writer
  | 0, _ => failure
  | fuel + 1, i => do
    match S.name? i, S.layout? i with
    | some name, _ => put ("S" ++ sized name)
    | none, layout =>
      if (← get).2.contains i then put "S0R"
      else
        match layout with
        | none => put "S0I"
        | some l =>
          within i do
            put s!"S0{l.members.length}_"
            Member.writeAllWith (Ty.writeWith (S.writeStruct fuel)) l.members

/-- Writes the symbol of a type. -/
def Ty.write (S : StructStore) (t : Ty) : Ty.Writer := t.writeWith (S.writeStruct (S.size + 1))

section Writing

open Ty.Writer (writes_put Writes.seq Writes.within)

variable {outer : List StructId} {write : StructId → Ty.Writer} {struct : StructId → String}

mutual
theorem Ty.writes_writeWith (h : ∀ i, (write i).Writes outer (struct i)) :
    ∀ t : Ty, (t.writeWith write).Writes outer (t.symbolWith struct)
  | .scalar f s => by
    rw [Ty.writeWith, Ty.symbolWith]
    exact (writes_put _).seq (writes_put _)
  | .function f as r => by
    simp only [Ty.writeWith, Ty.symbolWith, String.append_assoc]
    exact (writes_put _).seq <| (writes_put _).seq <| (Ty.writes_writeAllWith h as).seq <|
      (writes_put _).seq (Ty.writes_writeWith h r)
  | .pointer f t => by
    simp only [Ty.writeWith, Ty.symbolWith, String.append_assoc]
    exact (writes_put _).seq <| (writes_put _).seq (Ty.writes_writeWith h t)
  | .array f t n => by
    rw [Ty.writeWith, Ty.symbolWith]
    have hall := (writes_put (Ty.flagsSymbol f)).seq <|
      (writes_put s!"A{n}_").seq (Ty.writes_writeWith h t)
    rwa [← String.append_assoc] at hall
  | .struct f i => by
    rw [Ty.writeWith, Ty.symbolWith]
    exact (writes_put _).seq (h i)

theorem Ty.writes_writeAllWith (h : ∀ i, (write i).Writes outer (struct i)) :
    ∀ ts : List Ty, (Ty.writeAllWith write ts).Writes outer (Ty.symbolsWith struct ts)
  | [] => writes_put _
  | t :: ts => by
    rw [Ty.writeAllWith, Ty.symbolsWith]
    exact (Ty.writes_writeWith h t).seq (Ty.writes_writeAllWith h ts)
end

theorem Member.writes_writeAllWith {write : Ty → Ty.Writer} {type : Ty → String}
    (h : ∀ t, (write t).Writes outer (type t)) :
    ∀ ms : List Member, (Member.writeAllWith write ms).Writes outer (Member.symbolsWith type ms)
  | [] => writes_put _
  | m :: ms => by
    rw [Member.writeAllWith, Member.symbolsWith, String.append_assoc]
    exact (writes_put _).seq <| (h m.type).seq (Member.writes_writeAllWith h ms)

namespace StructStore

/-- The structs of the store that are not open. -/
def unopened (S : StructStore) (outer : List StructId) : Finset StructId :=
  Finset.range S.size \ outer.toFinset

theorem card_unopened_lt (S : StructStore) (outer : List StructId) :
    (S.unopened outer).card < S.size + 1 := by
  calc (S.unopened outer).card
      ≤ (Finset.range S.size).card := Finset.card_le_card Finset.sdiff_subset
    _ < S.size + 1 := by simp

/-- Only structs that are defined are opened, so every one that is leaves fewer. -/
theorem card_unopened_cons_lt {S : StructStore} {i : StructId} {l : Layout}
    (hi : S.layout? i = some l) (hnew : i ∉ outer) :
    (S.unopened (i :: outer)).card < (S.unopened outer).card := by
  rw [unopened, List.toFinset_cons, Finset.sdiff_insert]
  apply Finset.card_erase_lt_of_mem
  simp [lt_size_of_layout? hi, hnew]

/-- **Writing a struct ends**, with its symbol inside the structs that are open. -/
theorem writes_writeStruct {S : StructStore} {fuel : Nat} {i : StructId}
    (hfuel : (S.unopened outer).card < fuel) :
    (S.writeStruct fuel i).Writes outer (S.symbol fuel outer i) := by
  -- the fuel is more than the number of structs that can still be opened
  induction fuel generalizing outer i with
  | zero => omega
  | succ fuel ih =>
    rw [writeStruct, symbol]
    cases S.name? i with
    | some name => exact writes_put _
    | none =>
      intro out
      dsimp only
      show (if outer.contains i = true then put "S0R" else _) (out, outer) = _
      by_cases hopen : outer.contains i = true
      case pos =>
        rw [if_pos hopen, if_pos hopen]
        exact writes_put _ out
      rw [if_neg hopen, if_neg hopen]
      cases hi : S.layout? i with
      | none => exact writes_put _ out
      | some l =>
        have hnew : i ∉ outer := by simpa using hopen
        have hfewer := card_unopened_cons_lt hi hnew
        refine Writes.within ((writes_put _).seq ?_) out
        exact Member.writes_writeAllWith
          (Ty.writes_writeWith fun j => ih (by omega)) l.members

end StructStore

/-- **Writing the symbol of a type ends**, whatever is open. -/
theorem Ty.writes_write (S : StructStore) (t : Ty) :
    (t.write S).Writes outer (t.symbolWith (S.symbol (S.size + 1) outer)) :=
  Ty.writes_writeWith
    (fun _ => StructStore.writes_writeStruct (S.card_unopened_lt outer)) t

end Writing

end RangeTyping
