import RangeTyping.Failure
import RangeTyping.Ty.Store

/-!
# Defining structs

Members are placed one after another, each at the next multiple of its alignment; the struct ends
at the next multiple of the greatest alignment.  A struct without members still has one byte, since
size zero means incomplete.

Offsets and sizes are 64-bit words.  Nothing is reported of a struct that is too large for them: a
product or a sum that is no word stops everything (`alignUp`, `Placement.add`).
-/

namespace RangeTyping

/-! ### Errors -/

/-- What can be wrong with a definition or a use of a struct. -/
inductive TypeError where
  | notAStruct (type : String)
  | structAlreadyDefined (name : String)
  | duplicateMember (struct member : String)
  /-- The member is held by value and its type has no size yet. -/
  | incompleteMember (struct member type : String)
  | incompleteStruct (name : String)
  | memberNotFound (struct member : String)
deriving DecidableEq, Repr

/-- The wording of a type error. -/
def TypeError.message : TypeError → String
  | notAStruct type => s!"`{type}` is not a struct"
  | structAlreadyDefined name => s!"struct `{name}` is already defined"
  | duplicateMember struct member =>
    s!"struct `{struct}` has more than one member named `{member}`"
  | incompleteMember struct member type =>
    s!"member `{member}` of struct `{struct}` has incomplete type `{type}`"
  | incompleteStruct name => s!"struct `{name}` is declared but not defined"
  | memberNotFound struct member => s!"struct `{struct}` has no member `{member}`"

/-- The name of the kind of error. -/
def TypeError.name : TypeError → String
  | notAStruct _ => "Type.NotAStruct"
  | structAlreadyDefined _ => "Type.StructAlreadyDefined"
  | duplicateMember _ _ => "Type.DuplicateMember"
  | incompleteMember _ _ _ => "Type.IncompleteMember"
  | incompleteStruct _ => "Type.IncompleteStruct"
  | memberNotFound _ _ => "Type.MemberNotFound"

/-! ### Placing members -/

/-- The next multiple of `alignment` from `offset` on. -/
def alignUp (offset alignment : Nat) : Except InternalError Nat :=
  WordOperation.multiply.check ((offset + alignment - 1) / alignment * alignment)

/-- The members placed so far, the first free byte and the greatest alignment. -/
structure Placement where
  members : List Member
  next : Nat
  alignment : Nat

namespace Placement

/-- Nothing is placed. -/
def start : Placement := ⟨[], 0, 1⟩

/-- Places one more member. -/
def add (S : StructStore) (p : Placement) (name : String) (type : Ty) :
    Except InternalError Placement := do
  let alignment := max (type.alignment S) 1
  let offset ← alignUp p.next alignment
  let next ← WordOperation.add.check (offset + type.size S)
  return ⟨p.members ++ [⟨name, type, offset⟩], next, max p.alignment alignment⟩

/-- The layout of the members placed. -/
def layout (p : Placement) : Except InternalError Layout := do
  let size ← alignUp p.next p.alignment
  return ⟨p.members, max size 1, p.alignment⟩

/-- Places the members of the struct called `struct`; their names differ and their types have a
size. -/
def addAll (S : StructStore) (struct : String) :
    Placement → List (String × Ty) → Outcome TypeError Placement
  | p, [] => .ok p
  | p, (name, type) :: rest =>
    if p.members.any (·.name == name) then
      .fail (.duplicateMember struct name)
    else if type.size S = 0 then
      .fail (.incompleteMember struct name (type.text S))
    else do
      let placed ← p.add S name type
      addAll S struct placed rest

end Placement

/-- The layout of the struct called `struct` with the given members. -/
def Layout.ofMembers (S : StructStore) (struct : String) (members : List (String × Ty)) :
    Outcome TypeError Layout := do
  let placed ← Placement.start.addAll S struct members
  placed.layout

/-! ### Definition and look-up -/

namespace StructStore

/-- Defines the struct `type` with the given members.  Besides the outcome there is the store, which
goes on being used when the definition fails. -/
def define (S : StructStore) (type : Ty) (members : List (String × Ty)) :
    Outcome TypeError Unit × StructStore :=
  match type.asStruct? with
  | none => (.fail (.notAStruct (type.text S)), S)
  | some i =>
    if S.isComplete i then
      (.fail (.structAlreadyDefined (S.displayName i)), S)
    else
      match Layout.ofMembers S (S.displayName i) members with
      | .ok layout => (.ok (), S.setLayout i layout)
      | .error e => (.error e, S)

/-- Declares a struct and defines it at once. -/
def make (S : StructStore) (name : Option String) (members : List (String × Ty)) :
    Outcome TypeError (StructStore × StructId) :=
  let (declared, i) := S.declare name
  match declared.define (.struct .none i) members with
  | (.ok (), defined) => .ok (defined, i)
  | (.error e, _) => .error e

/-- The member of that name. -/
def member (S : StructStore) (i : StructId) (name : String) : Except TypeError Member :=
  match S.layout? i with
  | none => .error (.incompleteStruct (S.displayName i))
  | some layout =>
    match layout.members.find? (·.name == name) with
    | some m => .ok m
    | none => .error (.memberNotFound (S.displayName i) name)

end StructStore

end RangeTyping
