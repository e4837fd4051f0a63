import RangeTyping.Scope.Basic

/-!
# Lookup contexts

A context is a stack of open scopes.  Names are looked up from the innermost scope outwards, and the
first match wins; the conversions of all open scopes count, the innermost first.  Everything is
registered in the innermost scope.

A context also owns the table that leads from a backend's cookies back to named scalar types.  The
table is filled while builtins are registered and sealed afterwards.
-/

namespace RangeTyping

/-! ### The table of type ids -/

/-- Named scalar types by cookie. -/
structure TypeIdTable where
  entries : List (Nat × String × Ty)
  isSealed : Bool

namespace TypeIdTable

/-- The table without entries. -/
def empty : TypeIdTable := ⟨[], false⟩

/-- The entry of a cookie. -/
def find? (t : TypeIdTable) (cookie : Nat) : Option (String × Ty) := t.entries.lookup cookie

/-- Enters a type; a later entry of the same cookie replaces an earlier one. -/
def insert (t : TypeIdTable) (cookie : Nat) (name : String) (type : Ty) : TypeIdTable :=
  { t with entries := (cookie, name, type) :: t.entries }

end TypeIdTable

/-! ### Contexts -/

/-- Open scopes, from the innermost outwards. -/
structure LookupContext where
  current : Scope
  outer : List Scope
  typeIds : TypeIdTable
  /-- The number of the next scope that is opened. -/
  nextLabel : Nat

namespace LookupContext

/-- A context with one scope, in which nothing is registered. -/
def new : LookupContext := ⟨.empty 0, [], .empty, 1⟩

/-- All open scopes. -/
def scopes (c : LookupContext) : List Scope := c.current :: c.outer

/-- Opens a scope. -/
def push (c : LookupContext) : LookupContext :=
  { c with current := .empty c.nextLabel, outer := c.scopes, nextLabel := c.nextLabel + 1 }

/-- Closes the innermost scope, which must not be the only one. -/
def pop (c : LookupContext) : Except InternalError LookupContext :=
  match c.outer with
  | [] => .error .rootScopePopped
  | s :: rest => .ok { c with current := s, outer := rest }

/-- The outermost scope. -/
def rootScope (c : LookupContext) : Scope := (c.outer.getLast?).getD c.current

/-- A context with a new scope right inside the outermost one. -/
def deriveModule (c : LookupContext) : LookupContext :=
  { c with current := c.rootScope, outer := [] }.push

/-! ### Looking up -/

/-- The type of that name. -/
def type? (c : LookupContext) (name : String) : Option Ty := c.scopes.findSome? (·.type? name)

/-- The object of that name. -/
def object? (c : LookupContext) (name : String) : Option Object :=
  c.scopes.findSome? (·.object? name)

/-- The conversions of all open scopes, with decay. -/
def castGraph (c : LookupContext) : CastGraph := ⟨c.scopes.map (·.casts), true⟩

/-- All conversions that end at a type. -/
def castsTo (S : StructStore) (c : LookupContext) (t : Ty) : List Cast := c.castGraph.castsTo S t

/-- The named type of a cookie. -/
def typeById? (c : LookupContext) (cookie : Nat) : Option (String × Ty) := c.typeIds.find? cookie

/-! ### Registering -/

/-- Registers a type; a scalar also enters the table of type ids. -/
def addType (c : LookupContext) (name : String) (type : Ty) :
    Outcome RegistrationError LookupContext :=
  match c.current.addType name type with
  | .error e => Outcome.fail e
  | .ok scope =>
    match type.cookie? with
    | none => .ok { c with current := scope }
    | some cookie =>
      if c.typeIds.isSealed then .error (.internal (.typeIdsSealed name))
      else .ok { c with current := scope, typeIds := c.typeIds.insert cookie name type }

/-- Seals the table of type ids. -/
def sealTypeIds (c : LookupContext) : LookupContext :=
  { c with typeIds := { c.typeIds with isSealed := true } }

/-- Registers a variable. -/
def addVariable (c : LookupContext) (v : Variable) : Except RegistrationError LookupContext := do
  return { c with current := ← c.current.addVariable v }

/-- Reserves a name for functions. -/
def reserve (c : LookupContext) (name : String) : Except RegistrationError LookupContext := do
  return { c with current := ← c.current.reserve name }

/-- Attaches an overload to a name that is reserved. -/
def attach (S : StructStore) (c : LookupContext) (o : Overload) :
    Outcome RegistrationError LookupContext := do
  return { c with current := ← c.current.attach S o }

/-- Registers a conversion. -/
def addCast (S : StructStore) (c : LookupContext) (cast : Cast) : LookupContext :=
  { c with current := c.current.addCast S cast }

end LookupContext

end RangeTyping
