import RangeTyping.Location
import RangeTyping.Operator
import RangeTyping.Cast.Graph

/-!
# Scopes

A scope holds what was registered in it: named types, named objects and conversions.  An object is
a variable or a set of overloads, the functions that share one name.  Names are unique among the
types of a scope and among its objects.

Functions are registered in two steps, so that they may call each other: first the name is reserved
(`Scope.reserve`), then overloads are attached to it (`Scope.attach`).  Overloads of one name differ
in their argument types.
-/

namespace RangeTyping

/-! ### Objects -/

/-- A variable.  Its type is a reference to what it holds, and `id` names its storage. -/
structure Variable where
  name : String
  type : Ty
  id : ValueId
  /-- The range of what the variable holds. -/
  range : Option ValueRange
  location : Location

/-- What an overload stands for. -/
inductive OverloadKind where
  | user (symbol : String)
  | builtin (operator : BuiltinOperator)
deriving DecidableEq, Repr

/-- One function of a name. -/
structure Overload where
  name : String
  type : Ty
  argumentNames : List String
  kind : OverloadKind
  location : Option Location

/-- The functions of one name in one scope. -/
structure OverloadSet where
  name : String
  overloads : List Overload

/-- What a name stands for. -/
inductive Object where
  | variable (v : Variable)
  | function (f : OverloadSet)

/-- The argument types and the result type of an overload. -/
def Overload.signature (S : StructStore) (o : Overload) : Except InternalError (List Ty × Ty) :=
  match o.type.asFunction? with
  | some signature => .ok signature
  | none => .error (.overloadNotFunction o.name (o.type.text S))

/-- Whether one of the overloads has these argument types. -/
def Overload.anyWith (S : StructStore) (arguments : List Ty) :
    List Overload → Except InternalError Bool
  | [] => .ok false
  | o :: rest => do
    let (as, _) ← o.signature S
    if Ty.sameAll S as arguments then return true
    anyWith S arguments rest

/-! ### Errors -/

/-- Why something cannot be registered. -/
inductive RegistrationError where
  | typeExists (name : String)
  | nameTaken (name : String)
  | nameIsVariable (name : String)
  | overloadExists (name type : String)
deriving DecidableEq, Repr

/-- The wording of a registration error. -/
def RegistrationError.message : RegistrationError → String
  | typeExists name => s!"Type `{name}` already exists in this scope"
  | nameTaken name => s!"`{name}` already declared in this scope"
  | nameIsVariable name => s!"`{name}` already declared as a variable in this scope"
  | overloadExists name type =>
    s!"an overload of `{name}` with signature `{type}` already exists"

/-! ### Scopes -/

/-- What was registered in one scope. -/
structure Scope where
  /-- The number by which the scope is shown. -/
  label : Nat
  types : List (String × Ty)
  objects : List (String × Object)
  casts : CastTable

namespace Scope

/-- A scope in which nothing is registered. -/
def empty (label : Nat) : Scope := ⟨label, [], [], []⟩

/-- The type of that name. -/
def type? (s : Scope) (name : String) : Option Ty := s.types.lookup name

/-- The object of that name. -/
def object? (s : Scope) (name : String) : Option Object := s.objects.lookup name

/-- Registers a type. -/
def addType (s : Scope) (name : String) (type : Ty) : Except RegistrationError Scope :=
  match s.type? name with
  | some _ => .error (.typeExists name)
  | none => .ok { s with types := s.types ++ [(name, type)] }

/-- Registers a variable. -/
def addVariable (s : Scope) (v : Variable) : Except RegistrationError Scope :=
  match s.object? v.name with
  | some _ => .error (.nameTaken v.name)
  | none => .ok { s with objects := s.objects ++ [(v.name, .variable v)] }

/-- Reserves a name for functions. -/
def reserve (s : Scope) (name : String) : Except RegistrationError Scope :=
  match s.object? name with
  | some (.variable _) => .error (.nameIsVariable name)
  | some (.function _) => .ok s
  | none => .ok { s with objects := s.objects ++ [(name, .function ⟨name, []⟩)] }

/-- The objects with one of them replaced. -/
def replace (name : String) (object : Object) (objects : List (String × Object)) :
    List (String × Object) :=
  objects.map fun (n, o) => (n, if n == name then object else o)

/-- Attaches an overload to a name that is reserved. -/
def attach (S : StructStore) (s : Scope) (o : Overload) : Outcome RegistrationError Scope :=
  match s.object? o.name with
  | some (.function f) => do
    let (arguments, _) ← o.signature S
    if ← Overload.anyWith S arguments f.overloads then
      Outcome.fail (.overloadExists o.name (o.type.text S))
    else
      let extended := Object.function { f with overloads := f.overloads ++ [o] }
      return { s with objects := replace o.name extended s.objects }
  | _ => .error (.internal (.overloadNotReserved o.name))

/-- Registers a conversion. -/
def addCast (S : StructStore) (s : Scope) (c : Cast) : Scope :=
  { s with casts := s.casts.insert S c }

end Scope

end RangeTyping
