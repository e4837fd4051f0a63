import RangeTyping.Cast.Resolve
import RangeTyping.Location
import RangeTyping.Range.Arithmetic
import RangeTyping.Ty.Layout

/-!
# Diagnostics

Everything an analysis can find wrong with a module.  A diagnostic is a cause and the place where it
was found.
-/

namespace RangeTyping

/-- What could not be registered. -/
inductive RegistrationKind where
  | type
  | struct
  | function
  | variable
deriving DecidableEq, Repr

/-- All that can be registered. -/
def RegistrationKind.all : List RegistrationKind := [type, struct, function, .variable]

/-- The word for it in messages. -/
def RegistrationKind.text : RegistrationKind → String
  | .type => "type"
  | .struct => "struct"
  | .function => "function"
  | .variable => "variable"

/-- What is wrong. -/
inductive Cause where
  | unknownType (name : String)
  | unknownIdentifier (name : String)
  | notAFunction (name : String)
  | functionAsValue (name : String)
  | registrationFailed (kind : RegistrationKind) (name : String) (reason : Option String)
  | type (error : TypeError)
  | cast (error : CastError)
  | undefinedBehavior (error : UndefinedBehavior)
  | noMatchingOverload (name arguments : String)
  | ambiguousOverload (name : String) (candidates : Nat)
  | assignToImmutable (type : Ty)
  | dereferenceNonPointer (type : Ty)
  | invalidLiteral (value : String)
  | untypedNull
  | invalidVariableType (name : String) (type : Ty)
  | missingReturn (function : String) (expected : Ty)

namespace Cause

/-- The wording of a cause. -/
def message (S : StructStore) : Cause → String
  | unknownType name => s!"unknown type `{name}`"
  | unknownIdentifier name => s!"use of undeclared identifier `{name}`"
  | notAFunction name => s!"`{name}` is not a function"
  | functionAsValue name => s!"function `{name}` cannot be used as a value"
  | registrationFailed kind name reason =>
    let detail := (reason.map (": " ++ ·)).getD ""
    s!"error registering {kind.text} `{name}`{detail}"
  | type error => error.message
  | cast error => error.message S
  | undefinedBehavior error => error.message
  | noMatchingOverload name arguments => s!"no overload of `{name}` matches arguments ({arguments})"
  | ambiguousOverload name candidates =>
    s!"call to `{name}` is ambiguous between {candidates} overloads"
  | assignToImmutable t => s!"cannot assign to `{t.text S}`, expected a mutable variable"
  | dereferenceNonPointer t => s!"cannot dereference non-pointer type `{t.text S}`"
  | invalidLiteral value => s!"invalid integer literal `{value}`"
  | untypedNull => "cannot infer the pointer type of `null`"
  | invalidVariableType name t => s!"variable `{name}` cannot have type `{t.text S}`"
  | missingReturn function t => s!"function `{function}` must return a value of type `{t.text S}`"

/-- The name of the kind of cause. -/
def name : Cause → String
  | unknownType _ => "UnknownType"
  | unknownIdentifier _ => "UnknownIdentifier"
  | notAFunction _ => "NotAFunction"
  | functionAsValue _ => "FunctionAsValue"
  | registrationFailed _ _ _ => "RegistrationFailed"
  | type error => error.name
  | cast error => error.name
  | undefinedBehavior error => error.kind.name
  | noMatchingOverload _ _ => "NoMatchingOverload"
  | ambiguousOverload _ _ => "AmbiguousOverload"
  | assignToImmutable _ => "AssignToImmutable"
  | dereferenceNonPointer _ => "DereferenceNonPointer"
  | invalidLiteral _ => "InvalidLiteral"
  | untypedNull => "UntypedNull"
  | invalidVariableType _ _ => "InvalidVariableType"
  | missingReturn _ _ => "MissingReturn"

/-- Whether several cheapest conversions are the cause. -/
def isAmbiguousCast : Cause → Bool
  | cast error => error.isAmbiguous
  | _ => false

end Cause

/-- A cause and the place where it was found. -/
structure Diagnostic where
  cause : Cause
  location : Location

/-- The wording of a diagnostic. -/
def Diagnostic.message (S : StructStore) (d : Diagnostic) : String :=
  d.location.text ++ ": " ++ d.cause.message S

/-- The wording of a failed analysis. -/
def Diagnostic.summary (S : StructStore) (ds : List Diagnostic) : String :=
  "semantic analysis failed: " ++ String.intercalate "; " (ds.map (·.message S))

end RangeTyping
