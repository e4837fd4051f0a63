import RangeTyping.Builtins
import RangeTyping.Diagnostic
import RangeTyping.Options
import RangeTyping.Source.Tree
import RangeTyping.Typed.Basic

/-!
# What an analysis works with

An analysis step knows its surroundings (`Env`), draws identities from a supply (`Fresh`) and
ends in a result, a diagnostic or an internal error.  The weight that one expression may spend is a
`Budget`, which is handed from step to step.

A step that fails leaves no trace: identities it drew may be drawn again.
-/

namespace RangeTyping

/-! ### Surroundings -/

/-- What is known where an expression stands. -/
structure Env where
  structs : StructStore
  types : BuiltinTypes
  options : Options
  /-- The name of the function under analysis. -/
  function : String
  /-- The result type of that function. -/
  returnType : Ty
  context : LookupContext

/-- The next identities. -/
structure Fresh where
  nextValue : Nat
  nextPoint : Nat
deriving DecidableEq, Repr

/-- The supply from which nothing was drawn. -/
def Fresh.initial : Fresh := ⟨1, 1⟩

/-- A step of an analysis. -/
abbrev Analysis : Type → Type := StateT Fresh (Except (Failure Diagnostic))

namespace Analysis

/-- Draws a new identity for a value. -/
def freshValue : Analysis ValueId := fun s =>
  .ok (⟨s.nextValue⟩, { s with nextValue := s.nextValue + 1 })

/-- Draws a new identity for a branch target. -/
def freshPoint : Analysis PointId := fun s =>
  .ok (⟨s.nextPoint⟩, { s with nextPoint := s.nextPoint + 1 })

/-- Ends with a diagnostic. -/
def fail {α : Type} (cause : Cause) (location : Location) : Analysis α := fun _ =>
  .error (.error ⟨cause, location⟩)

/-- Ends with an internal error. -/
def broken {α : Type} (e : InternalError) : Analysis α := fun _ => .error (.internal e)

/-- Tries a step; its diagnostic becomes a result. -/
def attempt {α : Type} (a : Analysis α) : Analysis (Except Diagnostic α) := fun s =>
  match a s with
  | .ok (v, s) => .ok (.ok v, s)
  | .error (.error d) => .ok (.error d, s)
  | .error (.internal e) => .error (.internal e)

end Analysis

/-! ### Budgets -/

/-- The weight that an expression may spend and the weight it has spent. -/
structure Budget where
  limit : Weight
  spent : Weight
deriving DecidableEq, Repr

namespace Budget

/-- A budget of which nothing is spent. -/
def ofLimit (limit : Weight) : Budget := ⟨limit, 0⟩

/-- What is left. -/
def remaining (b : Budget) : Weight := b.limit - b.spent

/-- Spends a weight, if the limit allows it. -/
def charge (b : Budget) (weight : Weight) (location : Location) : Analysis Budget :=
  let total := addWeight b.spent weight
  if b.limit < total then .fail (.cast (.tooExpensive total b.limit)) location
  else return { b with spent := total }

end Budget

namespace Env

/-- The budget of an expression. -/
def expressionBudget (env : Env) : Budget := .ofLimit env.options.expressionLimit

/-- The budget of a variable's initializer. -/
def initializerBudget (env : Env) : Budget :=
  .ofLimit (env.options.initializerLimit.getD maxWeight)

/-- The surroundings inside a new scope. -/
def enter (env : Env) : Env := { env with context := env.context.push }

end Env

/-! ### Types and variables -/

/-- The type that is written. -/
def LookupContext.resolveType (c : LookupContext) : Source.TypeExpr → Except Diagnostic Ty
  | .simple n name =>
    match c.type? name with
    | some t => .ok t
    | none => .error ⟨.unknownType name, n.location⟩
  | .pointer _ t => do return .pointerTo (← c.resolveType t)
  | .array _ t count => do return .arrayOf (← c.resolveType t) count

namespace Env

/-- The type that is written. -/
def resolveType (env : Env) (t : Source.TypeExpr) : Analysis Ty := fun s =>
  match env.context.resolveType t with
  | .ok t => .ok (t, s)
  | .error d => .error (.error d)

/-- Declares a variable in the innermost scope. -/
def declare (env : Env) (name : String) (type : Ty) (isMutable : Bool) (range : Option ValueRange)
    (location : Location) : Analysis (Variable × Env) := do
  if type.isVoid || type.isFunction then
    .fail (.invalidVariableType name type) location
  let flags : Flags := if isMutable then .refMut else .ref
  let v : Variable := ⟨name, type.unqualified.addFlags flags, ← .freshValue, range, location⟩
  match env.context.addVariable v with
  | .ok context => return (v, { env with context })
  | .error e => .fail (.registrationFailed .variable name (some e.message)) location

end Env

end RangeTyping
