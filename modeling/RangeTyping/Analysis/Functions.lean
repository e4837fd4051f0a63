import RangeTyping.Analysis.Body
import RangeTyping.Analysis.Structs
import RangeTyping.Ty.Symbol

/-!
# The functions of a module

Every function name is reserved before any signature is read, and every signature is registered
before any body is analysed, so that bodies may call each other in any order.  A function that fails
at one stage does not take part in the next ones; the others do.
-/

namespace RangeTyping

/-- A function whose signature is registered. -/
structure Signature where
  definition : Source.FunctionDef
  parameters : List Ty
  result : Ty
  symbol : String

namespace Signature

/-- The type of the function. -/
def type (s : Signature) : Ty := .arrow s.parameters s.result

/-- What is reported when the registration of a function is refused. -/
def refused (f : Source.FunctionDef) (e : RegistrationError) : Diagnostic :=
  ⟨.registrationFailed .function f.name.text (some e.message), f.node.location⟩

/-- Reserves the name of a function. -/
def reserve (context : LookupContext) (f : Source.FunctionDef) :
    Outcome Diagnostic (Source.FunctionDef × LookupContext) :=
  match context.reserve f.name.text with
  | .ok context => .ok (f, context)
  | .error e => .error (.error (refused f e))

/-- The types that are written. -/
def types (context : LookupContext) : List Source.TypeExpr → Except Diagnostic (List Ty)
  | [] => .ok []
  | t :: rest => do
    let type ← context.resolveType t
    return type :: (← types context rest)

/-- Reads the signature of a function; one that does not say what it returns has the result
`nothing`. -/
def read (S : StructStore) (nothing : Ty) (context : LookupContext) (f : Source.FunctionDef) :
    Except Diagnostic Signature := do
  let parameters ← types context (f.arguments.map (·.type))
  let result ← match f.returns with
    | some t => context.resolveType t
    | none => pure nothing
  return ⟨f, parameters, result,
    "_P" ++ sized f.name.text ++ (Ty.arrow parameters result).symbol S⟩

/-- The signature as an overload. -/
def overload (s : Signature) : Overload :=
  { name := s.definition.name.text
    type := s.type
    argumentNames := s.definition.arguments.map (·.name.text)
    kind := .user s.symbol
    location := some s.definition.node.location }

/-- Reads a signature and attaches it to its reserved name. -/
def register (S : StructStore) (nothing : Ty) (context : LookupContext) (f : Source.FunctionDef) :
    Outcome Diagnostic (Signature × LookupContext) :=
  match read S nothing context f with
  | .error d => .error (.error d)
  | .ok s => do
    let context ← (context.attach S s.overload).mapError (refused f)
    return (s, context)

/-! ### Bodies -/

/-- Declares the arguments of a function. -/
def parameterList (env : Env) :
    List Source.Argument → List Ty → Analysis (List Parameter × Env)
  | a :: arguments, type :: types => do
    let range ← type.fullRange
    let (v, env) ← env.declare a.name.text type false range a.node.location
    let (rest, env) ← parameterList env arguments types
    return (⟨type, v.name, v.id⟩ :: rest, env)
  | _, _ => return ([], env)

/-- **Analyses the body of a function.** -/
def analyze (s : Signature) (env : Env) : Analysis TypedFunction := do
  let f := s.definition
  let inner := { env with function := f.name.text, returnType := s.result }.enter
  let (parameters, inner) ← parameterList inner f.arguments s.parameters
  let expected := if s.result.isVoid then none else some s.result
  let (body, _) ← inner.block inner.expressionBudget expected f.body
  if expected.isSome && !f.body.hasResult && !f.body.endsWithReturn then
    .fail (.missingReturn f.name.text s.result) f.node.location
  return {
    name := f.name.text
    symbol := s.symbol
    type := s.type
    returnType := s.result
    parameters
    location := f.node.location
    body := if s.result.isVoid then body.discard else body }

end Signature

/-- **Registers the functions of a module.** -/
def Source.Module.registerFunctions (m : Source.Module) (S : StructStore) (nothing : Ty)
    (context : LookupContext) :
    Except InternalError (List Signature × List Diagnostic × LookupContext) := do
  let (reserved, refused, context) ← collect Signature.reserve context m.functions
  let (signatures, diagnostics, context) ← collect (Signature.register S nothing) context reserved
  return (signatures, refused ++ diagnostics, context)

end RangeTyping
