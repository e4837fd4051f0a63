import RangeTyping.Analysis.Conversion

/-!
# Choosing an overload

Operators and calls are resolved alike.  The operands are analysed once; then every overload of the
right number of arguments is tried on a budget of its own, which pays for typing and converting the
operands and for converting the result to the type that is hinted at.  The cheapest overload wins;
it must be the only one of its weight.

Undefined behaviour does not keep an overload from winning, but the winner's is reported.
-/

namespace RangeTyping

/-- An overload that can be used: what becomes of the expression, and at which weight. -/
structure Candidate where
  expression : TypedExpr
  weight : Weight
  undefined : Option UndefinedBehavior

namespace Env

/-! ### Trying one overload -/

/-- The operands as the arguments of an overload. -/
def coerceAll (env : Env) (location : Location) :
    Budget → List Operand → List Ty → Analysis (List TypedExpr × Budget)
  | budget, operand :: operands, parameter :: parameters => do
    let (e, budget) ← env.coerce budget parameter true location operand
    let (es, budget) ← coerceAll env location budget operands parameters
    return (e :: es, budget)
  | budget, _, _ => return ([], budget)

/-- The ranges of the arguments of a builtin operator. -/
def operandRanges (env : Env) (operator : String) :
    List TypedExpr → List Ty → Except InternalError (List ValueRange)
  | e :: es, parameter :: parameters => do
    let known ← match e.range with
      | some r => pure (some r)
      | none => parameter.fullRange
    match known with
    | some r => return r :: (← operandRanges env operator es parameters)
    | none => .error (.operatorOperand operator (parameter.text env.structs))
  | _, _ => .ok []

/-- The application of a builtin operator, as a function of what is known about its value. -/
def operatorNode (operator : String) :
    BuiltinOperator → List TypedExpr → Except InternalError (ValueInfo → TypedExpr)
  | .binary operation, [l, r] => .ok fun info => .binary info operation l r
  | .binary _, _ => .error (.operatorNotBinary operator)
  | .logicalNot, [e] => .ok fun info => .logicalNot info e
  | .logicalNot, _ => .error (.operatorNotUnary operator)

/-- The range of an operator's result, and the undefined behaviour that made it collapse. -/
def operatorRange (env : Env) (operator : String) (op : BuiltinOperator) (result : Ty)
    (arguments : List TypedExpr) (parameters : List Ty) :
    Except InternalError (ValueRange × Option UndefinedBehavior) := do
  match result.asScalar? with
  | none => .error (.operatorResult operator (result.text env.structs))
  | some s =>
    let ranges ← env.operandRanges operator arguments parameters
    match op.range s ranges with
    | .ok r => return (r, none)
    | .error (.error u) => return (u.collapsed, some u)
    | .error (.internal e) => .error e

/-- The application of an overload to its arguments, before its result is converted. -/
def apply (env : Env) (o : Overload) (parameters : List Ty) (result : Ty)
    (arguments : List TypedExpr) : Analysis (TypedExpr × Option UndefinedBehavior) := do
  let (node, range, undefined) ← match o.kind with
    | .user symbol => do
      let node : ValueInfo → TypedExpr := fun info => .call info symbol arguments
      pure (node, ← result.fullRange, none)
    | .builtin op => do
      let (range, undefined) ← env.operatorRange o.name op result arguments parameters
      pure (← operatorNode o.name op arguments, some range, undefined)
  let id ← if result.isVoid then pure .unread else .freshValue
  return (node ⟨id, result, range⟩, undefined)

/-- Tries an overload of the given signature. -/
def candidate (env : Env) (budget : Budget) (o : Overload) (parameters : List Ty) (result : Ty)
    (operands : List Operand) (hint : Option Ty) (location : Location) : Analysis Candidate := do
  let (arguments, budget) ← env.coerceAll location budget operands parameters
  let (applied, undefined) ← env.apply o parameters result arguments
  let (expression, budget) ← match hint with
    | some expected => env.convert budget expected true location applied
    | none => pure (applied, budget)
  return ⟨expression, budget.spent, undefined⟩

/-! ### Choosing -/

/-- Tries all overloads in order: those that can be used, and why the others cannot.  An ambiguous
conversion ends it. -/
def candidates (env : Env) (budget : Budget) (operands : List Operand) (hint : Option Ty)
    (location : Location) : List Overload → Analysis (List Candidate × List Diagnostic)
  | [] => return ([], [])
  | o :: rest => do
    let (parameters, result) ← o.signature env.structs
    if parameters.length != operands.length then
      candidates env budget operands hint location rest
    else
      let trial := Budget.ofLimit budget.remaining
      match ← (env.candidate trial o parameters result operands hint location).attempt with
      | .ok c =>
        let (viable, failures) ← candidates env budget operands hint location rest
        return (c :: viable, failures)
      | .error d =>
        if d.cause.isAmbiguousCast then
          .fail d.cause d.location
        else
          let (viable, failures) ← candidates env budget operands hint location rest
          return (viable, d :: failures)

/-- The candidates of least weight. -/
def cheapest (viable : List Candidate) : List Candidate :=
  viable.filter fun c => viable.all (c.weight ≤ ·.weight)

/-- The functions of that name. -/
def overloads (env : Env) (name : String) (location : Location) : Analysis (List Overload) :=
  match env.context.object? name with
  | some (.function f) => return f.overloads
  | some (.variable _) => .fail (.notAFunction name) location
  | none => .fail (.unknownIdentifier name) location

/-- The operands as they are written in messages. -/
def describeAll (env : Env) (operands : List Operand) : String :=
  String.intercalate ", " (operands.map (·.describe env.structs))

/-- **Applies the cheapest overload** to the operands. -/
def select (env : Env) (budget : Budget) (name : String) (overloads : List Overload)
    (operands : List Operand) (hint : Option Ty) (location : Location) :
    Analysis (TypedExpr × Budget) := do
  let (viable, failures) ← env.candidates budget operands hint location overloads
  match viable, failures with
  | [], [d] => .fail d.cause d.location
  | [], _ => .fail (.noMatchingOverload name (env.describeAll operands)) location
  | viable, _ =>
    match cheapest viable with
    | [] => .broken (.cheapestOverloadLost name)
    | [winner] =>
      let budget ← budget.charge winner.weight location
      match winner.undefined with
      | some u => .fail (.undefinedBehavior u) location
      | none => return (winner.expression, budget)
    | several => .fail (.ambiguousOverload name several.length) location

end Env

end RangeTyping
