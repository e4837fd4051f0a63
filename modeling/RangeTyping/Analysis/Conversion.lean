import RangeTyping.Analysis.Basic

/-!
# Typing literals and converting expressions

Integer and null literals have no type of their own.  They stay as they are until the type they
have to become is known; an integer literal that fits that type is typed as it directly, at the
type's literal weight.  Where no type is asked for, an integer literal takes the first builtin
integer that it fits, in the order of literal weights, and a null literal is an error.

Any other expression is converted by a chain of conversions, which is spliced in as one node for
each of them.
-/

namespace RangeTyping

/-- An analysed expression, or a literal whose type is still open. -/
inductive Operand where
  | typed (e : TypedExpr)
  | number (value : Nat)
  | null

namespace Operand

/-- The operand as it is written in messages. -/
def describe (S : StructStore) : Operand → String
  | typed e => e.type.text S
  | number value => s!"integer literal {value}"
  | null => "null"

end Operand

namespace Env

/-! ### Literals -/

/-- The literal `value` of the given type. -/
def intLiteral (value : Nat) (type : Ty) (scalar : Scalar) : Analysis TypedExpr := do
  let id ← .freshValue
  let range ← scalar.literalRange value
  return .int ⟨id, type, some range⟩ value

/-- The first of the given scalars that has the value. -/
def firstFitting? (value : Nat) : List Scalar → Except InternalError (Option Scalar)
  | [] => .ok none
  | s :: rest => do
    if ← s.hasValue value then return some s
    firstFitting? value rest

/-- An integer literal of the cheapest type. -/
def naturalNumber (env : Env) (budget : Budget) (value : Nat) (location : Location) :
    Analysis (TypedExpr × Budget) := do
  match ← firstFitting? value env.types.integers with
  | some s =>
    let budget ← budget.charge s.literalWeight location
    return (← intLiteral value (.ofScalar s) s, budget)
  | none => .fail (.invalidLiteral (toString value)) location

/-- An operand where no type is asked for. -/
def natural (env : Env) (budget : Budget) (location : Location) :
    Operand → Analysis (TypedExpr × Budget)
  | .typed e => return (e, budget)
  | .number value => env.naturalNumber budget value location
  | .null => .fail .untypedNull location

/-! ### Conversion -/

/-- One conversion as a node.  Without an operation the value keeps its identity. -/
def castNode (e : TypedExpr) (s : ChainStep) : Analysis TypedExpr := do
  let id ← if s.cast.op = .noOp then pure e.id else .freshValue
  return .cast ⟨id, s.cast.destination, s.range⟩ s.cast.op e

/-- **Converts an expression** by the cheapest chain of conversions. -/
def convert (env : Env) (budget : Budget) (destination : Ty) (implicit : Bool)
    (location : Location) (e : TypedExpr) : Analysis (TypedExpr × Budget) := do
  let query : CastQuery := ⟨e.type, e.range, destination, implicit, budget.remaining⟩
  let resolved := query.resolve env.structs env.context.castGraph
  let chain ← resolved.mapError fun error => (⟨.cast error, location⟩ : Diagnostic)
  let budget ← budget.charge chain.weight location
  return (← chain.steps.foldlM castNode e, budget)

/-- The scalar of an integer type that has the value. -/
def literalScalar? (value : Nat) (type : Ty) : Except InternalError (Option Scalar) := do
  match type.asScalar? with
  | some s => if s.isInteger && (← s.hasValue value) then return some s else return none
  | none => return none

/-- **Turns an operand into a value of a given type.** -/
def coerce (env : Env) (budget : Budget) (destination : Ty) (implicit : Bool)
    (location : Location) : Operand → Analysis (TypedExpr × Budget)
  | .typed e => env.convert budget destination implicit location e
  | .number value => do
    match ← literalScalar? value destination with
    | some s =>
      let budget ← budget.charge s.literalWeight location
      return (← intLiteral value destination s, budget)
    | none =>
      let (e, budget) ← env.naturalNumber budget value location
      env.convert budget destination implicit location e
  | .null =>
    if destination.isPointer then do
      return (.null ⟨← .freshValue, destination, none⟩, budget)
    else
      .fail .untypedNull location

/-- An operand as the type that is expected, or as its own where none is. -/
def settle (env : Env) (budget : Budget) (expected : Option Ty) (location : Location)
    (operand : Operand) : Analysis (TypedExpr × Budget) :=
  match expected with
  | some destination => env.coerce budget destination true location operand
  | none => env.natural budget location operand

/-- An operand as a plain value: what a variable holds and not the variable. -/
def plain (env : Env) (budget : Budget) (location : Location) (operand : Operand) :
    Analysis (TypedExpr × Budget) := do
  let (e, budget) ← env.natural budget location operand
  env.convert budget e.type.unqualified true location e

end Env

end RangeTyping
