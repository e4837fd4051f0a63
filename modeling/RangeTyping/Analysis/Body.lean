import RangeTyping.Analysis.Overload
import RangeTyping.Source.Number

/-!
# Analysing bodies

Expressions, statements and blocks, by recursion on the source tree.  An expression is analysed
under a hint, the type that its value will be converted to if that is known; the hint decides
between overloads, and the conversion itself follows afterwards.

Operands of operators and calls share the budget of the expression they stand in.  Statements inside
a block, and the test of a conditional, have budgets of their own.
-/

namespace RangeTyping.Env

open Source (Expr Stmt Block)

/-! ### Leaves -/

/-- The value of a name. -/
def identifier (env : Env) (name : Source.Name) : Analysis TypedExpr :=
  match env.context.object? name.text with
  | some (.variable v) => return .variable ⟨v.id, v.type, v.range⟩ v
  | some (.function _) => .fail (.functionAsValue name.text) name.node.location
  | none => .fail (.unknownIdentifier name.text) name.node.location

/-- A truth value. -/
def boolean (env : Env) (value : Bool) : Analysis TypedExpr :=
  return .bool ⟨← .freshValue, env.types.boolTy, some (.ofBool value)⟩ value

/-- The place that a pointer points to. -/
def pointee (location : Location) (pointer : TypedExpr) : Analysis TypedExpr :=
  match pointer.type with
  | .pointer _ t =>
    return .dereference ⟨pointer.id, t.addFlags .ref, ← t.fullRange⟩ pointer
  | t => .fail (.dereferenceNonPointer t) location

/-! ### Nodes made of analysed parts -/

/-- A block with a result has its result's identity, type and range. -/
def valueBlock (statements : List TypedStmt) (result : TypedExpr) : TypedExpr :=
  .valueBlock result.info statements result

/-- A block without result. -/
def unitBlock (env : Env) (statements : List TypedStmt) : TypedExpr :=
  .block ⟨.unread, env.types.voidTy, none⟩ statements

/-- The range of a conditional: that of both arms together. -/
def hullRange : Option ValueRange → Option ValueRange → Except InternalError (Option ValueRange)
  | some a, some b => some <$> a.hull b
  | _, _ => .ok none

/-- A conditional whose arms have the type `type`. -/
def conditional (type : Ty) (test thenArm elseArm : TypedExpr) (elsePoint : PointId) :
    Analysis TypedExpr := do
  let range ← hullRange thenArm.range elseArm.range
  let id ← if type.isVoid then pure .unread else .freshValue
  return .ifElse ⟨id, type, range⟩ test thenArm elseArm elsePoint (← .freshPoint)

/-- The type that a variable is declared with, which must have values. -/
def declaredType (env : Env) (name : Source.Name) (location : Location) (type : Source.TypeExpr) :
    Analysis Ty := do
  let t ← env.resolveType type
  if t.isVoid then .fail (.invalidVariableType name.text t) location
  return t

/-- A variable definition, given its value.  What is known about a mutable variable's value does not
last. -/
def defineVariable (env : Env) (name : Source.Name) (isMutable : Bool) (location : Location)
    (value : TypedExpr) : Analysis (TypedStmt × Env) := do
  let range ← if isMutable then value.type.fullRange else pure value.range
  let (v, env) ← env.declare name.text value.type isMutable range location
  return (.define v value, env)

/-- Refuses what cannot be assigned to. -/
def checkAssignable (target : TypedExpr) (location : Location) : Analysis Unit :=
  if target.type.isReference && target.type.isMutable then return ()
  else .fail (.assignToImmutable target.type) location

/-- A return without value. -/
def returnNothing (env : Env) (location : Location) : Analysis TypedStmt :=
  if env.returnType.isVoid then return .returnVoid
  else .fail (.missingReturn env.function env.returnType) location

/-! ### The recursion -/

mutual
/-- Analyses an expression. -/
def operand (env : Env) (budget : Budget) (hint : Option Ty) :
    Expr → Analysis (Operand × Budget)
  | .number n text =>
    match Source.number? text with
    | some value => return (.number value, budget)
    | none => .fail (.invalidLiteral text) n.location
  | .boolean _ value => do return (.typed (← env.boolean value), budget)
  | .null _ => return (.null, budget)
  | .identifier name => do return (.typed (← env.identifier name), budget)
  | .binary n token left right => do
    let overloads ← env.overloads token.symbol n.location
    let (l, budget) ← operand env budget none left
    let (r, budget) ← operand env budget none right
    let (e, budget) ← env.select budget token.symbol overloads [l, r] hint n.location
    return (.typed e, budget)
  | .logicalNot n e => do
    let overloads ← env.overloads Source.notSymbol n.location
    let (o, budget) ← operand env budget none e
    let (e, budget) ← env.select budget Source.notSymbol overloads [o] hint n.location
    return (.typed e, budget)
  | .call n function arguments => do
    let overloads ← env.overloads function.text n.location
    let (os, budget) ← operands env budget arguments
    let (e, budget) ← env.select budget function.text overloads os hint n.location
    return (.typed e, budget)
  | .cast n type e => do
    let destination ← env.resolveType type
    let (o, budget) ← operand env budget none e
    let (e, budget) ← env.coerce budget destination false n.location o
    return (.typed e, budget)
  | .block b => do
    let (e, budget) ← block env budget hint b
    return (.typed e, budget)
  | .ifThen _ test thenArm => do
    let testBudget := env.expressionBudget
    let (t, testBudget) ← operand env testBudget (some env.types.boolTy) test
    let (t, _) ← env.settle testBudget (some env.types.boolTy) test.location t
    let point ← .freshPoint
    let (a, budget) ← block env budget none thenArm
    return (.typed (.ifThen ⟨.unread, env.types.voidTy, none⟩ t a.discard point), budget)
  | .ifElse _ test thenArm elseArm => do
    let testBudget := env.expressionBudget
    let (t, testBudget) ← operand env testBudget (some env.types.boolTy) test
    let (t, _) ← env.settle testBudget (some env.types.boolTy) test.location t
    let elsePoint ← .freshPoint
    let (a, budget) ← block env budget hint thenArm
    let type := hint.getD a.type.unqualified
    let (a, budget) ← env.convert budget type true thenArm.node.location a
    let (b, budget) ← block env budget (some type) elseArm
    let (b, budget) ← env.convert budget type true elseArm.node.location b
    return (.typed (← conditional type t a b elsePoint), budget)
  | .dereference n e => do
    let (o, budget) ← operand env budget none e
    let (p, budget) ← env.plain budget e.location o
    return (.typed (← pointee n.location p), budget)

/-- Analyses several expressions from left to right. -/
def operands (env : Env) (budget : Budget) : List Expr → Analysis (List Operand × Budget)
  | [] => return ([], budget)
  | e :: es => do
    let (o, budget) ← operand env budget none e
    let (os, budget) ← operands env budget es
    return (o :: os, budget)

/-- Analyses a block in a scope of its own. -/
def block (env : Env) (budget : Budget) (hint : Option Ty) : Block → Analysis (TypedExpr × Budget)
  | .unit _ ss => do
    let (ss, inner) ← statements env.enter ss
    return (inner.unitBlock ss, budget)
  | .value _ ss result => do
    let (ss, inner) ← statements env.enter ss
    let (o, budget) ← operand inner budget hint result
    let (r, budget) ← inner.settle budget hint result.location o
    return (valueBlock ss r, budget)

/-- Analyses a statement; a definition is known to the statements after it. -/
def statement (env : Env) : Stmt → Analysis (TypedStmt × Env)
  | .expression e => do
    let (o, budget) ← operand env env.expressionBudget none e
    let (e, _) ← env.settle budget none e.location o
    return (.expression e.discard, env)
  | .define n name isMutable type e => do
    match type with
    | some type =>
      let t ← env.declaredType name n.location type
      let (o, budget) ← operand env env.initializerBudget (some t) e
      let (value, _) ← env.settle budget (some t) e.location o
      env.defineVariable name isMutable n.location value
    | none =>
      let (o, budget) ← operand env env.initializerBudget none e
      let (value, _) ← env.plain budget e.location o
      env.defineVariable name isMutable n.location value
  | .assign _ target e => do
    let (o, budget) ← operand env env.expressionBudget none target
    let (t, budget) ← env.settle budget none target.location o
    checkAssignable t target.location
    let type := t.type.unqualified
    let (o, budget) ← operand env budget (some type) e
    let (value, _) ← env.settle budget (some type) e.location o
    return (.assign t value, env)
  | .returnValue _ e => do
    let (o, budget) ← operand env env.expressionBudget (some env.returnType) e
    let (value, _) ← env.settle budget (some env.returnType) e.location o
    return (.returnValue value, env)
  | .returnVoid n => do return (← env.returnNothing n.location, env)

/-- Analyses statements in order. -/
def statements (env : Env) : List Stmt → Analysis (List TypedStmt × Env)
  | [] => return ([], env)
  | s :: ss => do
    let (s, env) ← statement env s
    let (ss, env) ← statements env ss
    return (s :: ss, env)
end

end RangeTyping.Env
