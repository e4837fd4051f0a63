import RangeTyping.Scope.Basic

/-!
# Typed trees

The result of an analysis.  Every expression carries the identity of its value, its type and, where
its values are numbers, their range.  Conversions are nodes of their own, one for each step, so
nothing is left to decide when the tree is turned into instructions.

Identities follow four conventions:

* a variable has the identity of its storage;
* a conversion without operation and a dereferenced pointer have the identity of their operand;
* a block has the identity of its result;
* a value that is never read has the identity `ValueId.unread`.
-/

namespace RangeTyping

/-- What is known about the value of an expression. -/
structure ValueInfo where
  id : ValueId
  type : Ty
  range : Option ValueRange

/-- Attaches a range to a value that has none yet. -/
def ValueInfo.setRange (info : ValueInfo) (range : ValueRange) : Except InternalError ValueInfo :=
  match info.range with
  | some existing => .error (.rangeSetTwice info.id.text existing range)
  | none => .ok { info with range := some range }

mutual
/-- A typed expression. -/
inductive TypedExpr where
  | int (info : ValueInfo) (value : Nat)
  | bool (info : ValueInfo) (value : Bool)
  | null (info : ValueInfo)
  | variable (info : ValueInfo) (v : Variable)
  | cast (info : ValueInfo) (op : CastOp) (source : TypedExpr)
  | call (info : ValueInfo) (symbol : String) (arguments : List TypedExpr)
  | binary (info : ValueInfo) (operation : BinaryOperation) (left right : TypedExpr)
  | logicalNot (info : ValueInfo) (operand : TypedExpr)
  /-- A block without result. -/
  | block (info : ValueInfo) (statements : List TypedStmt)
  /-- A block with a result. -/
  | valueBlock (info : ValueInfo) (statements : List TypedStmt) (result : TypedExpr)
  /-- A conditional without alternative, which continues at `point`. -/
  | ifThen (info : ValueInfo) (test thenArm : TypedExpr) (point : PointId)
  /-- A conditional with an alternative that starts at `elsePoint`. -/
  | ifElse (info : ValueInfo) (test thenArm elseArm : TypedExpr) (elsePoint continuation : PointId)
  | dereference (info : ValueInfo) (pointer : TypedExpr)

/-- A typed statement. -/
inductive TypedStmt where
  | expression (e : TypedExpr)
  | define (v : Variable) (value : TypedExpr)
  | assign (target value : TypedExpr)
  | returnValue (e : TypedExpr)
  | returnVoid
end

namespace TypedExpr

/-- What is known about the expression's value. -/
def info : TypedExpr → ValueInfo
  | int i _ | bool i _ | null i | .variable i _ | cast i _ _ | call i _ _ | binary i _ _ _
  | logicalNot i _ | block i _ | valueBlock i _ _ | ifThen i _ _ _ | ifElse i _ _ _ _ _
  | dereference i _ => i

/-- The identity of the value. -/
def id (e : TypedExpr) : ValueId := e.info.id

/-- The type. -/
def type (e : TypedExpr) : Ty := e.info.type

/-- The range of the value. -/
def range (e : TypedExpr) : Option ValueRange := e.info.range

/-- **Marks the value as unread**, so that it need not be computed.  Storage keeps its identity. -/
def discard : TypedExpr → TypedExpr
  | .variable i v => .variable i v
  | dereference i p => dereference i p
  | cast i .noOp s => let s := discard s; cast { i with id := s.id } .noOp s
  | valueBlock i ss r => let r := discard r; valueBlock { i with id := r.id } ss r
  | int i v => int { i with id := .unread } v
  | bool i v => bool { i with id := .unread } v
  | null i => null { i with id := .unread }
  | cast i op s => cast { i with id := .unread } op s
  | call i f as => call { i with id := .unread } f as
  | binary i op l r => binary { i with id := .unread } op l r
  | logicalNot i e => logicalNot { i with id := .unread } e
  | block i ss => block { i with id := .unread } ss
  | ifThen i t a p => ifThen { i with id := .unread } t a p
  | ifElse i t a b p q => ifElse { i with id := .unread } t a b p q

/-- Whether the expression is a block that ends in a return statement. -/
def endsWithReturn : TypedExpr → Bool
  | block _ ss =>
    match ss.getLast? with
    | some (.returnValue _) | some .returnVoid => true
    | _ => false
  | _ => false

end TypedExpr

/-- An argument of a function: its type, its name and the identity of its storage. -/
structure Parameter where
  type : Ty
  name : String
  id : ValueId

/-- A function whose body is typed. -/
structure TypedFunction where
  name : String
  /-- The name by which the backend knows the function. -/
  symbol : String
  type : Ty
  returnType : Ty
  parameters : List Parameter
  location : Location
  body : TypedExpr

/-- A struct of a module. -/
structure TypedStruct where
  name : String
  type : Ty

/-- A module that was analysed without errors. -/
structure TypedModule where
  id : Nat
  name : String
  location : Location
  structs : List TypedStruct
  functions : List TypedFunction

/-- The first function of that name. -/
def TypedModule.function? (m : TypedModule) (name : String) : Option TypedFunction :=
  m.functions.find? (·.name == name)

end RangeTyping
