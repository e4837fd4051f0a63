import RangeTyping.Typed.Basic

/-!
# The event stream

A backend receives a typed module as a flat list of events, one for each thing it has to do.  An
expression first sends the events of its parts, from left to right, then its own; an assignment
sends its value before its target.  Later events refer to a value by its identity.

A conditional sends its branch, the events of the first arm, that arm's result and a jump to the
continuation; then the same for the other arm behind its point, if there is one; then it places the
continuation.
-/

namespace RangeTyping

/-- Something a backend has to do. -/
inductive Event where
  | moduleEnter (id : Nat) (name : String) (location : Location)
  | moduleLeave (id : Nat)
  | declareIdentifier (name symbol : String) (type : Ty)
  | declareStruct (type : Ty)
  | defineStruct (type : Ty)
  | functionEnter (symbol : String) (returnType : Ty) (parameters : List Parameter)
      (file : String) (location : Location)
  | functionLeave
  | returnValue (id : ValueId)
  | returnVoid
  | conditionalBranch (id : ValueId) (type : Ty) (condition : ValueId)
      (elsePoint continuation : PointId)
  | clauseResult (id : ValueId)
  | jumpPoint (point : PointId) (name : String)
  | jump (point : PointId)
  | literalInt (id : ValueId) (value : Nat) (type : Ty)
  | literalBool (id : ValueId) (value : Bool)
  | literalNull (id : ValueId) (type : Ty)
  | allocate (id : ValueId) (type : Ty) (name : String)
  | assign (target value : ValueId)
  | dereference (id : ValueId) (type : Ty) (address : ValueId)
  /-- An integer conversion; `op` is none of those that move no bits. -/
  | convert (op : CastOp) (id source : ValueId) (sourceType type : Ty)
  | call (id : ValueId) (symbol : String) (arguments : List ValueId) (returnType : Ty)
  | binary (id : ValueId) (operation : BinaryOperation) (left right : ValueId) (type : Ty)
  | logicalNot (id operand : ValueId)

namespace TypedExpr

/-- The identity that holds the value once the expression's events were sent. -/
def holder : TypedExpr → ValueId
  | valueBlock _ _ r => holder r
  | dereference _ p => holder p
  | e => e.id

/-- What an arm contributes to a conditional: its value, if the conditional's value is read. -/
def armResult (condition arm : ValueId) : ValueId :=
  if condition.isUnread then .unread else arm

/-- The event of a conversion, if it has one. -/
def castEvents (op : CastOp) (id : ValueId) (type : Ty) (source : ValueId) (sourceType : Ty) :
    List Event :=
  match op with
  | .noOp => []
  | .dereference => [.dereference id type source]
  | op => [.convert op id source sourceType type]

mutual
/-- The events of an expression. -/
def events : TypedExpr → List Event
  | int i v => [.literalInt i.id v i.type]
  | bool i v => [.literalBool i.id v]
  | null i => [.literalNull i.id i.type]
  | .variable _ _ => []
  | cast i op s => events s ++ castEvents op i.id i.type s.holder s.type
  | call i f as => eventsAll as ++ [.call i.id f (as.map holder) i.type]
  | binary i op l r => events l ++ events r ++ [.binary i.id op l.holder r.holder i.type]
  | logicalNot i e => events e ++ [.logicalNot i.id e.holder]
  | block _ ss => stmtEventsAll ss
  | valueBlock _ ss r => stmtEventsAll ss ++ events r
  | ifThen i t a p =>
    events t ++ [.conditionalBranch i.id i.type t.holder p p] ++
      events a ++ [.clauseResult (armResult i.id a.holder), .jump p] ++
      [.jumpPoint p "continuation"]
  | ifElse i t a b p q =>
    events t ++ [.conditionalBranch i.id i.type t.holder p q] ++
      events a ++ [.clauseResult (armResult i.id a.holder), .jump q, .jumpPoint p "else"] ++
      events b ++ [.clauseResult (armResult i.id b.holder), .jump q] ++
      [.jumpPoint q "continuation"]
  | dereference _ p => events p

/-- The events of several expressions, in order. -/
def eventsAll : List TypedExpr → List Event
  | [] => []
  | e :: es => events e ++ eventsAll es

/-- The events of a statement. -/
def stmtEvents : TypedStmt → List Event
  | .expression e => events e
  | .define v e =>
    events e ++ [.allocate v.id v.type.unqualified v.name, .assign v.id e.holder]
  | .assign target value =>
    events value ++ events target ++ [.assign target.holder value.holder]
  | .returnValue e =>
    events e ++ [if e.type.isVoid then .returnVoid else .returnValue e.holder]
  | .returnVoid => [.returnVoid]

/-- The events of several statements, in order. -/
def stmtEventsAll : List TypedStmt → List Event
  | [] => []
  | s :: ss => stmtEvents s ++ stmtEventsAll ss
end

end TypedExpr

/-- The events of a function.  A body that does not end in a return statement returns its value. -/
def TypedFunction.events (file : String) (f : TypedFunction) : List Event :=
  [.functionEnter f.symbol f.returnType f.parameters file f.location] ++ f.body.events ++
    (if f.body.endsWithReturn then []
     else [if f.returnType.isVoid then .returnVoid else .returnValue f.body.holder]) ++
    [.functionLeave]

/-- **The events of a module.** -/
def TypedModule.events (S : StructStore) (m : TypedModule) : List Event :=
  [.moduleEnter m.id m.name m.location] ++
    m.structs.map (fun s => .declareStruct s.type) ++
    (m.structs.filter fun s => s.type.asStruct?.any S.isComplete).map (fun s =>
      .defineStruct s.type) ++
    m.functions.map (fun f => .declareIdentifier f.name f.symbol f.type) ++
    m.functions.flatMap (TypedFunction.events m.location.file) ++
    [.moduleLeave m.id]

end RangeTyping
