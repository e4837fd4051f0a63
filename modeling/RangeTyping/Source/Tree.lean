import RangeTyping.Location

/-!
# Source trees

A module is a list of structs and functions.  A function's body is a block: statements, and maybe a
result, in a scope of their own.  Every node has a number and a location; names are nodes too.

Blocks, conditionals and return statements come in two forms each, with and without the optional
part, so that every part of a tree is really there.
-/

namespace RangeTyping.Source

/-- What all nodes have: a number, which is unique, and a location. -/
structure Node where
  id : Nat
  location : Location
deriving DecidableEq, Repr

/-- A name where it is written. -/
structure Name where
  node : Node
  text : String
deriving DecidableEq, Repr

/-- A type where it is written. -/
inductive TypeExpr where
  | simple (node : Node) (name : String)
  | pointer (node : Node) (pointee : TypeExpr)
  | array (node : Node) (element : TypeExpr) (count : Nat)
deriving DecidableEq, Repr

/-- The operators between two expressions. -/
inductive BinaryToken where
  | add
  | sub
  | mul
  | div
  | eq
  | ne
  | lt
  | le
  | gt
  | ge
deriving DecidableEq, Repr

namespace BinaryToken

/-- All operators. -/
def all : List BinaryToken := [add, sub, mul, div, eq, ne, lt, le, gt, ge]

/-- The operator as it is written, which is also the name of its overload set. -/
def symbol : BinaryToken → String
  | add => "+"
  | sub => "-"
  | mul => "*"
  | div => "/"
  | eq => "=="
  | ne => "!="
  | lt => "<"
  | le => "<="
  | gt => ">"
  | ge => ">="

end BinaryToken

/-- Logical negation as it is written. -/
def notSymbol : String := "!"

mutual
/-- An expression. -/
inductive Expr where
  | number (node : Node) (text : String)
  | boolean (node : Node) (value : Bool)
  | null (node : Node)
  | identifier (name : Name)
  | binary (node : Node) (token : BinaryToken) (left right : Expr)
  | logicalNot (node : Node) (operand : Expr)
  | call (node : Node) (function : Name) (arguments : List Expr)
  | cast (node : Node) (type : TypeExpr) (operand : Expr)
  | block (body : Block)
  /-- A conditional without alternative. -/
  | ifThen (node : Node) (test : Expr) (thenArm : Block)
  /-- A conditional with an alternative. -/
  | ifElse (node : Node) (test : Expr) (thenArm elseArm : Block)
  | dereference (node : Node) (pointer : Expr)

/-- A statement. -/
inductive Stmt where
  | expression (e : Expr)
  | define (node : Node) (name : Name) (isMutable : Bool) (type : Option TypeExpr) (value : Expr)
  | assign (node : Node) (target value : Expr)
  | returnValue (node : Node) (value : Expr)
  | returnVoid (node : Node)

/-- Statements in a scope of their own. -/
inductive Block where
  /-- A block without result. -/
  | unit (node : Node) (statements : List Stmt)
  /-- A block with a result. -/
  | value (node : Node) (statements : List Stmt) (result : Expr)
end

namespace Block

/-- The block's own node. -/
def node : Block → Node
  | unit n _ | value n _ _ => n

/-- The statements. -/
def statements : Block → List Stmt
  | unit _ ss | value _ ss _ => ss

/-- Whether the block has a result. -/
def hasResult : Block → Bool
  | unit _ _ => false
  | value _ _ _ => true

/-- Whether the last statement is a return. -/
def endsWithReturn (b : Block) : Bool :=
  match b.statements.getLast? with
  | some (.returnValue _ _) | some (.returnVoid _) => true
  | _ => false

end Block

namespace Expr

/-- The expression's own node. -/
def node : Expr → Node
  | number n _ | boolean n _ | null n | binary n _ _ _ | logicalNot n _ | call n _ _ | cast n _ _
  | ifThen n _ _ | ifElse n _ _ _ | dereference n _ => n
  | identifier name => name.node
  | block b => b.node

/-- Where the expression stands. -/
def location (e : Expr) : Location := e.node.location

end Expr

/-- An argument of a function. -/
structure Argument where
  node : Node
  name : Name
  type : TypeExpr

/-- A function. -/
structure FunctionDef where
  node : Node
  name : Name
  arguments : List Argument
  /-- The result type; without one the function returns nothing. -/
  returns : Option TypeExpr
  body : Block

/-- A member of a struct. -/
structure MemberDef where
  node : Node
  name : Name
  type : TypeExpr

/-- A struct. -/
structure StructDef where
  node : Node
  name : Name
  members : List MemberDef

/-- A definition of a module. -/
inductive Definition where
  | function (f : FunctionDef)
  | struct (s : StructDef)

/-- A compilation unit. -/
structure Module where
  node : Node
  name : String
  definitions : List Definition

namespace Module

/-- The structs, in order. -/
def structs (m : Module) : List StructDef :=
  m.definitions.filterMap fun
    | .struct s => some s
    | .function _ => none

/-- The functions, in order. -/
def functions (m : Module) : List FunctionDef :=
  m.definitions.filterMap fun
    | .function f => some f
    | .struct _ => none

end Module

end RangeTyping.Source
