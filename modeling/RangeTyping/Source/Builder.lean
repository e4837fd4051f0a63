import RangeTyping.Source.Tree

/-!
# Building source trees

A builder numbers nodes in the order in which they are made and stamps each with the place of its
cursor.  Where one call makes several nodes, the names come before the node they belong to.
-/

namespace RangeTyping.Source

/-- The file, the cursor and the number of the next node. -/
structure Builder where
  file : String
  line : Nat
  column : Nat
  nextId : Nat
deriving DecidableEq, Repr

/-- A step of building. -/
abbrev Build : Type → Type := StateM Builder

/-- A builder at the start of a file. -/
def Builder.new (file : String) : Builder := ⟨file, 1, 1, 1⟩

namespace Build

/-- Moves the cursor. -/
def moveTo (line column : Nat) : Build Unit := modify fun b => { b with line, column }

/-- The next node. -/
def node : Build Node := fun b =>
  (⟨b.nextId, ⟨b.line, b.column, b.file⟩⟩, { b with nextId := b.nextId + 1 })

/-- A name. -/
def name (text : String) : Build Name := return ⟨← node, text⟩

/-! ### Types -/

/-- A type that is written as a name. -/
def simpleType (name : String) : Build TypeExpr := return .simple (← node) name

/-- A pointer type. -/
def pointerType (pointee : TypeExpr) : Build TypeExpr := return .pointer (← node) pointee

/-- An array type. -/
def arrayType (element : TypeExpr) (count : Nat) : Build TypeExpr :=
  return .array (← node) element count

/-! ### Expressions -/

/-- A number literal. -/
def number (text : String) : Build Expr := return .number (← node) text

/-- A truth value. -/
def boolean (value : Bool) : Build Expr := return .boolean (← node) value

/-- The null literal. -/
def null : Build Expr := return .null (← node)

/-- A name used as an expression. -/
def identifier (text : String) : Build Expr := return .identifier (← name text)

/-- An operator between two expressions. -/
def binary (token : BinaryToken) (left right : Expr) : Build Expr :=
  return .binary (← node) token left right

/-- A negation. -/
def logicalNot (operand : Expr) : Build Expr := return .logicalNot (← node) operand

/-- A call. -/
def call (function : String) (arguments : List Expr) : Build Expr := do
  let function ← name function
  return .call (← node) function arguments

/-- A written conversion. -/
def cast (type : TypeExpr) (operand : Expr) : Build Expr := return .cast (← node) type operand

/-- A block. -/
def block (statements : List Stmt) (result : Option Expr) : Build Block := do
  let n ← node
  match result with
  | some r => return .value n statements r
  | none => return .unit n statements

/-- A conditional. -/
def conditional (test : Expr) (thenArm : Block) (elseArm : Option Block) : Build Expr := do
  let n ← node
  match elseArm with
  | some e => return .ifElse n test thenArm e
  | none => return .ifThen n test thenArm

/-- The value behind a pointer. -/
def dereference (pointer : Expr) : Build Expr := return .dereference (← node) pointer

/-! ### Statements and definitions -/

/-- A variable definition. -/
def define (text : String) (isMutable : Bool) (type : Option TypeExpr) (value : Expr) :
    Build Stmt := do
  let n ← name text
  return .define (← node) n isMutable type value

/-- An assignment. -/
def assign (target value : Expr) : Build Stmt := return .assign (← node) target value

/-- A return statement. -/
def returns (value : Option Expr) : Build Stmt := do
  let n ← node
  match value with
  | some e => return .returnValue n e
  | none => return .returnVoid n

/-- An argument. -/
def argument (text : String) (type : TypeExpr) : Build Argument := do
  let n ← name text
  return ⟨← node, n, type⟩

/-- A function. -/
def function (text : String) (arguments : List Argument) (returns : Option TypeExpr)
    (body : Block) : Build FunctionDef := do
  let n ← name text
  return ⟨← node, n, arguments, returns, body⟩

/-- A struct. -/
def struct (text : String) (members : List (String × TypeExpr)) : Build StructDef := do
  let n ← name text
  let members ← members.mapM fun (text, type) => do
    let m ← name text
    return (⟨← node, m, type⟩ : MemberDef)
  return ⟨← node, n, members⟩

/-- A module. -/
def compilationUnit (text : String) (definitions : List Definition) : Build Module :=
  return ⟨← node, text, definitions⟩

end Build

end RangeTyping.Source
