import RangeTyping.Source.Tree

/-!
# Outlines

The outline of a tree lists its nodes from the root down, each with what it is, its number, its
location and its own text.
-/

namespace RangeTyping.Source

/-- A line of an outline. -/
structure Row where
  kind : String
  node : Node
  text : String
deriving DecidableEq, Repr

/-- The line of a name. -/
def Name.row (n : Name) : Row := ⟨"name", n.node, n.text⟩

/-- The outline of a type. -/
def TypeExpr.outline : TypeExpr → List Row
  | simple n name => [⟨"simple", n, name⟩]
  | pointer n t => ⟨"pointer", n, ""⟩ :: t.outline
  | array n t count => ⟨"array", n, toString count⟩ :: t.outline

mutual
/-- The outline of an expression. -/
def Expr.outline : Expr → List Row
  | .number n text => [⟨"number", n, text⟩]
  | .boolean n v => [⟨"bool", n, if v then "true" else "false"⟩]
  | .null n => [⟨"null", n, ""⟩]
  | .identifier name => [⟨"identifier", name.node, name.text⟩]
  | .binary n t l r => ⟨"binary", n, t.symbol⟩ :: (l.outline ++ r.outline)
  | .logicalNot n e => ⟨"unary", n, notSymbol⟩ :: e.outline
  | .call n f as => ⟨"call", n, ""⟩ :: f.row :: Expr.outlines as
  | .cast n t e => ⟨"cast", n, ""⟩ :: (t.outline ++ e.outline)
  | .block b => b.outline
  | .ifThen n t a => ⟨"if", n, ""⟩ :: (t.outline ++ a.outline)
  | .ifElse n t a b => ⟨"if", n, ""⟩ :: (t.outline ++ a.outline ++ b.outline)
  | .dereference n e => ⟨"deref", n, ""⟩ :: e.outline

/-- The outlines of several expressions. -/
def Expr.outlines : List Expr → List Row
  | [] => []
  | e :: es => e.outline ++ Expr.outlines es

/-- The outline of a statement. -/
def Stmt.outline : Stmt → List Row
  | .expression e => ⟨"do", e.node, ""⟩ :: e.outline
  | .define n name isMutable type e =>
    ⟨"def", n, if isMutable then "mut" else ""⟩ :: name.row ::
      ((type.map TypeExpr.outline).getD [] ++ e.outline)
  | .assign n l r => ⟨"set", n, ""⟩ :: (l.outline ++ r.outline)
  | .returnValue n e => ⟨"ret", n, ""⟩ :: e.outline
  | .returnVoid n => [⟨"ret", n, ""⟩]

/-- The outlines of several statements. -/
def Stmt.outlines : List Stmt → List Row
  | [] => []
  | s :: ss => s.outline ++ Stmt.outlines ss

/-- The outline of a block. -/
def Block.outline : Block → List Row
  | .unit n ss => ⟨"compound", n, ""⟩ :: Stmt.outlines ss
  | .value n ss r =>
    ⟨"compound", n, ""⟩ :: (Stmt.outlines ss ++ ⟨"result", r.node, ""⟩ :: r.outline)
end

/-- The outline of a definition. -/
def Definition.outline : Definition → List Row
  | .function f =>
    ⟨"fn", f.node, ""⟩ :: f.name.row ::
      (f.arguments.flatMap (fun a => ⟨"arg", a.node, ""⟩ :: a.name.row :: a.type.outline) ++
        (f.returns.map TypeExpr.outline).getD [] ++ f.body.outline)
  | .struct s =>
    ⟨"struct", s.node, ""⟩ :: s.name.row ::
      s.members.flatMap (fun m => ⟨"member", m.node, ""⟩ :: m.name.row :: m.type.outline)

/-- **The outline of a module.** -/
def Module.outline (m : Module) : List Row :=
  ⟨"module", m.node, m.name⟩ :: m.definitions.flatMap Definition.outline

end RangeTyping.Source
