import RangeTyping.Typed.Event

/-!
# Numbering identities

Only which identities are equal matters, not their numbers.  Renumbering them 1, 2, 3, … in the
order of their first appearance gives a tree or a stream its canonical form: two of them have the
same one exactly when they differ in the choice of identities only.  Values and branch targets are
numbered apart, and the identity of unread values stays zero.
-/

namespace RangeTyping

/-- The identities met so far, in order. -/
structure Numbering where
  values : Array Nat
  points : Array Nat

namespace Numbering

/-- Nothing was met. -/
def empty : Numbering := ⟨#[], #[]⟩

/-- The number of `i` among the identities in `seen`, which it joins if it is new. -/
def number (seen : Array Nat) (i : Nat) : Nat × Array Nat :=
  match seen.idxOf? i with
  | some k => (k + 1, seen)
  | none => (seen.size + 1, seen.push i)

/-- Renumbers a value. -/
def value (v : ValueId) : StateM Numbering ValueId := fun n =>
  if v.isUnread then (v, n)
  else
    let (k, values) := number n.values v.index
    (⟨k⟩, { n with values })

/-- Renumbers a branch target. -/
def point (p : PointId) : StateM Numbering PointId := fun n =>
  let (k, points) := number n.points p.index
  (⟨k⟩, { n with points })

/-- Renumbers an expression's own identity. -/
def info (i : ValueInfo) : StateM Numbering ValueInfo := do
  return { i with id := ← value i.id }

/-- Renumbers a variable. -/
def variableOf (v : Variable) : StateM Numbering Variable := do
  return { v with id := ← value v.id }

mutual
/-- Renumbers an expression: its own identity, then its branch targets, then its parts. -/
def expr : TypedExpr → StateM Numbering TypedExpr
  | .int i v => do return .int (← info i) v
  | .bool i v => do return .bool (← info i) v
  | .null i => do return .null (← info i)
  | .variable i v => do
    let i ← info i
    return .variable i (← variableOf v)
  | .cast i op s => do
    let i ← info i
    return .cast i op (← expr s)
  | .call i f as => do
    let i ← info i
    return .call i f (← exprs as)
  | .binary i op l r => do
    let i ← info i
    let l ← expr l
    return .binary i op l (← expr r)
  | .logicalNot i e => do
    let i ← info i
    return .logicalNot i (← expr e)
  | .block i ss => do
    let i ← info i
    return .block i (← stmts ss)
  | .valueBlock i ss r => do
    let i ← info i
    let ss ← stmts ss
    return .valueBlock i ss (← expr r)
  | .ifThen i t a p => do
    let i ← info i
    let p ← point p
    let t ← expr t
    return .ifThen i t (← expr a) p
  | .ifElse i t a b p q => do
    let i ← info i
    let p ← point p
    let q ← point q
    let t ← expr t
    let a ← expr a
    return .ifElse i t a (← expr b) p q
  | .dereference i p => do
    let i ← info i
    return .dereference i (← expr p)

/-- Renumbers several expressions, in order. -/
def exprs : List TypedExpr → StateM Numbering (List TypedExpr)
  | [] => return []
  | e :: es => do
    let e ← expr e
    return e :: (← exprs es)

/-- Renumbers a statement. -/
def stmt : TypedStmt → StateM Numbering TypedStmt
  | .expression e => do return .expression (← expr e)
  | .define v e => do
    let v ← variableOf v
    return .define v (← expr e)
  | .assign target e => do
    let target ← expr target
    return .assign target (← expr e)
  | .returnValue e => do return .returnValue (← expr e)
  | .returnVoid => return .returnVoid

/-- Renumbers several statements, in order. -/
def stmts : List TypedStmt → StateM Numbering (List TypedStmt)
  | [] => return []
  | s :: ss => do
    let s ← stmt s
    return s :: (← stmts ss)
end

/-- Renumbers a parameter. -/
def parameter (p : Parameter) : StateM Numbering Parameter := do
  return { p with id := ← value p.id }

/-- Renumbers a function: its parameters, then its body. -/
def function (f : TypedFunction) : StateM Numbering TypedFunction := do
  let parameters ← f.parameters.mapM parameter
  return { f with parameters, body := ← expr f.body }

/-- Renumbers a module. -/
def typedModule (m : TypedModule) : StateM Numbering TypedModule := do
  return { m with functions := ← m.functions.mapM function }

/-- Renumbers an event. -/
def event : Event → StateM Numbering Event
  | .functionEnter f t ps file l => do return .functionEnter f t (← ps.mapM parameter) file l
  | .returnValue v => do return .returnValue (← value v)
  | .conditionalBranch v t c p q => do
    let v ← value v
    let c ← value c
    let p ← point p
    return .conditionalBranch v t c p (← point q)
  | .clauseResult v => do return .clauseResult (← value v)
  | .jumpPoint p name => do return .jumpPoint (← point p) name
  | .jump p => do return .jump (← point p)
  | .literalInt v n t => do return .literalInt (← value v) n t
  | .literalBool v b => do return .literalBool (← value v) b
  | .literalNull v t => do return .literalNull (← value v) t
  | .allocate v t name => do return .allocate (← value v) t name
  | .assign target v => do
    let target ← value target
    return .assign target (← value v)
  | .dereference v t a => do
    let v ← value v
    return .dereference v t (← value a)
  | .convert op v s st t => do
    let v ← value v
    return .convert op v (← value s) st t
  | .call v f as t => do
    let v ← value v
    return .call v f (← as.mapM value) t
  | .binary v op l r t => do
    let v ← value v
    let l ← value l
    return .binary v op l (← value r) t
  | .logicalNot v a => do
    let v ← value v
    return .logicalNot v (← value a)
  | e => return e

/-- Renumbers a stream. -/
def stream (es : List Event) : StateM Numbering (List Event) := es.mapM event

end Numbering

end RangeTyping
