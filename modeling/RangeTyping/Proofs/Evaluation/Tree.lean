import Mathlib
import RangeTyping.Typed.Event
import RangeTyping.Proofs.Evaluation.Value

/-!
# Evaluation of typed trees

The meaning of a typed tree, by evaluation in depth-first order: operands from left to right, and in
an assignment the value before its target.  A conversion acts by its operation, a return statement
stops the evaluation, and so does arithmetic that is undefined.

The value of an expression of a reference type is a place.  Evaluation also keeps a record of all the
expressions that were evaluated (`Sighting`): the value of each, or what its place held at that moment.
-/

namespace RangeTyping

/-! ### Evaluations -/

/-- An evaluated expression, with its value; that of a place is what it held. -/
structure Sighting where
  expr : TypedExpr
  content : Option Value

/-- How far an evaluation has come. -/
structure Progress where
  frame : Frame
  /-- The last one first. -/
  sightings : List Sighting

/-- A computation that gives a value or ends. -/
abbrev Evaluation (α : Type) : Type := EStateM Ending Progress α

namespace Evaluation

section
variable {α β : Type} {x : Evaluation α} {f : α → Evaluation β} {s s₁ s' : Progress} {a : α} {b : β}
  {e : Ending}

theorem bind_of_ok (h : x s = .ok a s₁) : (x >>= f) s = f a s₁ := by
  show EStateM.bind x f s = f a s₁
  rw [EStateM.bind, h]

theorem bind_of_error (h : x s = .error e s₁) : (x >>= f) s = .error e s₁ := by
  show EStateM.bind x f s = .error e s₁
  rw [EStateM.bind, h]

theorem bind_ok (h : (x >>= f) s = .ok b s') : ∃ a s₁, x s = .ok a s₁ ∧ f a s₁ = .ok b s' := by
  cases hx : x s with
  | ok a s₁ =>
    rw [bind_of_ok hx] at h
    exact ⟨a, s₁, rfl, h⟩
  | error e s₁ =>
    rw [bind_of_error hx] at h
    cases h

end

/-- Performs an effect. -/
def perform {α : Type} (x : Effect α) : Evaluation α := fun s =>
  match x s.frame with
  | .ok (a, F) => .ok a { s with frame := F }
  | .error e => .error e s

/-- Ends the evaluation. -/
def stop {α : Type} (e : Ending) : Evaluation α := fun s => .error e s

/-- Records that the expression was evaluated to `v`. -/
def record (W : World) (e : TypedExpr) (v : Value) : Evaluation Value := fun s =>
  let content := if e.type.isReference then s.frame.peek W e.type.unqualified v else some v
  .ok v { s with sightings := ⟨e, content⟩ :: s.sightings }

end Evaluation

open Evaluation

mutual
/-- **The value of an expression.** -/
def TypedExpr.evaluate (W : World) : TypedExpr → Evaluation Value
  | .int i n => record W (.int i n) (.number n)
  | .bool i b => record W (.bool i b) (.number (truthNumber b))
  | .null i => record W (.null i) (.address 0)
  | .variable i v => record W (.variable i v) (.slot v.id)
  | .cast i op e => do
    let v ← evaluate W e
    let w ← perform (op.convert W e.type i.type v)
    record W (.cast i op e) w
  | .call i f as => do
    let vs ← evaluateAll W as
    let v ← perform fun F => F.call W f vs i.type
    record W (.call i f as) v
  | .binary i op l r => do
    let a ← evaluate W l
    let b ← evaluate W r
    let v ← perform (op.operate i.type a b)
    record W (.binary i op l r) v
  | .logicalNot i e => do
    let a ← evaluate W e
    let v ← perform a.negate
    record W (.logicalNot i e) v
  | .block i ss => do
    execute W ss
    record W (.block i ss) .nothing
  | .valueBlock i ss r => do
    execute W ss
    let v ← evaluate W r
    record W (.valueBlock i ss r) v
  | .ifThen i t a p => do
    let c ← evaluate W t
    let holds ← perform c.truth
    let _ ← (if holds then evaluate W a else pure .nothing)
    record W (.ifThen i t a p) .nothing
  | .ifElse i t a b p q => do
    let c ← evaluate W t
    let holds ← perform c.truth
    let v ← (if holds then evaluate W a else evaluate W b)
    record W (.ifElse i t a b p q) v
  | .dereference i p => do
    let v ← evaluate W p
    record W (.dereference i p) v

/-- The values of several expressions, from left to right. -/
def TypedExpr.evaluateAll (W : World) : List TypedExpr → Evaluation (List Value)
  | [] => pure []
  | e :: es => do
    let v ← evaluate W e
    let vs ← evaluateAll W es
    pure (v :: vs)

/-- Executes a statement. -/
def TypedExpr.executeOne (W : World) : TypedStmt → Evaluation Unit
  | .expression e => do
    let _ ← evaluate W e
    pure ()
  | .define v e => do
    let a ← evaluate W e
    perform fun F => F.store a (.slot v.id)
  | .assign t e => do
    let a ← evaluate W e
    let place ← evaluate W t
    perform fun F => F.store a place
  | .returnValue e => do
    let v ← evaluate W e
    stop (.returned (if e.type.isVoid then none else some v))
  | .returnVoid => stop (.returned none)

/-- Executes statements, in order. -/
def TypedExpr.execute (W : World) : List TypedStmt → Evaluation Unit
  | [] => pure ()
  | s :: ss => do
    executeOne W s
    execute W ss
end

/-- **The evaluation of a function**: how it ends, and what was done until then. -/
def TypedFunction.evaluate (W : World) (f : TypedFunction) (arguments : List Value) :
    Ending × Progress :=
  match f.body.evaluate W ⟨.start (f.parameters.map (·.id)) arguments, []⟩ with
  | .ok v s => (.returned (if f.returnType.isVoid then none else some v), s)
  | .error e s => (e, s)

/-! ### Returning -/

namespace TypedExpr

variable {W : World} {s s' : Progress}

/-- Where statements are executed to their end, the last one is. -/
theorem exists_executeOne_ok {before : List TypedStmt} {last : TypedStmt} {u : Unit}
    (h : execute W (before ++ [last]) s = .ok u s') : ∃ s₁ s₂, executeOne W last s₁ = .ok () s₂ := by
  induction before generalizing s with
  | nil =>
    rw [List.nil_append, execute] at h
    obtain ⟨_, s₁, hlast, -⟩ := bind_ok h
    exact ⟨s, s₁, hlast⟩
  | cons st before ih =>
    rw [List.cons_append, execute] at h
    obtain ⟨_, s₁, -, hrest⟩ := bind_ok h
    exact ih hrest

/-- **A body that ends in a return statement returns.** -/
theorem evaluate_ne_ok_of_endsWithReturn {e : TypedExpr} (h : e.endsWithReturn = true) (v : Value) :
    e.evaluate W s ≠ .ok v s' := by
  intro hok
  unfold endsWithReturn at h
  split at h
  · rename_i i ss
    rw [evaluate] at hok
    obtain ⟨_, s₁, hss, -⟩ := bind_ok hok
    split at h
    · rename_i value hlast
      obtain ⟨before, rfl⟩ := List.getLast?_eq_some_iff.1 hlast
      obtain ⟨s₂, s₃, hreturn⟩ := exists_executeOne_ok hss
      rw [executeOne] at hreturn
      obtain ⟨_, s₄, -, hstop⟩ := bind_ok hreturn
      cases hstop
    · rename_i hlast
      obtain ⟨before, rfl⟩ := List.getLast?_eq_some_iff.1 hlast
      obtain ⟨s₂, s₃, hreturn⟩ := exists_executeOne_ok hss
      rw [executeOne] at hreturn
      cases hreturn
    · cases h
  · cases h

end TypedExpr

end RangeTyping
