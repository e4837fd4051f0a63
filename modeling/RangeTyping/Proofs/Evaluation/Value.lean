import Mathlib
import RangeTyping.Location
import RangeTyping.Ty.Basic
import RangeTyping.Proofs.Evaluation.Number

/-!
# Values and effects

What a function computes with, and what it can do: the values of the types (`Value.Fits`), the slots of
its variables, and the world outside, which answers calls and loads through pointers.  The world may
answer as it likes, and differently each time, so it is asked together with the history of all that
was done before; a lawful world answers with values of the type that was asked for.

Each effect is a function on frames, and may end the evaluation instead: `Ending.undefined` is what the
arithmetic leaves undefined, `Ending.stuck` is a step that no well-typed function takes.
-/

namespace RangeTyping

/-! ### Values -/

/-- A value at run time.  Integers, characters and truth values are numbers. -/
inductive Value where
  | number (n : Int)
  /-- A place in the memory that pointers lead to. -/
  | address (a : Nat)
  /-- The place of a variable. -/
  | slot (x : ValueId)
  /-- A struct or an array, which is never taken apart. -/
  | whole (n : Nat)
  /-- The value of what has none. -/
  | nothing
deriving DecidableEq, Repr

/-- **The values of a type**, whatever its qualifiers are. -/
def Value.Fits (v : Value) : Ty → Prop
  | .scalar _ s => if s.kind = .void then v = .nothing else ∃ n, v = .number n ∧ s.Holds n
  | .pointer _ _ => ∃ a, v = .address a
  | .array _ _ _ | .struct _ _ | .function _ _ _ => ∃ n, v = .whole n

/-- The value is a number of the range, if there is one. -/
def Value.In (v : Value) (r : Option ValueRange) : Prop :=
  ∀ q, r = some q → ∃ n, v = .number n ∧ n ∈ q

/-! ### The world -/

/-- Something that can be observed from outside, or a change of a variable. -/
inductive Action where
  | call (symbol : String) (arguments : List Value) (result : Value)
  | load (address : Nat) (content : Value)
  | store (place value : Value)
deriving DecidableEq, Repr

/-- What calls return and what memory holds, after a history whose last action comes first. -/
structure World where
  call : List Action → String → List Value → Ty → Value
  memory : List Action → Nat → Ty → Value

/-- The world answers with values of the types. -/
structure World.Lawful (W : World) : Prop where
  call : ∀ history symbol arguments t, (W.call history symbol arguments t).Fits t
  memory : ∀ history a t, (W.memory history a t).Fits t

/-- One of the values of a type. -/
def Value.ofType : Ty → Value
  | .scalar _ s => if s.kind = .void then .nothing else .number (s.wrap 0)
  | .pointer _ _ => .address 0
  | .array _ _ _ | .struct _ _ | .function _ _ _ => .whole 0

/-- A world that always gives the same answer. -/
def World.constant : World where
  call _ _ _ t := .ofType t
  memory _ _ t := .ofType t

/-- The contents of the variables, and what was done so far, the last action first. -/
structure Frame where
  slots : ValueId → Option Value
  history : List Action

/-- The frame in which a function starts. -/
def Frame.start (parameters : List ValueId) (arguments : List Value) : Frame where
  slots x := (parameters.zip arguments).lookup x
  history := []

/-- How an evaluation ends. -/
inductive Ending where
  | returned (value : Option Value)
  | undefined
  | stuck
deriving DecidableEq, Repr

/-! ### Effects -/

/-- A step that changes the frame or ends the evaluation. -/
abbrev Effect (α : Type) : Type := Frame → Except Ending (α × Frame)

namespace Frame

variable (W : World) (F : Frame)

/-- What a place holds, as a value of type `t`. -/
def peek (t : Ty) : Value → Option Value
  | .slot x => F.slots x
  | .address a => some (W.memory F.history a t)
  | .number _ | .whole _ | .nothing => none

/-- Reads a place. -/
def load (t : Ty) : Value → Except Ending (Value × Frame)
  | .slot x =>
    match F.slots x with
    | some c => .ok (c, F)
    | none => .error .stuck
  | .address a =>
    let c := W.memory F.history a t
    .ok (c, { F with history := .load a c :: F.history })
  | .number _ | .whole _ | .nothing => .error .stuck

/-- Writes a place. -/
def store (v : Value) : Value → Except Ending (Unit × Frame)
  | .slot x => .ok ((), ⟨Function.update F.slots x (some v), .store (.slot x) v :: F.history⟩)
  | .address a => .ok ((), { F with history := .store (.address a) v :: F.history })
  | .number _ | .whole _ | .nothing => .error .stuck

/-- Calls a function that returns `t`. -/
def call (symbol : String) (arguments : List Value) (t : Ty) : Except Ending (Value × Frame) :=
  let v := W.call F.history symbol arguments t
  .ok (v, { F with history := .call symbol arguments v :: F.history })

end Frame

/-- **What a conversion does to a value.** -/
def CastOp.convert (W : World) (op : CastOp) (source destination : Ty) (v : Value) : Effect Value :=
  fun F =>
    match op with
    | .noOp => .ok (v, F)
    | .dereference => F.load W destination v
    | .truncate | .changeSign | .expandSigned | .expandUnsigned =>
      match v, source.asScalar?, destination.asScalar? with
      | .number n, some a, some b => .ok (.number (op.act a b n), F)
      | _, _, _ => .error .stuck

/-- The result of an operation, where the result is of type `t`. -/
def BinaryOperation.operate (op : BinaryOperation) (t : Ty) (a b : Value) : Effect Value := fun F =>
  match a, b, t.asScalar? with
  | .number x, .number y, some s =>
    match op.apply s x y with
    | some z => .ok (.number z, F)
    | none => .error .undefined
  | _, _, _ => .error .stuck

/-- Whether a truth value is true. -/
def Value.truth (v : Value) : Effect Bool := fun F =>
  match v with
  | .number n => .ok (n != 0, F)
  | _ => .error .stuck

/-- The opposite of a truth value. -/
def Value.negate (v : Value) : Effect Value := fun F =>
  match v with
  | .number n => .ok (.number (1 - n), F)
  | _ => .error .stuck

end RangeTyping
