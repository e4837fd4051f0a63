import Mathlib
import RangeTyping.Proofs.Evaluation.Tree
import RangeTyping.Proofs.Stream.Control

/-!
# A machine that executes streams

The meaning of a stream of events: a machine goes along it and holds a value for each identity.  An
allocation makes the place of a variable, and assignments change what places hold.  A branch goes on with
the next event if its condition is true and to its point otherwise; it opens a conditional, which is
closed where its continuation is placed, and the result of an arm is given to the innermost conditional
that is open.  Jumps go to the place of their point in the whole stream.

The machine does what `RangeTyping.Proofs.Evaluation.Value` says about loads, stores, calls and operations,
so its history can be compared with that of an evaluation (`Program.Replays`).
-/

namespace RangeTyping

/-- The state of a machine. -/
structure Machine where
  rest : List Event
  values : ValueId → Option Value
  frame : Frame
  /-- The identities and continuations of the open conditionals, the innermost first. -/
  pending : List (ValueId × PointId)

namespace Machine

/-- The value of an identity. -/
def read (M : Machine) (i : ValueId) : Except Ending Value :=
  match M.values i with
  | some v => .ok v
  | none => .error .stuck

/-- Gives a value to an identity, unless it is that of values that are not read. -/
def give (M : Machine) (i : ValueId) (v : Value) : Machine :=
  if i = .unread then M else { M with values := Function.update M.values i (some v) }

/-- Performs an effect and gives its result to an identity. -/
def produce (M : Machine) (i : ValueId) (x : Effect Value) : Except Ending Machine := do
  let (v, F) ← x M.frame
  return { M with frame := F }.give i v

section
variable (M : Machine) {i j : ValueId} (v : Value)

@[simp] theorem give_rest : (M.give i v).rest = M.rest := by
  unfold give
  split <;> rfl

@[simp] theorem give_frame : (M.give i v).frame = M.frame := by
  unfold give
  split <;> rfl

@[simp] theorem give_pending : (M.give i v).pending = M.pending := by
  unfold give
  split <;> rfl

theorem give_values_self (h : i ≠ .unread) : (M.give i v).values i = some v := by
  rw [give, if_neg h]
  exact Function.update_self ..

theorem give_values_of_ne (h : j ≠ i) : (M.give i v).values j = M.values j := by
  unfold give
  split
  · rfl
  · exact Function.update_of_ne h ..

theorem give_values_of_unread (h : i = .unread) : (M.give i v).values j = M.values j := by
  rw [give, if_pos h]

end

/-- Closes the innermost conditional, if it continues at `p`. -/
def close (M : Machine) (p : PointId) : Machine :=
  match M.pending with
  | (_, q) :: others => if q = p then { M with pending := others } else M
  | [] => M

/-- **The machine `M` has gone on from `M₀` to `post`**, in the frame `F`: the same conditionals are open, and
only the identities in `written` have new values. -/
structure Since (M₀ : Machine) (post : List Event) (written : List ValueId) (F : Frame) (M : Machine) :
    Prop where
  rest : M.rest = post
  frame : M.frame = F
  pending : M.pending = M₀.pending
  kept : ∀ i, i ∉ written → M.values i = M₀.values i

namespace Since

variable {M₀ M₁ M₂ : Machine} {post post' : List Event} {w w' : List ValueId} {F F' : Frame}

theorem trans (h : M₀.Since post w F M₁) (h' : M₁.Since post' w' F' M₂) :
    M₀.Since post' (w ++ w') F' M₂ where
  rest := h'.rest
  frame := h'.frame
  pending := h'.pending.trans h.pending
  kept i hi := by
    rw [List.mem_append, not_or] at hi
    rw [h'.kept i hi.2, h.kept i hi.1]

theorem mono (h : M₀.Since post w F M₁) (hw : w ⊆ w') : M₀.Since post w' F M₁ :=
  ⟨h.rest, h.frame, h.pending, fun i hi => h.kept i fun hmem => hi (hw hmem)⟩

end Since

end Machine

/-- A stream with the arguments of its function, in a world. -/
structure Program where
  world : World
  arguments : List Value
  stream : List Event

namespace Program

open Event

variable (P : Program)

/-- **What an event does** to a machine that has gone past it. -/
def execute (M : Machine) : Event → Except Ending Machine
  | functionEnter _ _ ps _ _ => .ok
    { M with
      values := fun i => if i ∈ ps.map (·.id) then some (.slot i) else none
      frame := .start (ps.map (·.id)) P.arguments }
  | literalInt i n _ => .ok (M.give i (.number n))
  | literalBool i b => .ok (M.give i (.number (truthNumber b)))
  | literalNull i _ => .ok (M.give i (.address 0))
  | allocate i _ _ => .ok (M.give i (.slot i))
  | assign target value => do
    let place ← M.read target
    let v ← M.read value
    let (_, F) ← M.frame.store v place
    return { M with frame := F }
  | dereference i t address => do
    let place ← M.read address
    M.produce i fun F => F.load P.world t place
  | convert op i source sourceType t => do
    let v ← M.read source
    M.produce i (op.convert P.world sourceType t v)
  | call i symbol as t => do
    let vs ← as.mapM M.read
    M.produce i fun F => F.call P.world symbol vs t
  | binary i op l r t => do
    let a ← M.read l
    let b ← M.read r
    M.produce i (op.operate t a b)
  | logicalNot i e => do
    let v ← M.read e
    M.produce i v.negate
  | conditionalBranch i _ condition p q => do
    let c ← M.read condition
    let (holds, _) ← c.truth M.frame
    let M := { M with pending := (i, q) :: M.pending }
    return if holds then M else { M with rest := goto p P.stream }
  | clauseResult i =>
    if i = .unread then .ok M
    else do
      let v ← M.read i
      match M.pending with
      | (j, _) :: _ => .ok (M.give j v)
      | [] => .error .stuck
  | jumpPoint p _ => .ok (M.close p)
  | jump p => .ok { M with rest := goto p P.stream }
  | returnValue i => do
    let v ← M.read i
    .error (.returned (some v))
  | returnVoid => .error (.returned none)
  | functionLeave | moduleEnter _ _ _ | moduleLeave _ | declareIdentifier _ _ _ | declareStruct _
  | defineStruct _ => .error .stuck

/-- **One step of a machine**; it stops with an ending. -/
def step (M : Machine) : Except Ending Machine :=
  match M.rest with
  | e :: rest => P.execute { M with rest } e
  | [] => .error .stuck

/-- The machine before the first event. -/
def start : Machine := ⟨P.stream, fun _ => none, ⟨fun _ => none, []⟩, []⟩

/-- **The machine stops** with an ending, after the actions of a history. -/
inductive Runs : Machine → Ending → List Action → Prop where
  | stop {M : Machine} {e : Ending} (h : P.step M = .error e) : Runs M e M.frame.history
  | next {M M' : Machine} {e : Ending} {history : List Action} (h : P.step M = .ok M')
      (rest : Runs M' e history) : Runs M e history

/-- Steps lead from one machine to another. -/
def Reaches (M M' : Machine) : Prop :=
  Relation.ReflTransGen (fun M M' => P.step M = .ok M') M M'

variable {P} {M M' : Machine} {e e' : Ending} {history history' : List Action}

/-- A machine stops in one way only. -/
theorem Runs.unique (h : P.Runs M e history) (h' : P.Runs M e' history') :
    e = e' ∧ history = history' := by
  induction h with
  | stop hstop =>
    cases h' with
    | stop hstop' =>
      rw [hstop] at hstop'
      cases hstop'
      exact ⟨rfl, rfl⟩
    | next hnext =>
      rw [hstop] at hnext
      cases hnext
  | next hnext _ ih =>
    cases h' with
    | stop hstop =>
      rw [hstop] at hnext
      cases hnext
    | next hnext' rest =>
      rw [hnext] at hnext'
      cases hnext'
      exact ih rest

theorem Runs.of_reaches (h : P.Reaches M M') (hruns : P.Runs M' e history) :
    P.Runs M e history := by
  induction h using Relation.ReflTransGen.head_induction_on with
  | refl => exact hruns
  | head hstep _ ih => exact .next hstep ih

/-! ### Machines beside evaluations -/

/-- **The machine does what a computation does**: it reaches a machine as `Q` says if there is a value,
and stops in the same way otherwise. -/
def Replays {α : Type} (P : Program) (M : Machine) (Q : α → Progress → Machine → Prop) :
    EStateM.Result Ending Progress α → Prop
  | .ok a s => ∃ M', P.Reaches M M' ∧ Q a s M'
  | .error e s => P.Runs M e s.frame.history

namespace Replays

variable {α β : Type} {s : Progress} {Q : α → Progress → Machine → Prop}

theorem of_reaches {x : EStateM.Result Ending Progress α} (hreach : P.Reaches M M')
    (h : P.Replays M' Q x) : P.Replays M Q x := by
  cases x with
  | ok a s =>
    obtain ⟨M₁, hreach', hQ⟩ := h
    exact ⟨M₁, hreach.trans hreach', hQ⟩
  | error e s => exact Runs.of_reaches hreach h

/-- Behind a computation the machine may go on. -/
theorem go_on {x : EStateM.Result Ending Progress α} {Q' : α → Progress → Machine → Prop}
    (h : P.Replays M Q x) (hQ : ∀ a s M', Q a s M' → ∃ M'', P.Reaches M' M'' ∧ Q' a s M'') :
    P.Replays M Q' x := by
  cases x with
  | ok a s =>
    obtain ⟨M₁, hreach, hq⟩ := h
    obtain ⟨M₂, hreach', hq'⟩ := hQ a s M₁ hq
    exact ⟨M₂, hreach.trans hreach', hq'⟩
  | error e s => exact h

/-- Computations one after the other. -/
theorem bind {x : Evaluation α} {f : α → Evaluation β} {R : β → Progress → Machine → Prop}
    (hx : P.Replays M Q (x s)) (hf : ∀ a s' M', Q a s' M' → P.Replays M' R (f a s')) :
    P.Replays M R ((x >>= f) s) := by
  cases hxs : x s with
  | ok a s' =>
    rw [hxs] at hx
    rw [Evaluation.bind_of_ok hxs]
    obtain ⟨M', hreach, hQ⟩ := hx
    exact .of_reaches hreach (hf a s' M' hQ)
  | error e s' =>
    rw [hxs] at hx
    rw [Evaluation.bind_of_error hxs]
    exact hx

end Replays

/-! ### Single events -/

section
open Evaluation

variable {s : Progress} {post : List Event} {ev : Event} {i : ValueId} {v : Value}

theorem step_cons (hrest : M.rest = ev :: post) :
    P.step M = P.execute { M with rest := post } ev := by
  rw [step, hrest]

theorem reaches_of_step (hrest : M.rest = ev :: post)
    (h : P.execute { M with rest := post } ev = .ok M') : P.Reaches M M' :=
  .single ((step_cons hrest).trans h)

/-- Recording does nothing that a machine has to do. -/
theorem replays_record {Q : Value → Progress → Machine → Prop} {W : World} {e : TypedExpr}
    (h : ∀ s', s'.frame = s.frame → Q v s' M) : P.Replays M Q (record W e v s) :=
  ⟨M, .refl, h _ rfl⟩

/-- **An event that produces a value** performs the effect that the computation performs. -/
theorem replays_produce {x : Effect Value} (hrest : M.rest = ev :: post)
    (hframe : M.frame = s.frame)
    (hexecute : P.execute { M with rest := post } ev = { M with rest := post }.produce i x)
    (hproduces : ev.produces = [i]) :
    P.Replays M (fun v s' M' => M.Since post (produced [ev]) s'.frame M' ∧
      (i ≠ .unread → M'.values i = some v)) (perform x s) := by
  have hstep : P.step M = { M with rest := post }.produce i x := (step_cons hrest).trans hexecute
  unfold Machine.produce at hstep
  rw [hframe] at hstep
  unfold perform
  cases hx : x s.frame with
  | ok result =>
    obtain ⟨v, F⟩ := result
    rw [hx] at hstep
    refine ⟨_, .single hstep, ⟨?_, ?_, ?_, ?_⟩, ?_⟩
    · simp
    · simp
    · simp
    · intro j hj
      rw [produced_cons_single hproduces, produced_nil, List.append_nil] at hj
      -- a value that is not read is not kept
      by_cases hi : i = .unread
      · exact Machine.give_values_of_unread _ _ hi
      · rw [if_neg hi, List.mem_singleton] at hj
        exact Machine.give_values_of_ne _ _ hj
    · intro hi
      exact Machine.give_values_self _ _ hi
  | error e =>
    rw [hx] at hstep
    have hstop := Runs.stop (P := P) hstep
    rw [hframe] at hstop
    exact hstop

end

end Program

end RangeTyping
