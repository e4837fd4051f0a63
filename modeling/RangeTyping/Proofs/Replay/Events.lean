import Mathlib
import RangeTyping.Proofs.Replay.Machine
import RangeTyping.Proofs.Tree.Rules

/-!
# Machines in front of events

A machine is ready (`Program.Ready`) if it stands in front of some events in the frame of an evaluation,
and these events produce new identities.  For each kind of event this file says what a ready machine
makes of it, beside the computation that the event stands for: an event that produces a value
(`Program.replays_last`), a branch (`Program.replays_branch`), the end of an arm (`Program.exists_arm`) and
an assignment (`Program.replays_store`).

The identity of a value is produced by its expression, or is that of a variable in scope
(`Setting.produced_or_variable`), so a value outlasts all that is produced later (`Program.Ready.outlasts`).
-/

namespace RangeTyping

open Event TypedExpr

/-! ### Identities -/

namespace Setting

variable {X : Setting} {vs : List Variable}

/-- A variable in scope after a statement was in scope before or is produced by it. -/
theorem mem_or_produced_of_mem_bind {s : TypedStmt} (h : StmtObeys X.rule vs s) {w : Variable}
    (hw : w ∈ s.bind vs) : w ∈ vs ∨ w.id ∈ produced (stmtEvents s) := by
  cases s with
  | define v e =>
    obtain ⟨⟨-, ⟨hdeclares, -⟩, -⟩, -⟩ := h
    rcases List.mem_cons.1 hw with rfl | hw
    · right
      rw [stmtEvents, produced_append, produced_cons_single rfl, if_neg hdeclares.read]
      simp
    · exact .inl hw
  | expression | assign | returnValue | returnVoid => exact .inl hw

theorem mem_or_produced_of_mem_bindAll {ss : List TypedStmt} (h : StmtsObey X.rule vs ss)
    {w : Variable} (hw : w ∈ TypedStmt.bindAll vs ss) : w ∈ vs ∨ w.id ∈ produced (stmtEventsAll ss) := by
  induction ss generalizing vs with
  | nil => exact .inl hw
  | cons s ss ih =>
    rw [stmtEventsAll, produced_append, List.mem_append]
    rcases ih h.2 hw with hw | hw
    · exact (mem_or_produced_of_mem_bind h.1 hw).imp_right .inl
    · exact .inr (.inr hw)

theorem mem_produced_last (es : List Event) {ev : Event} {i : ValueId} (hev : ev.produces = [i])
    (hi : i ≠ .unread) : i ∈ produced (es ++ [ev]) := by
  rw [produced_append, produced_cons_single hev, if_neg hi]
  simp

/-- **The identity of a value** is produced by the expression, or is that of a variable in scope. -/
theorem produced_or_variable : ∀ (e : TypedExpr) {vs : List Variable}, e.Obeys X.rule vs →
    e.id ≠ .unread → e.id ∈ produced e.events ∨ ∃ v ∈ vs, v.id = e.id
  | .int _ _, _, _, hread | .bool _ _, _, _, hread | .null _, _, _, hread =>
    .inl (mem_produced_last [] rfl hread)
  | .variable i v, vs, h, _ => by
    obtain ⟨-, -, -, -, hid, hv⟩ := h
    exact .inr ⟨v, hv, hid.symm⟩
  | .cast i op s, vs, h, hread => by
    obtain ⟨⟨-, -, -, -, hid⟩, hs⟩ := h
    cases op with
    | noOp =>
      -- a conversion without an operation hands on the identity
      have hid : (TypedExpr.cast i .noOp s).id = s.id := hid
      rw [hid] at hread ⊢
      simpa [events, castEvents] using produced_or_variable s hs hread
    | dereference | truncate | changeSign | expandSigned | expandUnsigned =>
      exact .inl (mem_produced_last _ rfl hread)
  | .call _ _ _, _, _, hread | .binary _ _ _ _, _, _, hread | .logicalNot _ _, _, _, hread =>
    .inl (mem_produced_last _ rfl hread)
  | .block _ _, _, h, hread => absurd h.1.2.2.2.2 hread
  | .valueBlock i ss r, vs, h, hread => by
    obtain ⟨⟨-, -, -, -, hid⟩, hss, hr⟩ := h
    have hid : (TypedExpr.valueBlock i ss r).id = r.id := hid
    rw [hid] at hread ⊢
    rw [events, produced_append, List.mem_append]
    rcases produced_or_variable r hr hread with h | ⟨w, hw, heq⟩
    · exact .inl (.inr h)
    · -- the variable is from outside the block, or one that its statements produce
      rcases mem_or_produced_of_mem_bindAll hss hw with hw | hw
      · exact .inr ⟨w, hw, heq⟩
      · rw [heq] at hw
        exact .inl (.inl hw)
  | .ifThen _ _ _ _, _, h, hread => absurd h.1.2.2.2.2.1 hread
  | .ifElse i t a b p q, _, _, hread => by
    left
    simp only [events, produced_append, List.mem_append]
    refine .inl (.inl (.inl (.inl (.inl (.inr ?_)))))
    exact mem_produced_last [] rfl hread
  | .dereference i p, vs, h, hread => by
    obtain ⟨⟨-, -, -, -, hid, -⟩, hp⟩ := h
    have hid : (TypedExpr.dereference i p).id = p.id := hid
    rw [hid] at hread ⊢
    exact produced_or_variable p hp hread

end Setting

/-! ### Machines in front of events -/

namespace Program

variable {P : Program} {M M' : Machine} {vs : List Variable} {es a b post post' : List Event}
  {s s' : Progress}

/-- **The machine stands in front of the events `es`**, in the frame of an evaluation, and has the places
of the variables in scope; the events produce new identities. -/
structure Ready (P : Program) (vs : List Variable) (es post : List Event) (s : Progress)
    (M : Machine) : Prop where
  rest : M.rest = es ++ post
  suffix : es ++ post <:+ P.stream
  frame : M.frame = s.frame
  scope : ∀ v ∈ vs, M.values v.id = some (.slot v.id)
  nodup : (produced es).Nodup
  apart : ∀ v ∈ vs, v.id ∉ produced es

/-- What a machine has when a computation has given the value of the identity `i`. -/
def Gives (M : Machine) (es post : List Event) (i : ValueId) (v : Value) (s : Progress)
    (M' : Machine) : Prop :=
  M.Since post (produced es) s.frame M' ∧ (i ≠ .unread → M'.values i = some v)

/-- A machine in front of some of the events. -/
theorem Ready.part (h : P.Ready vs es post s M) (hsub : (produced a).Sublist (produced es))
    (hrest : M'.rest = a ++ post') (hsuffix : a ++ post' <:+ P.stream) (hframe : M'.frame = s'.frame)
    (hkept : ∀ i, i ∉ produced es → M'.values i = M.values i) : P.Ready vs a post' s' M' where
  rest := hrest
  suffix := hsuffix
  frame := hframe
  scope v hv := (hkept v.id (h.apart v hv)).trans (h.scope v hv)
  nodup := h.nodup.sublist hsub
  apart v hv hmem := h.apart v hv (hsub.subset hmem)

/-- A machine in front of the first of the events. -/
theorem Ready.first (h : P.Ready vs es post s M) (heq : es ++ post = a ++ post')
    (hsub : (produced a).Sublist (produced es)) : P.Ready vs a post' s M := by
  have hsuffix := h.suffix
  rw [heq] at hsuffix
  exact h.part hsub (h.rest.trans heq) hsuffix h.frame fun _ _ => rfl

theorem Ready.left (h : P.Ready vs (a ++ b) post s M) : P.Ready vs a (b ++ post) s M := by
  refine h.first (List.append_assoc ..) ?_
  rw [produced_append]
  exact List.sublist_append_left ..

theorem Ready.right (h : P.Ready vs (a ++ b) post s M)
    (hM : M.Since (b ++ post) (produced a) s'.frame M') : P.Ready vs b post s' M' := by
  have hsuffix := h.suffix
  rw [List.append_assoc] at hsuffix
  refine h.part ?_ hM.rest ((List.suffix_append _ _).trans hsuffix) hM.frame ?_
  · rw [produced_append]
    exact List.sublist_append_right ..
  · intro i hi
    rw [produced_append, List.mem_append, not_or] at hi
    exact hM.kept i hi.1

/-- Behind some of the events more variables may be in scope. -/
theorem Ready.rescope (h : P.Ready vs (a ++ b) post s M) {ws : List Variable}
    (hM : M.Since (b ++ post) (produced a) s'.frame M')
    (hws : ∀ w ∈ ws, w ∈ vs ∨ w.id ∈ produced a)
    (hscope : ∀ w ∈ ws, M'.values w.id = some (.slot w.id)) : P.Ready ws b post s' M' := by
  have hready := h.right hM
  have hnodup := h.nodup
  rw [produced_append] at hnodup
  refine ⟨hready.rest, hready.suffix, hready.frame, hscope, hready.nodup, ?_⟩
  intro w hw hmem
  rcases hws w hw with hw | hw
  · exact hready.apart w hw hmem
  · exact (List.nodup_append.1 hnodup).2.2 _ hw _ hmem rfl

/-- The value of an expression outlasts the events behind it. -/
theorem Ready.outlasts {X : Setting} {e : TypedExpr} (h : P.Ready vs (e.events ++ b) post s M)
    (he : e.Obeys X.rule vs) (hread : e.id ≠ .unread) : e.id ∉ produced b := by
  have hnodup := h.nodup
  rw [produced_append] at hnodup
  rcases Setting.produced_or_variable e he hread with hmem | ⟨v, hv, hid⟩
  · intro hmem'
    exact (List.nodup_append.1 hnodup).2.2 _ hmem _ hmem' rfl
  · intro hmem
    refine h.apart v hv ?_
    rw [hid, produced_append]
    exact List.mem_append_right _ hmem

/-- The variables keep their places. -/
theorem Ready.scope_since {F : Frame} (h : P.Ready vs es post s M)
    (hM : M.Since post' (produced es) F M') : ∀ v ∈ vs, M'.values v.id = some (.slot v.id) := by
  intro v hv
  rw [hM.kept _ (h.apart v hv)]
  exact h.scope v hv

/-- The value of an expression is still there behind other events. -/
theorem Ready.values_since {X : Setting} {e : TypedExpr} {v : Value} {F : Frame} {M₁ : Machine}
    (h : P.Ready vs (e.events ++ b) post s M) (he : e.Obeys X.rule vs) (hread : e.id ≠ .unread)
    (hM₁ : Gives M e.events post' e.id v s' M₁) (hM : M₁.Since post (produced b) F M') :
    M'.values e.id = some v := by
  rw [hM.kept _ (h.outlasts he hread)]
  exact hM₁.2 hread

theorem read_of_values {i : ValueId} {v : Value} (h : M.values i = some v) : M.read i = .ok v := by
  rw [Machine.read, h]

/-- **The last event of an expression** performs the effect that its evaluation ends with. -/
theorem replays_last {M₁ : Machine} {ev : Event} {e : TypedExpr} {x : Effect Value}
    (hM : M.Since (ev :: post) (produced es) s.frame M₁)
    (hexecute : P.execute { M₁ with rest := post } ev = { M₁ with rest := post }.produce e.id x)
    (hproduces : ev.produces = [e.id]) :
    P.Replays M₁ (Gives M (es ++ [ev]) post e.id)
      ((Evaluation.perform x >>= fun v => Evaluation.record P.world e v) s) := by
  refine (replays_produce hM.rest hM.frame hexecute hproduces).bind fun v s₁ M₂ hM₂ => ?_
  refine replays_record fun s' hs' => ⟨?_, hM₂.2⟩
  rw [hs', produced_append]
  exact hM.trans hM₂.1

/-- A literal is given its value by its only event. -/
theorem replays_literal {ev : Event} {e : TypedExpr} {v : Value} (hM : P.Ready vs [ev] post s M)
    (hexecute : P.execute { M with rest := post } ev = .ok ({ M with rest := post }.give e.id v))
    (hproduces : ev.produces = [e.id]) :
    P.Replays M (Gives M [ev] post e.id) (Evaluation.record P.world e v s) := by
  have hsince : M.Since (ev :: post) (produced []) s.frame M :=
    ⟨hM.rest, hM.frame, rfl, fun _ _ => rfl⟩
  exact replays_last (x := fun F => .ok (v, F)) hsince hexecute hproduces

/-- An evaluation that records its value at the end. -/
theorem replays_seen {e : TypedExpr} {x : Evaluation Value}
    (h : P.Replays M' (Gives M es post e.id) (x s)) :
    P.Replays M' (Gives M es post e.id)
      ((x >>= fun v => Evaluation.record P.world e v) s) := by
  refine h.bind fun v s₁ M₁ hM₁ => replays_record fun s' hs' => ?_
  rw [Gives, hs']
  exact hM₁

/-- The events of the expression replay its evaluation, wherever a machine is ready for them. -/
def Follows (P : Program) (vs : List Variable) (e : TypedExpr) : Prop :=
  ∀ ⦃post : List Event⦄ ⦃s : Progress⦄ ⦃M : Machine⦄, P.Ready vs e.events post s M →
    P.Replays M (Gives M e.events post e.id) (e.evaluate P.world s)

/-! ### Conditionals -/

/-- What a test makes of a machine: it goes on with the next event or at the point of the branch, and a
conditional is open; only the identities in `written` have new values. -/
structure Branches (P : Program) (M : Machine) (written : List ValueId) (i : ValueId) (p q : PointId)
    (post : List Event) (holds : Bool) (s : Progress) (M' : Machine) : Prop where
  rest : M'.rest = if holds then post else goto p P.stream
  kept : ∀ j, j ∉ written → M'.values j = M.values j
  frame : M'.frame = s.frame
  pending : M'.pending = (i, q) :: M.pending

/-- A branch goes where the test of the computation says. -/
theorem replays_branch {i c : ValueId} {t : Ty} {p q : PointId} {x : Value} {w : List ValueId}
    {M₁ : Machine} (hM : M.Since (.conditionalBranch i t c p q :: post) w s.frame M₁)
    (hc : M₁.values c = some x) :
    P.Replays M₁ (P.Branches M w i p q post) (Evaluation.perform x.truth s) := by
  have hstep := step_cons (P := P) hM.rest
  rw [Program.execute, read_of_values (M := { M₁ with rest := post }) hc] at hstep
  cases x with
  | number n =>
    have hpending : (i, q) :: M₁.pending = (i, q) :: M.pending := by rw [hM.pending]
    refine ⟨_, .single hstep, ?_⟩
    cases hn : n != 0 <;> exact ⟨rfl, hM.kept, hM.frame, hpending⟩
  | address | slot | whole | nothing =>
    have hstop := Runs.stop (P := P) hstep
    rw [hM.frame] at hstop
    exact hstop

/-- **A test and its branch**, beside the evaluation of the test. -/
theorem replays_test {X : Setting} {β : Type} {t : TypedExpr} {i : ValueId} {type : Ty}
    {p q : PointId} {f : Bool → Evaluation β} {R : β → Progress → Machine → Prop}
    (ht : t.Obeys X.rule vs) (htest : t.id ≠ .unread) (hfollows : P.Follows vs t)
    (hM : P.Ready vs t.events (.conditionalBranch i type t.holder p q :: post) s M)
    (hf : ∀ holds s' M', P.Branches M (produced t.events) i p q post holds s' M' →
      P.Replays M' R (f holds s')) :
    P.Replays M R
      ((t.evaluate P.world >>= fun c => Evaluation.perform c.truth >>= f) s) := by
  refine (hfollows hM).bind fun x s₁ M₁ hM₁ => ?_
  have hx : M₁.values t.holder = some x := by
    rw [Setting.holder_eq_id ht]
    exact hM₁.2 htest
  exact (replays_branch hM₁.1 hx).bind hf

/-- A point that does not close the innermost conditional is passed. -/
theorem reaches_point {i : ValueId} {p q : PointId} {name : String}
    {others : List (ValueId × PointId)} (hrest : M.rest = .jumpPoint p name :: post)
    (hpending : M.pending = (i, q) :: others) (hne : q ≠ p) :
    P.Reaches M { M with rest := post } := by
  refine reaches_of_step hrest ?_
  simp [Program.execute, Machine.close, hpending, hne]

/-- The innermost conditional is closed at its continuation. -/
theorem reaches_continuation {i : ValueId} {q : PointId} {name : String}
    {others : List (ValueId × PointId)} (hrest : M.rest = .jumpPoint q name :: post)
    (hpending : M.pending = (i, q) :: others) :
    P.Reaches M { M with rest := post, pending := others } := by
  refine reaches_of_step hrest ?_
  simp [Program.execute, Machine.close, hpending]

/-- The end of an arm: its result is given to the conditional, which is closed at its continuation. -/
theorem reaches_arm {i r : ValueId} {q : PointId} {v : Value} {rest : List Event} {name : String}
    {others : List (ValueId × PointId)}
    (hrest : M.rest = .clauseResult (armResult i r) :: .jump q :: rest)
    (hpending : M.pending = (i, q) :: others)
    (hgoto : goto q P.stream = .jumpPoint q name :: post)
    (hr : i ≠ .unread → r ≠ .unread ∧ M.values r = some v) :
    P.Reaches M { M.give i v with rest := post, pending := others } := by
  have hresult : P.execute { M with rest := .jump q :: rest } (.clauseResult (armResult i r)) =
      .ok { M.give i v with rest := .jump q :: rest } := by
    -- a conditional that is not read is given nothing
    by_cases hi : i = .unread
    · subst hi
      rfl
    · obtain ⟨hne, hv⟩ := hr hi
      have harm : armResult i r = r := by simp [armResult, ValueId.isUnread, hi]
      rw [Program.execute, harm, if_neg hne,
        read_of_values (M := { M with rest := .jump q :: rest }) hv]
      simp [bind, Except.bind, Machine.give, hi, hpending]
  have hjump : P.Reaches { M.give i v with rest := .jump q :: rest }
      { M.give i v with rest := goto q P.stream } := reaches_of_step rfl rfl
  refine ((reaches_of_step hrest hresult).trans hjump).trans ?_
  exact reaches_continuation (M := { M.give i v with rest := goto q P.stream }) hgoto
    (by simpa using hpending)

/-- **An arm gives its value to its conditional**, whose events are `es`. -/
theorem replays_arm {X : Setting} {M₂ : Machine} {arm : TypedExpr} {i : ValueId} {q : PointId}
    {rest : List Event} {name : String} (harm : arm.Obeys X.rule vs)
    (hread : i ≠ .unread → arm.id ≠ .unread) (hfollows : P.Follows vs arm)
    (hM : P.Ready vs es post s M) (hsub : (produced arm.events).Sublist (produced es))
    (hi : i ≠ .unread → i ∈ produced es) (hsuffix : armEvents i arm q rest <:+ P.stream)
    (hgoto : goto q P.stream = .jumpPoint q name :: post)
    (hrest : M₂.rest = armEvents i arm q rest) (hframe : M₂.frame = s'.frame)
    (hkept : ∀ j, j ∉ produced es → M₂.values j = M.values j)
    (hpending : M₂.pending = (i, q) :: M.pending) :
    P.Replays M₂ (Gives M es post i) (arm.evaluate P.world s') := by
  refine (hfollows (hM.part hsub hrest hsuffix hframe hkept)).go_on fun v s₃ M₃ hM₃ => ?_
  obtain ⟨hsince, hvalue⟩ := hM₃
  rw [Setting.holder_eq_id harm] at hsince
  refine ⟨_, reaches_arm hsince.rest (hsince.pending.trans hpending) hgoto
    fun h => ⟨hread h, hvalue (hread h)⟩, ⟨rfl, ?_, rfl, ?_⟩, ?_⟩
  · rw [← hsince.frame]
    exact Machine.give_frame ..
  · intro j hj
    have hj' : (M₃.give i v).values j = M₃.values j := by
      by_cases h : i = .unread
      · exact Machine.give_values_of_unread _ _ h
      · exact Machine.give_values_of_ne _ _ fun heq => hj (heq ▸ hi h)
    show (M₃.give i v).values j = M.values j
    rw [hj', hsince.kept j fun hmem => hj (hsub.subset hmem), hkept j hj]
  · intro h
    exact Machine.give_values_self _ _ h

/-! ### Statements -/

/-- **An assignment** stores what the computation stores. -/
theorem replays_store {x y : ValueId} {place v : Value} (hrest : M.rest = .assign x y :: post)
    (hframe : M.frame = s.frame) (hx : M.values x = some place) (hy : M.values y = some v) :
    P.Replays M (fun _ s' M' => M.Since post [] s'.frame M')
      (Evaluation.perform (fun F => F.store v place) s) := by
  have hstep : P.step M = M.frame.store v place >>= fun result =>
      .ok { M with rest := post, frame := result.2 } := by
    rw [step_cons hrest, Program.execute, read_of_values (M := { M with rest := post }) hx,
      read_of_values (M := { M with rest := post }) hy]
    rfl
  rw [hframe] at hstep
  unfold Evaluation.perform
  dsimp only
  cases hstore : s.frame.store v place with
  | ok result =>
    rw [hstore] at hstep
    exact ⟨_, .single hstep, rfl, rfl, rfl, fun _ _ => rfl⟩
  | error e =>
    rw [hstore] at hstep
    have hstop := Runs.stop hstep
    rw [hframe] at hstop
    exact hstop

/-- **A return** ends the function, with a value unless the type has none. -/
theorem runs_return {t : Ty} {i : ValueId} {v : Value}
    (hrest : M.rest = (if t.isVoid then .returnVoid else .returnValue i) :: post)
    (hframe : M.frame = s.frame) (hi : ¬ t.isVoid = true → M.values i = some v) :
    P.Runs M (.returned (if t.isVoid then none else some v)) s.frame.history := by
  rw [← hframe]
  refine .stop ((step_cons hrest).trans ?_)
  by_cases hvoid : t.isVoid = true
  · rw [if_pos hvoid, if_pos hvoid]
    rfl
  · rw [if_neg hvoid, if_neg hvoid, Program.execute,
      read_of_values (M := { M with rest := post }) (hi hvoid)]
    rfl

/-- **A definition** makes the place of its variable first, and then fills it. -/
theorem replays_define {x y : ValueId} {t : Ty} {name : String} {v : Value} {w : List ValueId}
    {M₁ : Machine} (hx : x ≠ .unread) (hne : y ≠ x)
    (hM : M.Since (.allocate x t name :: .assign x y :: post) w s.frame M₁)
    (hy : M₁.values y = some v) :
    P.Replays M₁ (fun _ s' M' => M.Since post (w ++ [x]) s'.frame M' ∧ M'.values x = some (.slot x))
      (Evaluation.perform (fun F => F.store v (.slot x)) s) := by
  let M₂ := Machine.give { M₁ with rest := .assign x y :: post } x (.slot x)
  have hreach : P.Reaches M₁ M₂ := reaches_of_step hM.rest rfl
  have hframe : M₂.frame = s.frame := by simpa [M₂] using hM.frame
  have hslot : M₂.values x = some (.slot x) := Machine.give_values_self _ _ hx
  have hkept : ∀ j, j ≠ x → M₂.values j = M₁.values j := fun j hj => Machine.give_values_of_ne _ _ hj
  have hplaced : M.Since (.assign x y :: post) (w ++ [x]) s.frame M₂ := by
    refine hM.trans ⟨by simp [M₂], hframe, by simp [M₂], ?_⟩
    intro j hj
    exact hkept j (by simpa using hj)
  refine .of_reaches hreach ((replays_store hplaced.rest hframe hslot
    ((hkept y hne).trans hy)).go_on fun _ s₃ M₃ hM₃ => ⟨M₃, .refl, ?_, ?_⟩)
  · refine (hplaced.trans hM₃).mono ?_
    simp
  · rw [hM₃.kept x List.not_mem_nil]
    exact hslot

end Program

end RangeTyping
