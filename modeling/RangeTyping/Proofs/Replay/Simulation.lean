import Mathlib
import RangeTyping.Proofs.Replay.Events
import RangeTyping.Proofs.Analysis.Module

/-!
# Replaying a stream evaluates its tree

The stream of a function, executed by a machine, does what the evaluation of its typed tree does: the
same calls with the same arguments and the same assignments, in the same order, and it ends in the same
way, with the same returned value (`Session.runs_iff_evaluate`).  This holds in every world and for all
arguments.

The proof is an induction over the tree (`Setting.replays_evaluate`): a machine in front of the events of
an expression comes to the events behind them with the value of the expression at its identity, in the
same frame as the evaluation, and has changed the values of no identities but those that the events
produce.  Since no identity is produced twice, the values of the operands are still there when their
operation comes.
-/

namespace RangeTyping

open Event TypedExpr

/-! ### Typed trees -/

namespace Setting

open Program Evaluation

section
variable {X : Setting} {P : Program} {vs : List Variable} {e t a b : TypedExpr} {i : ValueInfo}
  {p q : PointId}

theorem follows_cast {op : CastOp} (h : (TypedExpr.cast i op e).Obeys X.rule vs)
    (hfollows : P.Follows vs e) : P.Follows vs (.cast i op e) := by
  intro post s M hM
  have hholder := holder_eq_id h.2
  obtain ⟨⟨-, -, -, -, hid⟩, he⟩ := h
  rw [evaluate]
  refine (hfollows hM.left).bind fun v s₁ M₁ hM₁ => ?_
  obtain ⟨hsince, hvalue⟩ := hM₁
  cases op with
  | noOp =>
    have hid : (TypedExpr.cast i .noOp e).id = e.id := hid
    refine replays_record fun s' hs' => ⟨?_, ?_⟩
    · rw [hs', events, castEvents, List.append_nil]
      exact hsince
    · rw [hid]
      exact hvalue
  | dereference | truncate | changeSign | expandSigned | expandUnsigned =>
    have hread : Machine.read { M₁ with rest := post } e.holder = .ok v := by
      rw [hholder]
      exact read_of_values (hvalue hid)
    refine replays_last hsince ?_ rfl
    rw [Program.execute, hread]
    rfl

theorem follows_binary {op : BinaryOperation} (h : (TypedExpr.binary i op a b).Obeys X.rule vs)
    (hleft : P.Follows vs a) (hright : P.Follows vs b) : P.Follows vs (.binary i op a b) := by
  intro post s M hM
  obtain ⟨⟨-, -, -, -, hread, hread'⟩, ha, hb⟩ := h
  rw [evaluate]
  refine (hleft hM.left.left).bind fun x s₁ M₁ hM₁ => ?_
  refine (hright (hM.left.right hM₁.1)).bind fun y s₂ M₂ hM₂ => ?_
  -- the right operand leaves the left one alone
  have hx : M₂.values a.holder = some x := by
    rw [holder_eq_id ha]
    exact hM.left.values_since ha hread hM₁ hM₂.1
  have hy : M₂.values b.holder = some y := by
    rw [holder_eq_id hb]
    exact hM₂.2 hread'
  have hsince := hM₁.1.trans hM₂.1
  rw [← produced_append] at hsince
  refine replays_last hsince ?_ rfl
  rw [Program.execute, read_of_values (M := { M₂ with rest := post }) hx,
    read_of_values (M := { M₂ with rest := post }) hy]
  rfl

theorem follows_ifThen (hn : (placed P.stream).Nodup)
    (h : (TypedExpr.ifThen i t a p).Obeys X.rule vs) (htest : P.Follows vs t)
    (harm : P.Follows vs a) : P.Follows vs (.ifThen i t a p) := by
  intro post s M hM
  obtain ⟨⟨-, -, -, -, hid, hread⟩, ht, ha⟩ := h
  have heq := events_ifThen_append i t a p post
  have hproduced := produced_ifThen i t a p
  have htestSub : (produced t.events).Sublist (produced (TypedExpr.ifThen i t a p).events) := by
    rw [hproduced]
    exact List.sublist_append_left ..
  have harmSub : (produced a.events).Sublist (produced (TypedExpr.ifThen i t a p).events) := by
    rw [hproduced]
    exact (List.sublist_append_right ..).trans (List.sublist_append_right ..)
  have hready := hM.first heq htestSub
  have hsuffix := suffix_of_append_cons hready.suffix
  have hgoto := goto_of_suffix hn (suffix_of_armEvents hsuffix)
  rw [evaluate]
  refine replays_test ht hread htest hready fun holds s₂ M₂ hM₂ => ?_
  have hkept : ∀ j, j ∉ produced (TypedExpr.ifThen i t a p).events → M₂.values j = M.values j :=
    fun j hj => hM₂.kept j fun hmem => hj (htestSub.subset hmem)
  -- both ways lead to the continuation, where the conditional is closed
  refine Replays.bind (Q := Gives M (TypedExpr.ifThen i t a p).events post i.id) ?_ ?_
  · cases holds with
    | true =>
      exact replays_arm ha (fun hread => absurd hid hread) harm hM harmSub
        (fun hread => absurd hid hread) hsuffix hgoto hM₂.rest hM₂.frame hkept hM₂.pending
    | false =>
      refine ⟨_, reaches_continuation (hM₂.rest.trans hgoto) hM₂.pending, ?_, ?_⟩
      · exact ⟨rfl, hM₂.frame, rfl, hkept⟩
      · exact fun hread => absurd hid hread
  · intro _ s₃ M₃ hM₃
    refine replays_record fun s' hs' => ⟨?_, fun hread => absurd hid hread⟩
    rw [hs']
    exact hM₃.1

theorem follows_ifElse (hn : (placed P.stream).Nodup)
    (h : (TypedExpr.ifElse i t a b p q).Obeys X.rule vs) (htest : P.Follows vs t)
    (hthen : P.Follows vs a) (helse : P.Follows vs b) : P.Follows vs (.ifElse i t a b p q) := by
  intro post s M hM
  obtain ⟨⟨-, -, -, -, hread, harms⟩, ht, ha, hb⟩ := h
  have heq := events_ifElse_append i t a b p q post
  have hproduced := produced_ifElse i t a b p q
  have htestSub : (produced t.events).Sublist (produced (TypedExpr.ifElse i t a b p q).events) := by
    rw [hproduced]
    exact List.sublist_append_left ..
  have harmsSub : (produced a.events ++ produced b.events).Sublist
      (produced (TypedExpr.ifElse i t a b p q).events) := by
    rw [hproduced]
    exact (List.sublist_append_right ..).trans (List.sublist_append_right ..)
  have hid : i.id ≠ .unread → i.id ∈ produced (TypedExpr.ifElse i t a b p q).events := by
    intro hread
    rw [hproduced, produced_cons_single rfl, if_neg hread]
    simp
  have hready := hM.first heq htestSub
  have hsuffix := suffix_of_append_cons hready.suffix
  have hplace := suffix_of_armEvents hsuffix
  have hsuffix' := (List.suffix_cons ..).trans hplace
  have hgoto := goto_of_suffix hn (suffix_of_armEvents hsuffix')
  -- the alternative is not the continuation, since no point is placed twice
  have hne : q ≠ p := by
    rintro rfl
    have hsame := hgoto.symm.trans (goto_of_suffix hn hplace)
    simp at hsame
  rw [evaluate]
  refine replays_test ht hread htest hready fun holds s₂ M₂ hM₂ => replays_seen ?_
  have hkept : ∀ j, j ∉ produced (TypedExpr.ifElse i t a b p q).events →
      M₂.values j = M.values j := fun j hj => hM₂.kept j fun hmem => hj (htestSub.subset hmem)
  cases holds with
  | true =>
    exact replays_arm ha (fun hread => (harms hread).1) hthen hM
      ((List.sublist_append_left ..).trans harmsSub) hid hsuffix hgoto hM₂.rest hM₂.frame hkept
      hM₂.pending
  | false =>
    have hreach := reaches_point (P := P) (hM₂.rest.trans (goto_of_suffix hn hplace)) hM₂.pending hne
    refine .of_reaches hreach (replays_arm hb (fun hread => (harms hread).2) helse hM
      ((List.sublist_append_right ..).trans harmsSub) hid hsuffix' hgoto rfl ?_ ?_ ?_)
    · exact hM₂.frame
    · exact hkept
    · exact hM₂.pending

end

section
set_option linter.unusedSectionVars false
variable {X : Setting} {P : Program} (hX : X.Inhabited) (hn : (placed P.stream).Nodup)
include hX hn

mutual
/-- **The events of an expression replay its evaluation.** -/
theorem replays_evaluate : ∀ (e : TypedExpr) {vs : List Variable} {post : List Event} {s : Progress}
    {M : Machine}, e.Obeys X.rule vs → P.Ready vs e.events post s M →
    P.Replays M (Gives M e.events post e.id) (e.evaluate P.world s)
  | .int i n, _, _, _, _, _, hM => by
    rw [evaluate]
    exact replays_literal hM rfl rfl
  | .bool i b, _, _, _, _, _, hM => by
    rw [evaluate]
    exact replays_literal hM rfl rfl
  | .null i, _, _, _, _, _, hM => by
    rw [evaluate]
    exact replays_literal hM rfl rfl
  | .variable i v, vs, post, s, M, h, hM => by
    obtain ⟨-, -, -, -, hid, hv⟩ := h
    rw [evaluate]
    refine replays_record fun s' hs' => ⟨⟨hM.rest, ?_, rfl, fun _ _ => rfl⟩, fun _ => ?_⟩
    · rw [hs']
      exact hM.frame
    · rw [show (TypedExpr.variable i v).id = v.id from hid]
      exact hM.scope v hv
  | .cast _ _ e, _, _, _, _, h, hM => follows_cast h (fun _ _ _ => replays_evaluate e h.2) hM
  | .call i f as, vs, post, s, M, h, hM => by
    have hids := arguments_read hX h
    have hholders : as.map holder = as.map TypedExpr.id :=
      List.map_congr_left fun a ha => holder_eq_id (obeysAll_iff.1 h.2 a ha)
    rw [evaluate]
    refine (replays_evaluateAll as h.2 hids hM.left).bind fun values s₁ M₁ hM₁ => ?_
    have hread : (as.map TypedExpr.id).mapM (Machine.read { M₁ with rest := post }) = .ok values :=
      hM₁.2
    refine replays_last hM₁.1 ?_ rfl
    rw [Program.execute, hholders, hread]
    rfl
  | .binary _ _ l r, _, _, _, _, h, hM =>
    follows_binary h (fun _ _ _ => replays_evaluate l h.2.1) (fun _ _ _ => replays_evaluate r h.2.2) hM
  | .logicalNot i e, vs, post, s, M, h, hM => by
    obtain ⟨⟨-, -, -, -, hread⟩, he⟩ := h
    rw [evaluate]
    refine (replays_evaluate e he hM.left).bind fun v s₁ M₁ hM₁ => ?_
    have hv : M₁.values e.holder = some v := by
      rw [holder_eq_id he]
      exact hM₁.2 hread
    refine replays_last hM₁.1 ?_ rfl
    rw [Program.execute, read_of_values (M := { M₁ with rest := post }) hv]
    rfl
  | .dereference i p, vs, post, s, M, h, hM => by
    obtain ⟨⟨-, -, -, -, hid, -⟩, hp⟩ := h
    have hid : (TypedExpr.dereference i p).id = p.id := hid
    rw [evaluate]
    refine replays_seen ?_
    rw [hid]
    exact replays_evaluate p hp hM
  | .block i ss, vs, post, s, M, h, hM => by
    obtain ⟨⟨-, -, -, -, hid⟩, hss⟩ := h
    rw [evaluate]
    refine (replays_execute ss hss hM).bind fun _ s₁ M₁ hM₁ => ?_
    refine replays_record fun s' hs' => ⟨?_, fun hread => absurd hid hread⟩
    rw [hs']
    exact hM₁.1
  | .valueBlock i ss r, vs, post, s, M, h, hM => by
    obtain ⟨⟨-, -, -, -, hid⟩, hss, hr⟩ := h
    have hid : (TypedExpr.valueBlock i ss r).id = r.id := hid
    rw [evaluate]
    refine (replays_execute ss hss hM.left).bind fun _ s₁ M₁ hM₁ => ?_
    have hready := Ready.rescope hM hM₁.1 (fun w => mem_or_produced_of_mem_bindAll hss) hM₁.2
    refine replays_seen ((replays_evaluate r hr hready).go_on fun v s₂ M₂ hM₂ => ⟨M₂, .refl, ?_, ?_⟩)
    · rw [events, produced_append]
      exact hM₁.1.trans hM₂.1
    · rw [hid]
      exact hM₂.2
  | .ifThen _ t a _, _, _, _, _, h, hM =>
    follows_ifThen hn h (fun _ _ _ => replays_evaluate t h.2.1) (fun _ _ _ => replays_evaluate a h.2.2)
      hM
  | .ifElse _ t a b _ _, _, _, _, _, h, hM =>
    follows_ifElse hn h (fun _ _ _ => replays_evaluate t h.2.1)
      (fun _ _ _ => replays_evaluate a h.2.2.1) (fun _ _ _ => replays_evaluate b h.2.2.2) hM

theorem replays_evaluateAll : ∀ (es : List TypedExpr) {vs : List Variable} {post : List Event}
    {s : Progress} {M : Machine}, ObeysAll X.rule vs es → (∀ e ∈ es, e.id ≠ .unread) →
    P.Ready vs (eventsAll es) post s M →
    P.Replays M (fun values s' M' => M.Since post (produced (eventsAll es)) s'.frame M' ∧
      (es.map TypedExpr.id).mapM M'.read = .ok values) (evaluateAll P.world es s)
  | [], _, _, _, M, _, _, hM => ⟨M, .refl, ⟨hM.rest, hM.frame, rfl, fun _ _ => rfl⟩, rfl⟩
  | e :: es, vs, post, s, M, h, hids, hM => by
    rw [evaluateAll]
    have hread := hids e (List.mem_cons_self ..)
    refine (replays_evaluate e h.1 hM.left).bind fun v s₁ M₁ hM₁ => ?_
    refine (replays_evaluateAll es h.2 (fun a ha => hids a (List.mem_cons_of_mem _ ha))
      (hM.right hM₁.1)).bind fun values s₂ M₂ hM₂ => ?_
    have hv := hM.values_since h.1 hread hM₁ hM₂.1
    refine ⟨M₂, .refl, ?_, ?_⟩
    · rw [eventsAll, produced_append]
      exact hM₁.1.trans hM₂.1
    · rw [List.map_cons, List.mapM_cons, read_of_values hv, hM₂.2]
      rfl

/-- **The events of a statement replay it**, and make the place of its variable. -/
theorem replays_executeOne : ∀ (st : TypedStmt) {vs : List Variable} {post : List Event}
    {s : Progress} {M : Machine}, StmtObeys X.rule vs st → P.Ready vs (stmtEvents st) post s M →
    P.Replays M (fun _ s' M' => M.Since post (produced (stmtEvents st)) s'.frame M' ∧
      ∀ w ∈ st.bind vs, M'.values w.id = some (.slot w.id)) (executeOne P.world st s)
  | .expression e, vs, post, s, M, h, hM => by
    rw [executeOne]
    refine (replays_evaluate e h.2 hM).bind fun v s₁ M₁ hM₁ => ?_
    exact ⟨M₁, .refl, hM₁.1, hM.scope_since hM₁.1⟩
  | .define v e, vs, post, s, M, h, hM => by
    obtain ⟨⟨-, ⟨hdeclares, -⟩, -, hread⟩, he⟩ := h
    rw [executeOne]
    refine (replays_evaluate e he hM.left).bind fun a s₁ M₁ hM₁ => ?_
    have hallocate : produced [.allocate v.id v.type.unqualified v.name, .assign v.id e.holder] =
        [v.id] := by
      rw [produced_cons_single rfl, if_neg hdeclares.read]
      rfl
    -- what is produced afterwards has another identity than the value
    have hne : e.id ≠ v.id := by
      have hnot := hM.outlasts he hread
      rw [hallocate] at hnot
      simpa using hnot
    have hsince := hM₁.1
    rw [holder_eq_id he] at hsince
    refine (replays_define hdeclares.read hne hsince (hM₁.2 hread)).go_on
      fun _ s₂ M₂ hM₂ => ⟨M₂, .refl, ?_⟩
    obtain ⟨hsince', hslot⟩ := hM₂
    rw [← hallocate, ← produced_append] at hsince'
    exact ⟨hsince', List.forall_mem_cons.2 ⟨hslot, hM.scope_since hsince'⟩⟩
  | .assign t e, vs, post, s, M, h, hM => by
    obtain ⟨⟨-, -, htarget, hvalue⟩, ht, he⟩ := h
    rw [executeOne]
    refine (replays_evaluate e he hM.left.left).bind fun a s₁ M₁ hM₁ => ?_
    refine (replays_evaluate t ht (hM.left.right hM₁.1)).bind fun place s₂ M₂ hM₂ => ?_
    -- the value is still there when the target has been evaluated
    have ha : M₂.values e.holder = some a := by
      rw [holder_eq_id he]
      exact hM.left.values_since he hvalue hM₁ hM₂.1
    have hplace : M₂.values t.holder = some place := by
      rw [holder_eq_id ht]
      exact hM₂.2 htarget
    refine (replays_store hM₂.1.rest hM₂.1.frame hplace ha).go_on fun _ s₃ M₃ hM₃ => ?_
    have hsince : M.Since post (produced (stmtEvents (.assign t e))) s₃.frame M₃ := by
      refine ((hM₁.1.trans hM₂.1).trans hM₃).mono ?_
      simp [stmtEvents, produced_append]
    exact ⟨M₃, .refl, hsince, hM.scope_since hsince⟩
  | .returnValue e, vs, post, s, M, h, hM => by
    obtain ⟨⟨-, -, hread⟩, he⟩ := h
    rw [executeOne]
    refine (replays_evaluate e he hM.left).bind fun v s₁ M₁ hM₁ => ?_
    refine runs_return hM₁.1.rest hM₁.1.frame fun hvoid => ?_
    rw [holder_eq_id he]
    exact hM₁.2 (hread.resolve_left hvoid)
  | .returnVoid, vs, post, s, M, h, hM => by
    rw [executeOne]
    show P.Runs M _ s.frame.history
    rw [← hM.frame]
    exact .stop (step_cons hM.rest)

theorem replays_execute : ∀ (ss : List TypedStmt) {vs : List Variable} {post : List Event}
    {s : Progress} {M : Machine}, StmtsObey X.rule vs ss → P.Ready vs (stmtEventsAll ss) post s M →
    P.Replays M (fun _ s' M' => M.Since post (produced (stmtEventsAll ss)) s'.frame M' ∧
      ∀ w ∈ TypedStmt.bindAll vs ss, M'.values w.id = some (.slot w.id)) (execute P.world ss s)
  | [], _, _, _, M, _, hM => ⟨M, .refl, ⟨hM.rest, hM.frame, rfl, fun _ _ => rfl⟩, hM.scope⟩
  | st :: ss, vs, post, s, M, h, hM => by
    rw [TypedExpr.execute]
    refine (replays_executeOne st h.1 hM.left).bind fun _ s₁ M₁ hM₁ => ?_
    have hready := Ready.rescope hM hM₁.1 (fun w => mem_or_produced_of_mem_bind h.1) hM₁.2
    refine (replays_execute ss h.2 hready).go_on fun _ s₂ M₂ hM₂ => ⟨M₂, .refl, ?_, hM₂.2⟩
    rw [stmtEventsAll, produced_append]
    exact hM₁.1.trans hM₂.1
end

end

/-! ### Functions -/

/-- Entering a function puts a machine in front of its body. -/
theorem Defines.ready {X : Setting} {f : TypedFunction} {vs : List Variable} {file : String}
    {P : Program} (h : X.Defines f vs) (hstream : P.stream = f.events file)
    (hproduced : (produced (f.events file)).Nodup) :
    ∃ M, P.Reaches P.start M ∧ P.Ready vs f.body.events f.closing
      ⟨.start (f.parameters.map (·.id)) P.arguments, []⟩ M := by
  rw [f.events_eq] at hstream hproduced
  rw [produced_cons, produced_append] at hproduced
  obtain ⟨-, hbody, hdisjoint⟩ := List.nodup_append.1 hproduced
  have hmem : ∀ v ∈ vs, v.id ∈ f.parameters.map (·.id) := by
    intro v hv
    rw [Parameter.map_id_of_holds h.parameters]
    exact List.mem_map_of_mem (List.mem_reverse.2 hv)
  refine ⟨_, reaches_of_step (M := P.start) hstream rfl, rfl, ?_, rfl, ?_,
    (List.nodup_append.1 hbody).1, ?_⟩
  · rw [hstream]
    exact List.suffix_cons ..
  · intro v hv
    exact if_pos (hmem v hv)
  · intro v hv hmem'
    refine hdisjoint v.id ?_ v.id (List.mem_append_left _ hmem') rfl
    exact List.mem_filter.2 ⟨hmem v hv, by simpa using (h.declares v hv).read⟩

/-- **The stream of a function that is defined well replays its evaluation.** -/
theorem Defines.runs {X : Setting} {f : TypedFunction} {vs : List Variable} {file : String}
    {P : Program} (h : X.Defines f vs) (hX : X.Inhabited) (hstream : P.stream = f.events file)
    (hproduced : (produced (f.events file)).Nodup) (hplaced : (placed (f.events file)).Nodup) :
    P.Runs P.start (f.evaluate P.world P.arguments).1
      (f.evaluate P.world P.arguments).2.frame.history := by
  obtain ⟨M, hreach, hready⟩ := h.ready hstream hproduced
  have hbody := replays_evaluate hX (hstream ▸ hplaced) f.body h.obeys hready
  refine .of_reaches hreach ?_
  unfold TypedFunction.evaluate
  cases hrun : f.body.evaluate P.world ⟨.start (f.parameters.map (·.id)) P.arguments, []⟩ with
  | error e s =>
    rw [hrun] at hbody
    exact hbody
  | ok v s =>
    rw [hrun] at hbody
    obtain ⟨M', hreach', hsince, hvalue⟩ := hbody
    -- the body has no return statement at its end, so the function returns its value
    have hreturn : f.body.endsWithReturn ≠ true := fun hreturn =>
      evaluate_ne_ok_of_endsWithReturn hreturn v hrun
    have hrest := hsince.rest
    rw [TypedFunction.closing, if_neg hreturn] at hrest
    refine .of_reaches hreach' (runs_return hrest hsince.frame fun hvoid => ?_)
    rw [holder_eq_id h.obeys]
    exact hvalue ((h.result (by simpa using hvoid)).resolve_left hreturn).2

end Setting

/-! ### Modules -/

namespace Session

variable {cookie : Registration → Nat} {s s' : Session} {options : Options} {m : Source.Module}
  {typed : TypedModule}

/-- **Replaying a stream evaluates its tree.**  In every world and for all arguments, a machine that
executes the stream of a function of an analysed module stops as the evaluation of the function does,
with the same returned value if it returns, after the same calls, loads and assignments. -/
theorem runs_iff_evaluate (hs : Reached cookie s) (h : s.analyze options m = .ok (.ok typed, s'))
    {f : TypedFunction} (hf : f ∈ typed.functions) (W : World) (arguments : List Value)
    (ending : Ending) (history : List Action) :
    Program.Runs ⟨W, arguments, f.events typed.location.file⟩
        (Program.start ⟨W, arguments, f.events typed.location.file⟩) ending history ↔
      (f.evaluate W arguments).1 = ending ∧ (f.evaluate W arguments).2.frame.history = history := by
  obtain ⟨X, hX⟩ := hs.analysed h
  obtain ⟨hr, vs, hdefines⟩ := hX.defines f hf
  obtain ⟨hproduced, hplaced⟩ := hX.nodup hf typed.location.file
  have hruns := hdefines.runs (P := ⟨W, arguments, f.events typed.location.file⟩) hX.inhabited rfl
    hproduced hplaced
  constructor
  · intro hruns'
    exact hruns.unique hruns'
  · rintro ⟨rfl, rfl⟩
    exact hruns

/-- The stream of a function with a conditional, an assignment and a call evaluates its tree. -/
theorem runs_iff_evaluate_climb : ∃ typed s' f, (start fun _ => 0).analyze .default climb =
    .ok (.ok typed, s') ∧ f ∈ typed.functions ∧ ∀ W arguments ending history,
    (Program.Runs ⟨W, arguments, f.events typed.location.file⟩
        (Program.start ⟨W, arguments, f.events typed.location.file⟩) ending history ↔
      (f.evaluate W arguments).1 = ending ∧
        (f.evaluate W arguments).2.frame.history = history) := by
  obtain ⟨typed, s', h, hne⟩ := climb_analysed
  obtain ⟨f, hf⟩ := List.exists_mem_of_ne_nil _ hne
  exact ⟨typed, s', f, h, hf, runs_iff_evaluate .start h hf⟩

end Session

end RangeTyping
