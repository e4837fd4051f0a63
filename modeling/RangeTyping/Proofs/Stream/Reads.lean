import Mathlib
import RangeTyping.Proofs.Stream.Control
import RangeTyping.Proofs.Tree.Rules

/-!
# Values are produced before they are read

Whatever way control takes through the events of a typed tree, each of them reads only what was
produced on the way.  The proof is an induction over the tree (`Setting.safe_events`): the events of an
expression, followed by others, are safe if the others are safe wherever the value of the expression
was produced.  The others are arbitrary, since a conditional may stand anywhere in an expression and
go on behind it.
-/

namespace RangeTyping

namespace Event

variable {stream seen post : List Event} {e : Event} {i : ValueId}

/-! ### Reading and producing -/

theorem mem_produced_cons : i ∈ produced (e :: seen) ↔
    i ∈ e.produces ∧ i ≠ .unread ∨ i ∈ produced seen := by
  simp [produced_cons]

theorem produced_subset_cons (e : Event) (seen : List Event) :
    produced seen ⊆ produced (e :: seen) := by
  intro i hi
  exact mem_produced_cons.2 (.inr hi)

theorem readsProduced_of_mem (h : ∀ i ∈ e.reads, i ∈ produced seen) : e.ReadsProduced seen :=
  fun i hi => .inl (h i hi)

/-- An arm hands over a value that was produced, or none. -/
theorem readsProduced_armResult {arm : ValueId}
    (h : i ≠ .unread → arm ∈ produced seen) :
    (clauseResult (TypedExpr.armResult i arm)).ReadsProduced seen := by
  intro j hj
  rw [List.mem_singleton.1 hj, TypedExpr.armResult]
  by_cases hi : i = .unread
  · simp [hi, ValueId.isUnread]
  · left
    simpa [hi, ValueId.isUnread] using h hi

/-- The rest of a stream is safe once the identity `i` was produced, if it is one that is read. -/
def Awaits (stream seen : List Event) (i : ValueId) (post : List Event) : Prop :=
  ∀ seen', produced seen ⊆ produced seen' → (i ≠ .unread → i ∈ produced seen') →
    Safe stream seen' post

theorem Awaits.mono {seen' : List Event} (h : Awaits stream seen i post)
    (hsub : produced seen ⊆ produced seen') : Awaits stream seen' i post :=
  fun seen'' hsub' hi => h seen'' (fun _ hj => hsub' (hsub hj)) hi

/-- An event that only produces a value leads to what awaits it. -/
theorem Awaits.produce (h : Awaits stream seen i post) (hreads : ∀ j ∈ e.reads, j ∈ produced seen)
    (hproduces : e.produces = [i]) (htargets : e.targets = []) : Safe stream seen (e :: post) := by
  refine .cons_next (readsProduced_of_mem hreads) htargets (h _ (produced_subset_cons ..) ?_)
  intro hi
  refine mem_produced_cons.2 (.inl ⟨?_, hi⟩)
  rw [hproduces]
  exact List.mem_singleton.2 rfl

/-- What awaits a value also does behind the place of a point. -/
theorem Awaits.point {q : PointId} {name : String} (h : Awaits stream seen i post)
    (hgoto : goto q stream = .jumpPoint q name :: post) : Awaits stream seen i (goto q stream) := by
  intro seen' hsub hi
  rw [hgoto]
  refine .cons_next (fun j hj => absurd hj List.not_mem_nil) rfl (h _ ?_ ?_)
  · exact List.Subset.trans hsub (produced_subset_cons ..)
  · exact fun hread => produced_subset_cons _ _ (hi hread)

end Event

/-! ### Typed trees -/

namespace Setting

open Event TypedExpr

/-- The events of the expression are safe wherever what follows is once the value is there. -/
def SafeEvents (stream : List Event) (vs : List Variable) (e : TypedExpr) : Prop :=
  ∀ ⦃seen post : List Event⦄, (∀ v ∈ vs, v.id ∈ produced seen) → e.events ++ post <:+ stream →
    Awaits stream seen e.id post → Safe stream seen (e.events ++ post)

section
variable {X : Setting} {stream seen rest : List Event} {vs : List Variable} {i : ValueId}
  {p q : PointId}

/-- **A test and its branch** are safe, if both ways are. -/
theorem safe_test {t : TypedExpr} {type : Ty} (hvs : ∀ v ∈ vs, v.id ∈ produced seen)
    (ht : t.Obeys X.rule vs) (htest : t.id ≠ .unread) (hsafe : SafeEvents stream vs t)
    (hs : t.events ++ .conditionalBranch i type t.holder p q :: rest <:+ stream)
    (hthen : Awaits stream seen i rest) (helse : Awaits stream seen i (goto p stream)) :
    Safe stream seen (t.events ++ .conditionalBranch i type t.holder p q :: rest) := by
  refine hsafe hvs hs fun seen₁ hsub hread => ?_
  have hsub' := List.Subset.trans hsub
    (produced_subset_cons (.conditionalBranch i type t.holder p q) seen₁)
  have hi : i ≠ .unread → i ∈ produced (.conditionalBranch i type t.holder p q :: seen₁) := by
    intro hi
    exact mem_produced_cons.2 (.inl ⟨List.mem_singleton.2 rfl, hi⟩)
  refine .cons (readsProduced_of_mem ?_) (fun _ => hthen _ hsub' hi) ?_
  · intro j hj
    rw [List.mem_singleton.1 hj, holder_eq_id ht]
    exact hread htest
  · intro r hr
    rw [List.mem_singleton.1 hr]
    exact helse _ hsub' hi

/-- **An arm** is safe, if its conditional goes on safely. -/
theorem safe_arm {arm : TypedExpr} (hvs : ∀ v ∈ vs, v.id ∈ produced seen)
    (harm : arm.Obeys X.rule vs) (hread : i ≠ .unread → arm.id ≠ .unread)
    (hsafe : SafeEvents stream vs arm) (hs : armEvents i arm q rest <:+ stream)
    (hi : i ≠ .unread → i ∈ produced seen) (hcontinue : Awaits stream seen i (goto q stream)) :
    Safe stream seen (armEvents i arm q rest) := by
  refine hsafe hvs hs fun seen₁ hsub hid => ?_
  rw [holder_eq_id harm]
  refine .cons_next (readsProduced_armResult fun h => hid (hread h)) rfl
    (.cons_jump (hcontinue _ ?_ ?_))
  · exact fun j hj => produced_subset_cons _ _ (produced_subset_cons _ _ (hsub hj))
  · exact fun h => produced_subset_cons _ _ (produced_subset_cons _ _ (hsub (hi h)))

theorem safe_ifThen {i : ValueInfo} {t a : TypedExpr} (hn : (placed stream).Nodup)
    (h : (TypedExpr.ifThen i t a p).Obeys X.rule vs) (ht : SafeEvents stream vs t)
    (ha : SafeEvents stream vs a) : SafeEvents stream vs (.ifThen i t a p) := by
  intro seen post hvs hs hpost
  obtain ⟨⟨-, -, -, -, hid, htest⟩, hobeys, hobeys'⟩ := h
  rw [events_ifThen_append] at hs ⊢
  have harm := suffix_of_append_cons hs
  -- both ways lead to the continuation
  have hcontinue := hpost.point (goto_of_suffix hn (suffix_of_armEvents harm))
  refine safe_test hvs hobeys htest ht hs (fun seen' hsub hi => ?_) hcontinue
  exact safe_arm (fun v hv => hsub (hvs v hv)) hobeys' (fun hread => absurd hid hread) ha harm hi
    (hcontinue.mono hsub)

theorem safe_ifElse {i : ValueInfo} {t a b : TypedExpr} (hn : (placed stream).Nodup)
    (h : (TypedExpr.ifElse i t a b p q).Obeys X.rule vs) (ht : SafeEvents stream vs t)
    (ha : SafeEvents stream vs a) (hb : SafeEvents stream vs b) :
    SafeEvents stream vs (.ifElse i t a b p q) := by
  intro seen post hvs hs hpost
  obtain ⟨⟨-, -, -, -, htest, harms⟩, hobeys, hobeys', hobeys''⟩ := h
  rw [events_ifElse_append] at hs ⊢
  have hthen := suffix_of_append_cons hs
  have hplace := suffix_of_armEvents hthen
  have helse := (List.suffix_cons ..).trans hplace
  have hcontinue := hpost.point (goto_of_suffix hn (suffix_of_armEvents helse))
  -- the branch has produced the identity of the conditional when an arm is done
  refine safe_test hvs hobeys htest ht hs (fun seen' hsub hi => ?_)
    (.point (fun seen' hsub hi => ?_) (goto_of_suffix hn hplace))
  · exact safe_arm (fun v hv => hsub (hvs v hv)) hobeys' (fun hread => (harms hread).1) ha hthen hi
      (hcontinue.mono hsub)
  · exact safe_arm (fun v hv => hsub (hvs v hv)) hobeys'' (fun hread => (harms hread).2) hb helse hi
      (hcontinue.mono hsub)

end

section
set_option linter.unusedSectionVars false
variable {X : Setting} {stream : List Event} (hX : X.Inhabited) (hn : (placed stream).Nodup)
include hX hn

mutual
/-- **The events of an expression are safe**, if what follows is once the value is there. -/
theorem safe_events {vs : List Variable} {seen post : List Event}
    (hvs : ∀ v ∈ vs, v.id ∈ produced seen) : ∀ e : TypedExpr, e.Obeys X.rule vs →
      e.events ++ post <:+ stream → Awaits stream seen e.id post →
      Safe stream seen (e.events ++ post)
  | .int _ _, _, _, hpost | .bool _ _, _, _, hpost | .null _, _, _, hpost =>
    hpost.produce (fun j hj => absurd hj List.not_mem_nil) rfl rfl
  | .variable i v, h, _, hpost => by
    obtain ⟨-, -, -, -, hid, hv⟩ := h
    refine hpost seen (List.Subset.refl _) fun _ => ?_
    rw [show (TypedExpr.variable i v).id = v.id from hid]
    exact hvs v hv
  | .cast i op s, h, hs, hpost => by
    have hholder := holder_eq_id h.2
    obtain ⟨⟨-, -, -, -, hid⟩, hsource⟩ := h
    rw [events, List.append_assoc] at hs ⊢
    cases op with
    | noOp =>
      have hid : i.id = s.id := hid
      refine safe_events hvs s hsource hs ?_
      rw [← hid]
      exact hpost
    | dereference | truncate | changeSign | expandSigned | expandUnsigned =>
      refine safe_events hvs s hsource hs fun seen' hsub hread => ?_
      refine (hpost.mono hsub).produce ?_ rfl rfl
      intro j hj
      rw [List.mem_singleton.1 hj, hholder]
      exact hread hid
  | .call i f as, h, hs, hpost => by
    have hread := arguments_read hX h
    rw [events, List.append_assoc] at hs ⊢
    refine safe_eventsAll hvs as h.2 hs fun seen' hsub hids => ?_
    refine (hpost.mono hsub).produce ?_ rfl rfl
    intro j hj
    obtain ⟨a, ha, rfl⟩ := List.mem_map.1 hj
    rw [holder_eq_id (obeysAll_iff.1 h.2 a ha)]
    exact hids a ha (hread a ha)
  | .binary i op l r, h, hs, hpost => by
    obtain ⟨⟨-, -, -, -, hleft, hright⟩, hl, hr⟩ := h
    rw [events, List.append_assoc, List.append_assoc] at hs ⊢
    have hs' := (List.suffix_append _ _).trans hs
    refine safe_events hvs l hl hs fun seen₁ hsub₁ hread₁ => ?_
    refine safe_events (fun v hv => hsub₁ (hvs v hv)) r hr hs' fun seen₂ hsub₂ hread₂ => ?_
    refine (hpost.mono (List.Subset.trans hsub₁ hsub₂)).produce ?_ rfl rfl
    rw [holder_eq_id hl, holder_eq_id hr]
    intro j hj
    rcases List.mem_cons.1 hj with rfl | hj
    · exact hsub₂ (hread₁ hleft)
    · rw [List.mem_singleton.1 hj]
      exact hread₂ hright
  | .logicalNot i e, h, hs, hpost => by
    obtain ⟨⟨-, -, -, -, hread⟩, he⟩ := h
    rw [events, List.append_assoc] at hs ⊢
    refine safe_events hvs e he hs fun seen' hsub hid => ?_
    refine (hpost.mono hsub).produce ?_ rfl rfl
    rw [holder_eq_id he]
    intro j hj
    rw [List.mem_singleton.1 hj]
    exact hid hread
  | .block i ss, h, hs, hpost => by
    obtain ⟨⟨-, -, -, -, hid⟩, hss⟩ := h
    refine safe_stmtEventsAll hvs ss hss hs fun seen' hsub _ => hpost seen' hsub fun hread => ?_
    exact absurd hid hread
  | .valueBlock i ss r, h, hs, hpost => by
    obtain ⟨⟨-, -, -, -, hid⟩, hss, hr⟩ := h
    have hid : i.id = r.id := hid
    rw [events, List.append_assoc] at hs ⊢
    refine safe_stmtEventsAll hvs ss hss hs fun seen' hsub hvs' => ?_
    refine safe_events hvs' r hr ((List.suffix_append _ _).trans hs) ?_
    rw [← hid]
    exact hpost.mono hsub
  | .ifThen _ t a _, h, hs, hpost =>
    safe_ifThen hn h (fun _ _ hvs => safe_events hvs t h.2.1)
      (fun _ _ hvs => safe_events hvs a h.2.2) hvs hs hpost
  | .ifElse _ t a b _ _, h, hs, hpost =>
    safe_ifElse hn h (fun _ _ hvs => safe_events hvs t h.2.1)
      (fun _ _ hvs => safe_events hvs a h.2.2.1) (fun _ _ hvs => safe_events hvs b h.2.2.2) hvs hs hpost
  | .dereference i p, h, hs, hpost => by
    obtain ⟨⟨-, -, -, -, hid, -⟩, hp⟩ := h
    have hid : i.id = p.id := hid
    refine safe_events hvs p hp hs ?_
    rw [← hid]
    exact hpost

theorem safe_eventsAll {vs : List Variable} {seen post : List Event}
    (hvs : ∀ v ∈ vs, v.id ∈ produced seen) : ∀ es : List TypedExpr, ObeysAll X.rule vs es →
      eventsAll es ++ post <:+ stream →
      (∀ seen', produced seen ⊆ produced seen' →
        (∀ e ∈ es, e.id ≠ .unread → e.id ∈ produced seen') → Safe stream seen' post) →
      Safe stream seen (eventsAll es ++ post)
  | [], _, _, hpost => hpost seen (List.Subset.refl _) fun e he => absurd he List.not_mem_nil
  | e :: es, h, hs, hpost => by
    rw [eventsAll, List.append_assoc] at hs ⊢
    refine safe_events hvs e h.1 hs fun seen₁ hsub₁ hread₁ => ?_
    refine safe_eventsAll (fun v hv => hsub₁ (hvs v hv)) es h.2 ((List.suffix_append _ _).trans hs)
      fun seen₂ hsub₂ hread₂ => hpost seen₂ (List.Subset.trans hsub₁ hsub₂) ?_
    intro e' he'
    rcases List.mem_cons.1 he' with rfl | he'
    · exact fun hread => hsub₂ (hread₁ hread)
    · exact hread₂ e' he'

/-- The events of a statement are safe, if what follows is once its variable is there. -/
theorem safe_stmtEvents {vs : List Variable} {seen post : List Event}
    (hvs : ∀ v ∈ vs, v.id ∈ produced seen) : ∀ s : TypedStmt, StmtObeys X.rule vs s →
      stmtEvents s ++ post <:+ stream →
      (∀ seen', produced seen ⊆ produced seen' →
        (∀ v ∈ s.bind vs, v.id ∈ produced seen') → Safe stream seen' post) →
      Safe stream seen (stmtEvents s ++ post)
  | .expression e, h, hs, hpost =>
    safe_events hvs e h.2 hs fun seen' hsub _ => hpost seen' hsub fun v hv => hsub (hvs v hv)
  | .define v e, h, hs, hpost => by
    obtain ⟨⟨-, ⟨hdeclares, -⟩, -, hread⟩, he⟩ := h
    simp only [stmtEvents, List.append_assoc, List.cons_append, List.nil_append] at hs ⊢
    refine safe_events hvs e he hs fun seen₁ hsub₁ hread₁ => ?_
    -- the slot is there before it is filled
    have hv : v.id ∈ produced (.allocate v.id v.type.unqualified v.name :: seen₁) :=
      mem_produced_cons.2 (.inl ⟨List.mem_singleton.2 rfl, hdeclares.read⟩)
    refine .cons_next (fun j hj => absurd hj List.not_mem_nil) rfl ?_
    refine .cons_next (readsProduced_of_mem ?_) rfl (hpost _ ?_ ?_)
    · rw [holder_eq_id he]
      intro j hj
      rcases List.mem_cons.1 hj with rfl | hj
      · exact hv
      · rw [List.mem_singleton.1 hj]
        exact produced_subset_cons _ _ (hread₁ hread)
    · exact fun j hj => produced_subset_cons _ _ (produced_subset_cons _ _ (hsub₁ hj))
    · intro u hu
      rcases List.mem_cons.1 hu with rfl | hu
      · exact produced_subset_cons _ _ hv
      · exact produced_subset_cons _ _ (produced_subset_cons _ _ (hsub₁ (hvs u hu)))
  | .assign t e, h, hs, hpost => by
    obtain ⟨⟨-, -, htarget, hvalue⟩, ht, he⟩ := h
    simp only [stmtEvents, List.append_assoc, List.cons_append, List.nil_append] at hs ⊢
    refine safe_events hvs e he hs fun seen₁ hsub₁ hread₁ => ?_
    refine safe_events (fun v hv => hsub₁ (hvs v hv)) t ht ((List.suffix_append _ _).trans hs)
      fun seen₂ hsub₂ hread₂ => ?_
    have hsub := List.Subset.trans hsub₁ hsub₂
    refine .cons_next (readsProduced_of_mem ?_) rfl (hpost _ ?_ ?_)
    · rw [holder_eq_id ht, holder_eq_id he]
      intro j hj
      rcases List.mem_cons.1 hj with rfl | hj
      · exact hread₂ htarget
      · rw [List.mem_singleton.1 hj]
        exact hsub₂ (hread₁ hvalue)
    · exact fun j hj => produced_subset_cons _ _ (hsub hj)
    · exact fun v hv => produced_subset_cons _ _ (hsub (hvs v hv))
  | .returnValue e, h, hs, _ => by
    obtain ⟨⟨-, -, hread⟩, he⟩ := h
    rw [stmtEvents, List.append_assoc] at hs ⊢
    refine safe_events hvs e he hs fun seen₁ _ hread₁ => ?_
    split
    · exact .cons_end (fun j hj => absurd hj List.not_mem_nil) rfl rfl
    · rename_i hvoid
      refine .cons_end (readsProduced_of_mem ?_) rfl rfl
      intro j hj
      rw [List.mem_singleton.1 hj, holder_eq_id he]
      exact hread₁ (hread.resolve_left hvoid)
  | .returnVoid, _, _, _ => .cons_end (fun j hj => absurd hj List.not_mem_nil) rfl rfl

theorem safe_stmtEventsAll {vs : List Variable} {seen post : List Event}
    (hvs : ∀ v ∈ vs, v.id ∈ produced seen) : ∀ ss : List TypedStmt, StmtsObey X.rule vs ss →
      stmtEventsAll ss ++ post <:+ stream →
      (∀ seen', produced seen ⊆ produced seen' →
        (∀ v ∈ TypedStmt.bindAll vs ss, v.id ∈ produced seen') → Safe stream seen' post) →
      Safe stream seen (stmtEventsAll ss ++ post)
  | [], _, _, hpost => hpost seen (List.Subset.refl _) hvs
  | s :: ss, h, hs, hpost => by
    rw [stmtEventsAll, List.append_assoc] at hs ⊢
    refine safe_stmtEvents hvs s h.1 hs fun seen₁ hsub₁ hvs₁ => ?_
    exact safe_stmtEventsAll hvs₁ ss h.2 ((List.suffix_append _ _).trans hs)
      fun seen₂ hsub₂ hvs₂ => hpost seen₂ (List.Subset.trans hsub₁ hsub₂) hvs₂
end

end

end Setting

end RangeTyping
