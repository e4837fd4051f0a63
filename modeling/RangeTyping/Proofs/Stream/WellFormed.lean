import Mathlib
import RangeTyping.Proofs.Stream.Reads
import RangeTyping.Proofs.Analysis.Module

/-!
# The streams of analysed modules are well formed

`Event.WellFormed` collects what a backend may rely on in the stream of a function: whatever way
control takes, values are produced before they are read; points are placed once, behind the events
that go there; and a function ends in a return event of its kind.  `Session.wellFormed_events` states
it for the functions of an analysed module, and that no two events of the module produce the same
identity.
-/

namespace RangeTyping

/-! ### Returning -/

namespace Event

/-- Whether the event returns from a function. -/
def isReturn : Event → Bool
  | returnValue _ | returnVoid => true
  | _ => false

/-- The event may stand in the body of a function that returns `returnType`. -/
def InBody (returnType : Ty) : Event → Prop
  | returnVoid => returnType.isVoid = true
  | returnValue _ => returnType.isVoid = false
  | moduleEnter _ _ _ | moduleLeave _ | declareIdentifier _ _ _ | declareStruct _ | defineStruct _
  | functionEnter _ _ _ _ _ | functionLeave => False
  | conditionalBranch _ _ _ _ _ | clauseResult _ | jumpPoint _ _ | jump _ | literalInt _ _ _
  | literalBool _ _ | literalNull _ _ | allocate _ _ _ | assign _ _ | dereference _ _ _
  | convert _ _ _ _ _ | call _ _ _ _ | binary _ _ _ _ _ | logicalNot _ _ => True

end Event

namespace Setting

open Event TypedExpr

variable {X : Setting}

theorem inBody_castEvents (r : Ty) (op : CastOp) (id : ValueId) (type : Ty) (source : ValueId)
    (sourceType : Ty) : ∀ ev ∈ castEvents op id type source sourceType, ev.InBody r := by
  cases op <;> simp [castEvents, InBody]

/-- A returned value is announced by the kind of return that the function has. -/
theorem inBody_return {r : Ty} (id : ValueId) :
    (if r.isVoid = true then returnVoid else returnValue id).InBody r := by
  by_cases hvoid : r.isVoid = true
  · rw [if_pos hvoid]
    exact hvoid
  · rw [if_neg hvoid]
    show r.isVoid = false
    simpa using hvoid

mutual
/-- **A body returns as its function does**, and nothing of it enters or leaves a function. -/
theorem inBody_events : ∀ (e : TypedExpr) {vs : List Variable}, e.Obeys X.rule vs →
    ∀ ev ∈ e.events, ev.InBody X.returnType
  | .int _ _, _, _ | .bool _ _, _, _ | .null _, _, _ | .variable _ _, _, _ => by simp [events, InBody]
  | .cast _ _ s, _, h => by
    simp only [events, List.forall_mem_append]
    exact ⟨inBody_events s h.2, inBody_castEvents _ _ _ _ _ _⟩
  | .call _ _ as, _, h => by
    simp only [events, List.forall_mem_append, List.forall_mem_singleton]
    exact ⟨inBody_eventsAll as h.2, trivial⟩
  | .binary _ _ l r, _, h => by
    simp only [events, List.forall_mem_append, List.forall_mem_singleton]
    exact ⟨⟨inBody_events l h.2.1, inBody_events r h.2.2⟩, trivial⟩
  | .logicalNot _ e, _, h => by
    simp only [events, List.forall_mem_append, List.forall_mem_singleton]
    exact ⟨inBody_events e h.2, trivial⟩
  | .block _ ss, _, h => inBody_stmtEventsAll ss h.2
  | .valueBlock _ ss r, _, h => by
    simp only [events, List.forall_mem_append]
    exact ⟨inBody_stmtEventsAll ss h.2.1, inBody_events r h.2.2⟩
  | .ifThen _ t a _, _, h => by
    simp only [events, List.forall_mem_append, List.forall_mem_cons, List.not_mem_nil,
      IsEmpty.forall_iff, implies_true, and_true]
    exact ⟨⟨⟨⟨inBody_events t h.2.1, trivial⟩, inBody_events a h.2.2⟩, trivial, trivial⟩, trivial⟩
  | .ifElse _ t a b _ _, _, h => by
    simp only [events, List.forall_mem_append, List.forall_mem_cons, List.not_mem_nil,
      IsEmpty.forall_iff, implies_true, and_true]
    exact ⟨⟨⟨⟨⟨⟨inBody_events t h.2.1, trivial⟩, inBody_events a h.2.2.1⟩, trivial, trivial, trivial⟩,
      inBody_events b h.2.2.2⟩, trivial, trivial⟩, trivial⟩
  | .dereference _ p, _, h => inBody_events p h.2

theorem inBody_eventsAll : ∀ (es : List TypedExpr) {vs : List Variable}, ObeysAll X.rule vs es →
    ∀ ev ∈ eventsAll es, ev.InBody X.returnType
  | [], _, _ => fun _ hev => absurd hev List.not_mem_nil
  | e :: es, _, h => by
    simp only [eventsAll, List.forall_mem_append]
    exact ⟨inBody_events e h.1, inBody_eventsAll es h.2⟩

theorem inBody_stmtEvents : ∀ (s : TypedStmt) {vs : List Variable}, StmtObeys X.rule vs s →
    ∀ ev ∈ stmtEvents s, ev.InBody X.returnType
  | .expression e, _, h => inBody_events e h.2
  | .define _ e, _, h => by
    simp only [stmtEvents, List.forall_mem_append, List.forall_mem_cons, List.not_mem_nil,
      IsEmpty.forall_iff, implies_true, and_true]
    exact ⟨inBody_events e h.2, trivial, trivial⟩
  | .assign t e, _, h => by
    simp only [stmtEvents, List.forall_mem_append, List.forall_mem_singleton]
    exact ⟨⟨inBody_events e h.2.2, inBody_events t h.2.1⟩, trivial⟩
  | .returnValue e, _, h => by
    have htype : e.type = X.returnType := h.1.1
    simp only [stmtEvents, List.forall_mem_append, List.forall_mem_singleton, htype]
    exact ⟨inBody_events e h.2, inBody_return _⟩
  | .returnVoid, _, h => by
    simp only [stmtEvents, List.forall_mem_singleton]
    exact h.1

theorem inBody_stmtEventsAll : ∀ (ss : List TypedStmt) {vs : List Variable}, StmtsObey X.rule vs ss →
    ∀ ev ∈ stmtEventsAll ss, ev.InBody X.returnType
  | [], _, _ => fun _ hev => absurd hev List.not_mem_nil
  | s :: ss, _, h => by
    simp only [stmtEventsAll, List.forall_mem_append]
    exact ⟨inBody_stmtEvents s h.1, inBody_stmtEventsAll ss h.2⟩
end

end Setting

namespace TypedExpr

open Event

theorem stmtEventsAll_append (as bs : List TypedStmt) :
    stmtEventsAll (as ++ bs) = stmtEventsAll as ++ stmtEventsAll bs := by
  induction as with
  | nil => rfl
  | cons a as ih => rw [List.cons_append, stmtEventsAll, stmtEventsAll, ih, List.append_assoc]

/-- A body that ends in a return statement ends in a return event. -/
theorem getLast_of_endsWithReturn {e : TypedExpr} (h : e.endsWithReturn = true) :
    ∃ before ev, e.events = before ++ [ev] ∧ ev.isReturn = true := by
  unfold endsWithReturn at h
  split at h
  · rename_i i ss
    split at h
    · rename_i value hlast
      obtain ⟨before, rfl⟩ := List.getLast?_eq_some_iff.1 hlast
      rw [events, stmtEventsAll_append, stmtEventsAll, stmtEvents, stmtEventsAll, List.append_nil,
        ← List.append_assoc]
      refine ⟨_, _, rfl, ?_⟩
      split <;> rfl
    · rename_i hlast
      obtain ⟨before, rfl⟩ := List.getLast?_eq_some_iff.1 hlast
      rw [events, stmtEventsAll_append]
      exact ⟨_, _, rfl, rfl⟩
    · cases h
  · cases h

end TypedExpr

/-! ### Functions and modules -/

namespace Event

/-- **A well-formed stream** of a function that returns `returnType`. -/
structure WellFormed (returnType : Ty) (es : List Event) : Prop where
  /-- On every path from the start each event reads what was produced on the way. -/
  reads : ∀ seen e rest, Relation.ReflTransGen (Goes es) ([], es) (seen, e :: rest) →
    e.ReadsProduced seen
  /-- The points that are named are those that are placed, each of them once. -/
  placed_nodup : (placed es).Nodup
  placed_iff : ∀ p, p ∈ placed es ↔ p ∈ named es
  /-- A point is placed behind every event that names it. -/
  placed_behind : ∀ before e after, es = before ++ e :: after → ∀ p ∈ e.names, p ∈ placed after
  /-- The function ends in a return event. -/
  ends : ∃ before e, es = before ++ [e, functionLeave] ∧ e.isReturn = true ∧
    functionLeave ∉ before
  /-- A function without result returns nothing, any other one returns a value. -/
  returns : ∀ e ∈ es, e.isReturn = true → (e = returnVoid ↔ returnType.isVoid = true)

end Event

namespace Setting.Defines

open Event

variable {X : Setting} {f : TypedFunction} {vs : List Variable} {stream : List Event} {file : String}

/-- **Every path through a function** reads what was produced on it. -/
theorem safe_function (h : X.Defines f vs) (hX : X.Inhabited) (hn : (placed stream).Nodup)
    (hs : f.events file <:+ stream) : Safe stream [] (f.events file) := by
  rw [f.events_eq] at hs ⊢
  refine .cons_next (fun j hj => absurd hj List.not_mem_nil) rfl ?_
  refine safe_events hX hn ?_ f.body h.obeys ((List.suffix_cons _ _).trans hs) ?_
  · intro v hv
    refine mem_produced_cons.2 (.inl ⟨?_, (h.declares v hv).read⟩)
    show v.id ∈ f.parameters.map (·.id)
    rw [Parameter.map_id_of_holds h.parameters]
    exact List.mem_map_of_mem (List.mem_reverse.2 hv)
  · -- behind the body the function returns, unless the body did
    intro seen _ hread
    have hleave : ∀ seen', Safe stream seen' [.functionLeave] := fun seen' =>
      .cons_next (fun j hj => absurd hj List.not_mem_nil) rfl safe_nil
    unfold TypedFunction.closing
    by_cases hreturn : f.body.endsWithReturn = true
    · rw [if_pos hreturn]
      exact hleave seen
    · rw [if_neg hreturn]
      by_cases hvoid : f.returnType.isVoid = true
      · rw [if_pos hvoid]
        exact .cons_end (fun j hj => absurd hj List.not_mem_nil) rfl rfl
      · rw [if_neg hvoid]
        have hresult := (h.result (by simpa using hvoid)).resolve_left hreturn
        refine .cons_end (readsProduced_of_mem ?_) rfl rfl
        intro j hj
        rw [List.mem_singleton.1 hj, holder_eq_id h.obeys]
        exact hread hresult.2

/-- The last event before the function is left returns from it. -/
theorem exists_ends (h : X.Defines f vs) : ∃ before e,
    f.events file = before ++ [e, .functionLeave] ∧ e.isReturn = true ∧
      .functionLeave ∉ before := by
  have hbody : ∀ e ∈ f.body.events, e ≠ .functionLeave := by
    rintro e he rfl
    exact inBody_events f.body h.obeys _ he
  rw [f.events_eq, TypedFunction.closing]
  by_cases hreturn : f.body.endsWithReturn = true
  · obtain ⟨before, e, heq, he⟩ := TypedExpr.getLast_of_endsWithReturn hreturn
    rw [heq] at hbody ⊢
    refine ⟨.functionEnter f.symbol f.returnType f.parameters file f.location :: before, e, ?_, he, ?_⟩
    · simp [hreturn]
    · intro hmem
      rcases List.mem_cons.1 hmem with hmem | hmem
      · cases hmem
      · exact hbody _ (List.mem_append_left _ hmem) rfl
  · refine ⟨.functionEnter f.symbol f.returnType f.parameters file f.location :: f.body.events,
      if f.returnType.isVoid then .returnVoid else .returnValue f.body.holder, ?_, ?_, ?_⟩
    · simp [hreturn]
    · split <;> rfl
    · intro hmem
      rcases List.mem_cons.1 hmem with hmem | hmem
      · cases hmem
      · exact hbody _ hmem rfl

/-- A function returns as its result type says. -/
theorem returns_eq (h : X.Defines f vs) : ∀ e ∈ f.events file, e.isReturn = true →
    (e = .returnVoid ↔ f.returnType.isVoid = true) := by
  have hkind : ∀ e : Event, e.InBody f.returnType → e.isReturn = true →
      (e = .returnVoid ↔ f.returnType.isVoid = true) := by
    intro e hin he
    cases e with
    | returnVoid => exact ⟨fun _ => hin, fun _ => rfl⟩
    | returnValue i =>
      have hvoid : f.returnType.isVoid = false := hin
      simp [hvoid]
    | _ => cases he
  intro e hmem he
  rw [f.events_eq, TypedFunction.closing] at hmem
  simp only [List.mem_cons, List.mem_append, List.not_mem_nil, or_false] at hmem
  rcases hmem with rfl | hmem | hmem | rfl
  · cases he
  · refine hkind e ?_ he
    rw [h.returns]
    exact inBody_events f.body h.obeys e hmem
  · split at hmem
    · cases hmem
    · rw [List.mem_singleton.1 hmem] at he ⊢
      exact hkind _ (inBody_return _) he
  · cases he

/-- **The stream of a function that is defined well is well formed**, if its points are different. -/
theorem wellFormed (h : X.Defines f vs) (hX : X.Inhabited) (hn : (placed (f.events file)).Nodup) :
    WellFormed f.returnType (f.events file) where
  reads := h.safe_function hX hn (List.suffix_refl _)
  placed_nodup := hn
  placed_iff p := ⟨(f.closed_events file).mem_named p, (f.closed_events file).forward.mem_placed⟩
  placed_behind before e after heq :=
    (f.closed_events file).forward e after (heq ▸ List.suffix_append before (e :: after))
  ends := h.exists_ends
  returns := h.returns_eq

end Setting.Defines

/-- What a module produces is what its functions produce. -/
theorem TypedModule.produced_events (S : StructStore) (m : TypedModule) :
    Event.produced (m.events S) =
      Event.produced (m.functions.flatMap (TypedFunction.events m.location.file)) := by
  have hmap : ∀ {α : Type} (l : List α) (g : α → Event), (∀ a, (g a).produces = []) →
      Event.produced (l.map g) = [] := by
    intro α l g hg
    simp [Event.produced, List.flatMap_map, hg]
  simp only [events, Event.produced_append]
  rw [hmap m.structs _ fun _ => rfl, hmap _ _ fun _ => rfl, hmap m.functions _ fun _ => rfl]
  simp [Event.produced_cons, Event.produces]

namespace Session

variable {cookie : Registration → Nat} {s s' : Session} {options : Options} {m : Source.Module}
  {typed : TypedModule}

/-- **The streams of an analysed module are well formed**: no identity is produced twice in the whole
module, and each of its functions has a well-formed stream. -/
theorem wellFormed_events (hs : Reached cookie s) (h : s.analyze options m = .ok (.ok typed, s')) :
    (∀ S, (Event.produced (typed.events S)).Nodup) ∧
      ∀ f ∈ typed.functions, Event.WellFormed f.returnType (f.events typed.location.file) := by
  obtain ⟨X, hX⟩ := hs.analysed h
  constructor
  · intro S
    rw [typed.produced_events]
    exact (hX.drew typed.location.file).values.nodup.of_map _
  · intro f hf
    obtain ⟨hr, vs, hdefines⟩ := hX.defines f hf
    exact hdefines.wellFormed hX.inhabited (hX.nodup hf _).2

/-- The streams of a module with a conditional, an assignment and a call are well formed. -/
theorem wellFormed_climb : ∃ typed s', (start fun _ => 0).analyze .default climb =
    .ok (.ok typed, s') ∧ typed.functions ≠ [] ∧
    (∀ S, (Event.produced (typed.events S)).Nodup) ∧
      ∀ f ∈ typed.functions, Event.WellFormed f.returnType (f.events typed.location.file) := by
  obtain ⟨typed, s', h, hne⟩ := climb_analysed
  exact ⟨typed, s', h, hne, wellFormed_events .start h⟩

end Session

end RangeTyping
