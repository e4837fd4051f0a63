import Mathlib
import RangeTyping.Proofs.Stream.Basic

/-!
# Control flow in a stream

Where control may go from an event of a stream: to the next one, to the place of a point, or
nowhere.  `Event.Goes` is one such step, and remembers the events it came along; a stream is safe
from a place on (`Event.Safe`) if on every path from there each event reads only what was produced on
the way.

Jumps are resolved in the whole stream.  Where no point is placed twice, a jump to a point that lies
ahead ends there (`Event.goto_of_suffix`), and the points of a stream all lie ahead of the events that
name them (`TypedExpr.closed_events`).
-/

namespace RangeTyping

namespace Event

/-! ### Paths -/

/-- Whether control may go on with the next event. -/
def falls : Event → Bool
  | jump _ | returnValue _ | returnVoid => false
  | _ => true

/-- The points that control may go to. -/
def targets : Event → List PointId
  | conditionalBranch _ _ _ p _ => [p]
  | jump p => [p]
  | _ => []

/-- The stream from the place of a point on. -/
def goto (p : PointId) (stream : List Event) : List Event :=
  stream.dropWhile fun e => decide (p ∉ e.places)

/-- **One step of control** through a stream.  A place is given by the events on the way to it, the
last one first, and the rest of the stream. -/
inductive Goes (stream : List Event) : List Event × List Event → List Event × List Event → Prop where
  | next {seen rest : List Event} {e : Event} (falls : e.falls = true) :
      Goes stream (seen, e :: rest) (e :: seen, rest)
  | goto {seen rest : List Event} {e : Event} {p : PointId} (target : p ∈ e.targets) :
      Goes stream (seen, e :: rest) (e :: seen, goto p stream)

/-- What the event reads was produced before, and is only missing where the value of an arm is not
asked for. -/
def ReadsProduced (seen : List Event) (e : Event) : Prop :=
  ∀ i ∈ e.reads, i ∈ produced seen ∨ i = .unread ∧ e = .clauseResult i

/-- **Every event on every path** from a place reads what was produced on the way. -/
def Safe (stream seen rest : List Event) : Prop :=
  ∀ seen' e rest', Relation.ReflTransGen (Goes stream) (seen, rest) (seen', e :: rest') →
    e.ReadsProduced seen'

section
variable {stream seen rest post : List Event} {e : Event}

theorem safe_nil : Safe stream seen [] := by
  intro seen' e rest' h
  rcases h.cases_head with h | ⟨place, h, -⟩
  · cases h
  · cases h

/-- A place is safe if its event is and the places after it are. -/
theorem Safe.cons (hreads : e.ReadsProduced seen)
    (hnext : e.falls = true → Safe stream (e :: seen) rest)
    (hgoto : ∀ p ∈ e.targets, Safe stream (e :: seen) (goto p stream)) :
    Safe stream seen (e :: rest) := by
  intro seen' e' rest' h
  rcases h.cases_head with h | ⟨place, hstep, h⟩
  · cases h
    exact hreads
  · cases hstep with
    | next hfalls => exact hnext hfalls _ _ _ h
    | goto htarget => exact hgoto _ htarget _ _ _ h

/-- An event without targets leads to the next one only. -/
theorem Safe.cons_next (hreads : e.ReadsProduced seen) (htargets : e.targets = [])
    (hnext : Safe stream (e :: seen) rest) : Safe stream seen (e :: rest) := by
  refine .cons hreads (fun _ => hnext) ?_
  intro p hp
  rw [htargets] at hp
  cases hp

/-- After an event that ends the function nothing has to be shown. -/
theorem Safe.cons_end (hreads : e.ReadsProduced seen) (htargets : e.targets = [])
    (hfalls : e.falls = false) : Safe stream seen (e :: rest) := by
  refine .cons hreads (fun h => ?_) ?_
  · rw [hfalls] at h
    cases h
  · intro p hp
    rw [htargets] at hp
    cases hp

/-- A jump leads to the place of its point. -/
theorem Safe.cons_jump {p : PointId} (hgoto : Safe stream (jump p :: seen) (goto p stream)) :
    Safe stream seen (jump p :: rest) := by
  refine .cons (fun i hi => absurd hi List.not_mem_nil) (fun h => Bool.noConfusion h) ?_
  intro q hq
  rw [List.mem_singleton.1 hq]
  exact hgoto

/-- **A jump to a point that lies ahead** ends there. -/
theorem goto_of_suffix {p : PointId} {name : String} (hn : (placed stream).Nodup)
    (h : jumpPoint p name :: post <:+ stream) : goto p stream = jumpPoint p name :: post := by
  obtain ⟨before, rfl⟩ := h
  rw [placed_append, placed_cons] at hn
  -- nothing before the point places it
  have hnot : ∀ e ∈ before, decide (p ∉ e.places) = true := by
    intro e he
    rw [decide_eq_true_eq]
    intro hp
    refine (List.nodup_append.1 hn).2.2 p (List.mem_flatMap.2 ⟨e, he, hp⟩) p ?_ rfl
    exact List.mem_append_left _ (List.mem_singleton.2 rfl)
  rw [goto, List.dropWhile_append_of_pos hnot, List.dropWhile_cons_of_neg]
  simp [places]

theorem suffix_of_append_cons {es : List Event} (h : es ++ e :: rest <:+ stream) :
    rest <:+ stream :=
  (List.suffix_cons ..).trans ((List.suffix_append ..).trans h)

end

/-! ### Points -/

/-- Points are placed after the events that name them. -/
def Forward (es : List Event) : Prop :=
  ∀ e rest, e :: rest <:+ es → ∀ p ∈ e.names, p ∈ placed rest

section
variable {a b es : List Event} {e : Event}

theorem forward_nil : Forward [] := by
  intro e rest h
  simp at h

theorem forward_cons (hnames : ∀ p ∈ e.names, p ∈ placed es) (h : Forward es) :
    Forward (e :: es) := by
  intro e' rest hsuffix
  rcases List.suffix_cons_iff.1 hsuffix with heq | hsuffix
  · cases heq
    exact hnames
  · exact h e' rest hsuffix

theorem forward_append (ha : Forward a) (hb : Forward b) : Forward (a ++ b) := by
  induction a with
  | nil => exact hb
  | cons e a ih =>
    rw [List.cons_append]
    refine forward_cons ?_ (ih fun e' rest h => ha e' rest (h.trans (List.suffix_cons ..)))
    intro p hp
    rw [placed_append, List.mem_append]
    exact .inl (ha e a (List.suffix_refl _) p hp)

/-- A named point is placed. -/
theorem Forward.mem_placed (h : Forward es) {p : PointId} (hp : p ∈ named es) : p ∈ placed es := by
  obtain ⟨e, he, hname⟩ := List.mem_flatMap.1 hp
  obtain ⟨before, rest, rfl⟩ := List.append_of_mem he
  have hahead := h e rest (List.suffix_append _ _) p hname
  rw [placed_append, placed_cons]
  exact List.mem_append_right _ (List.mem_append_right _ hahead)

end

/-- **Points are placed after the events that name them**, and no other point is placed. -/
structure Closed (es : List Event) : Prop where
  forward : Forward es
  mem_named : ∀ p ∈ placed es, p ∈ named es

namespace Closed

variable {a b : List Event} {e : Event}

theorem nil : Closed [] := ⟨forward_nil, fun _ hp => absurd hp List.not_mem_nil⟩

theorem append (ha : Closed a) (hb : Closed b) : Closed (a ++ b) := by
  refine ⟨forward_append ha.forward hb.forward, ?_⟩
  intro p hp
  rw [placed_append, List.mem_append] at hp
  rw [named_append, List.mem_append]
  exact hp.imp (ha.mem_named p) (hb.mem_named p)

/-- An event that neither names nor places a point. -/
theorem single (hnames : e.names = []) (hplaces : e.places = []) : Closed [e] := by
  constructor
  · refine forward_cons ?_ forward_nil
    rw [hnames]
    exact fun p hp => absurd hp List.not_mem_nil
  · intro p hp
    rw [placed_cons, hplaces] at hp
    cases hp

end Closed

end Event

namespace TypedExpr

open Event

/-! ### Conditionals -/

/-- The events of an arm, which end by giving its result to the conditional and going to `q`. -/
def armEvents (i : ValueId) (arm : TypedExpr) (q : PointId) (rest : List Event) : List Event :=
  arm.events ++ .clauseResult (armResult i arm.holder) :: .jump q :: rest

theorem suffix_of_armEvents {i : ValueId} {arm : TypedExpr} {q : PointId} {rest stream : List Event}
    (h : armEvents i arm q rest <:+ stream) : rest <:+ stream :=
  (List.suffix_cons ..).trans (suffix_of_append_cons h)

section
variable (i : ValueInfo) (t a b : TypedExpr) (p q : PointId) (post : List Event)

/-- A conditional without alternative, and what follows it. -/
theorem events_ifThen_append : (ifThen i t a p).events ++ post =
    t.events ++ .conditionalBranch i.id i.type t.holder p p ::
      armEvents i.id a p (.jumpPoint p "continuation" :: post) := by
  simp [events, armEvents]

/-- A conditional with an alternative, and what follows it. -/
theorem events_ifElse_append : (ifElse i t a b p q).events ++ post =
    t.events ++ .conditionalBranch i.id i.type t.holder p q ::
      armEvents i.id a q (.jumpPoint p "else" ::
        armEvents i.id b q (.jumpPoint q "continuation" :: post)) := by
  simp [events, armEvents]

theorem produced_ifThen : produced (ifThen i t a p).events =
    produced t.events ++ (produced [.conditionalBranch i.id i.type t.holder p p] ++
      produced a.events) := by
  rw [← List.append_nil (ifThen i t a p).events, events_ifThen_append]
  simp [armEvents, produced_cons, produces]

theorem produced_ifElse : produced (ifElse i t a b p q).events =
    produced t.events ++ (produced [.conditionalBranch i.id i.type t.holder p q] ++
      (produced a.events ++ produced b.events)) := by
  rw [← List.append_nil (ifElse i t a b p q).events, events_ifElse_append]
  simp [armEvents, produced_cons, produces]

end

/-! ### Points of a tree -/

theorem closed_castEvents (op : CastOp) (id : ValueId) (type : Ty) (source : ValueId)
    (sourceType : Ty) : Closed (castEvents op id type source sourceType) := by
  cases op with
  | noOp => exact .nil
  | dereference | truncate | changeSign | expandSigned | expandUnsigned => exact .single rfl rfl

/-- A conditional without alternative places its continuation behind its arm. -/
theorem closed_ifThen {i : ValueInfo} {t a : TypedExpr} {p : PointId} (ht : Closed t.events)
    (ha : Closed a.events) : Closed (ifThen i t a p).events := by
  constructor
  · simp only [events, List.append_assoc, List.cons_append, List.nil_append]
    apply forward_append ht.forward
    apply forward_cons
    · simp [names, places]
    apply forward_append ha.forward
    iterate 3
      apply forward_cons
      · simp [names, places]
    exact forward_nil
  · intro q hq
    have htest := ht.mem_named q
    have harm := ha.mem_named q
    simp only [events, placed_append, placed_cons, placed_nil, places, List.mem_append,
      List.mem_singleton, List.not_mem_nil, or_false] at hq
    simp only [events, named_append, named_cons, named_nil, names, List.mem_append, List.mem_cons,
      List.not_mem_nil, or_false, false_or]
    tauto

/-- A conditional places its alternative between its arms and its continuation behind both. -/
theorem closed_ifElse {i : ValueInfo} {t a b : TypedExpr} {p q : PointId} (ht : Closed t.events)
    (ha : Closed a.events) (hb : Closed b.events) : Closed (ifElse i t a b p q).events := by
  constructor
  · simp only [events, List.append_assoc, List.cons_append, List.nil_append]
    apply forward_append ht.forward
    apply forward_cons
    · simp [names, places]
    apply forward_append ha.forward
    iterate 3
      apply forward_cons
      · simp [names, places]
    apply forward_append hb.forward
    iterate 3
      apply forward_cons
      · simp [names, places]
    exact forward_nil
  · intro r hr
    have htest := ht.mem_named r
    have hthen := ha.mem_named r
    have helse := hb.mem_named r
    simp only [events, placed_append, placed_cons, placed_nil, places, List.mem_append,
      List.mem_singleton, List.not_mem_nil, or_false, false_or] at hr
    simp only [events, named_append, named_cons, named_nil, names, List.mem_append, List.mem_cons,
      List.not_mem_nil, or_false, false_or]
    tauto

mutual
/-- **The points of an expression** are placed behind the events that name them. -/
theorem closed_events : ∀ e : TypedExpr, Closed e.events
  | .int _ _ | .bool _ _ | .null _ => .single rfl rfl
  | .variable _ _ => .nil
  | .cast _ _ s => (closed_events s).append (closed_castEvents ..)
  | .call _ _ as => (closed_eventsAll as).append (.single rfl rfl)
  | .binary _ _ l r => ((closed_events l).append (closed_events r)).append (.single rfl rfl)
  | .logicalNot _ e => (closed_events e).append (.single rfl rfl)
  | .block _ ss => closed_stmtEventsAll ss
  | .valueBlock _ ss r => (closed_stmtEventsAll ss).append (closed_events r)
  | .ifThen _ t a _ => closed_ifThen (closed_events t) (closed_events a)
  | .ifElse _ t a b _ _ => closed_ifElse (closed_events t) (closed_events a) (closed_events b)
  | .dereference _ p => closed_events p

theorem closed_eventsAll : ∀ es : List TypedExpr, Closed (eventsAll es)
  | [] => .nil
  | e :: es => (closed_events e).append (closed_eventsAll es)

theorem closed_stmtEvents : ∀ s : TypedStmt, Closed (stmtEvents s)
  | .expression e => closed_events e
  | .define _ e => (closed_events e).append (.append (.single rfl rfl) (.single rfl rfl))
  | .assign t e => ((closed_events e).append (closed_events t)).append (.single rfl rfl)
  | .returnValue e => by
    refine (closed_events e).append ?_
    split <;> exact .single rfl rfl
  | .returnVoid => .single rfl rfl

theorem closed_stmtEventsAll : ∀ ss : List TypedStmt, Closed (stmtEventsAll ss)
  | [] => .nil
  | s :: ss => (closed_stmtEvents s).append (closed_stmtEventsAll ss)
end

end TypedExpr

/-- The points of a function are those of its body. -/
theorem TypedFunction.closed_events (file : String) (f : TypedFunction) :
    Event.Closed (f.events file) := by
  refine (((Event.Closed.single rfl rfl).append f.body.closed_events).append ?_).append
    (.single rfl rfl)
  split
  · exact .nil
  · split <;> exact .single rfl rfl

end RangeTyping
