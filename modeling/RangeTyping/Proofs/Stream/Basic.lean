import Mathlib
import RangeTyping.Typed.Event
import RangeTyping.Proofs.Outcome

/-!
# Identities and points of a stream

What the events of a stream produce, read, name and place, and how an analysis draws the identities
among them.  `Fresh.Drew a b es` says that the identities and points of the events `es` were drawn
between the supplies `a` and `b`: all of them are different, and all of them are new.  Such lists
can be put one after the other (`Fresh.Drew.append`), and marking a value as unread only takes an
identity away (`Fresh.Drew.discard`).
-/

namespace RangeTyping

/-! ### What an event does -/

namespace Event

/-- The identities that an event gives to values. -/
def produces : Event → List ValueId
  | functionEnter _ _ ps _ _ => ps.map (·.id)
  | literalInt i _ _ | literalBool i _ | literalNull i _ | allocate i _ _ | dereference i _ _
  | convert _ i _ _ _ | call i _ _ _ | binary i _ _ _ _ | logicalNot i _
  | conditionalBranch i _ _ _ _ => [i]
  | moduleEnter _ _ _ | moduleLeave _ | declareIdentifier _ _ _ | declareStruct _ | defineStruct _
  | functionLeave | returnValue _ | returnVoid | clauseResult _ | jumpPoint _ _ | jump _
  | assign _ _ => []

/-- The identities whose values an event uses. -/
def reads : Event → List ValueId
  | returnValue i | clauseResult i => [i]
  | conditionalBranch _ _ c _ _ => [c]
  | assign t v => [t, v]
  | dereference _ _ a => [a]
  | convert _ _ s _ _ => [s]
  | call _ _ as _ => as
  | binary _ _ l r _ => [l, r]
  | logicalNot _ a => [a]
  | moduleEnter _ _ _ | moduleLeave _ | declareIdentifier _ _ _ | declareStruct _ | defineStruct _
  | functionEnter _ _ _ _ _ | functionLeave | returnVoid | jumpPoint _ _ | jump _
  | literalInt _ _ _ | literalBool _ _ | literalNull _ _ | allocate _ _ _ => []

/-- The points that an event may go to. -/
def names : Event → List PointId
  | conditionalBranch _ _ _ p q => [p, q]
  | jump p => [p]
  | _ => []

/-- The point that an event places. -/
def places : Event → List PointId
  | jumpPoint p _ => [p]
  | _ => []

/-- The identities that events produce, without that of unread values. -/
def produced (es : List Event) : List ValueId := (es.flatMap produces).filter (· ≠ .unread)

/-- The points that events name. -/
def named (es : List Event) : List PointId := es.flatMap names

/-- The points that events place. -/
def placed (es : List Event) : List PointId := es.flatMap places

section
variable (a b : List Event) (e : Event)

@[simp] theorem produced_nil : produced [] = [] := rfl
@[simp] theorem named_nil : named [] = [] := rfl
@[simp] theorem placed_nil : placed [] = [] := rfl

@[simp] theorem produced_append : produced (a ++ b) = produced a ++ produced b := by
  simp [produced]

@[simp] theorem named_append : named (a ++ b) = named a ++ named b := List.flatMap_append

@[simp] theorem placed_append : placed (a ++ b) = placed a ++ placed b := List.flatMap_append

theorem produced_cons : produced (e :: a) = e.produces.filter (· ≠ .unread) ++ produced a := by
  simp [produced]

@[simp] theorem named_cons : named (e :: a) = e.names ++ named a := rfl

@[simp] theorem placed_cons : placed (e :: a) = e.places ++ placed a := rfl

end

/-- The identity `i` as the only one that is produced, if it is read at all. -/
theorem produced_cons_single {e : Event} {i : ValueId} (h : e.produces = [i]) (es : List Event) :
    produced (e :: es) = (if i = .unread then [] else [i]) ++ produced es := by
  rw [produced_cons, h]
  by_cases hi : i = .unread <;> simp [hi]

theorem produced_perm {a b : List Event} (h : a.Perm b) : (produced a).Perm (produced b) :=
  (h.flatMap_right _).filter _

theorem placed_perm {a b : List Event} (h : a.Perm b) : (placed a).Perm (placed b) :=
  h.flatMap_right _

end Event

/-! ### Discarding -/

namespace TypedExpr

open Event

/-- Marking a value as unread takes at most its identity from what is produced. -/
theorem produced_discard (e : TypedExpr) :
    (produced e.discard.events).Sublist (produced e.events) := by
  induction e using TypedExpr.discard.induct with
  | case1 | case2 => exact List.Sublist.refl _
  | case3 i s ih =>
    show (produced (s.discard.events ++ [])).Sublist (produced (s.events ++ []))
    rw [List.append_nil, List.append_nil]
    exact ih
  | case4 i ss r ih =>
    show (produced (stmtEventsAll ss ++ r.discard.events)).Sublist
      (produced (stmtEventsAll ss ++ r.events))
    rw [produced_append, produced_append]
    exact (List.Sublist.refl _).append ih
  | case5 | case6 | case7 => exact List.nil_sublist _
  | case8 i op s hop =>
    cases op with
    | noOp => exact absurd rfl hop
    | dereference | truncate | changeSign | expandSigned | expandUnsigned =>
      simp only [discard, events, castEvents, produced_append]
      exact (List.Sublist.refl _).append (List.nil_sublist _)
  | case9 | case10 | case11 =>
    simp only [discard, events, produced_append]
    exact (List.Sublist.refl _).append (List.nil_sublist _)
  | case12 => exact List.Sublist.refl _
  | case13 i t a p =>
    simp only [discard, events, produced_append]
    refine ((((List.Sublist.refl _).append ?_).append (.refl _)).append (.refl _)).append (.refl _)
    exact List.nil_sublist _
  | case14 i t a b p q =>
    simp only [discard, events, produced_append]
    refine ((((((List.Sublist.refl _).append ?_).append (.refl _)).append (.refl _)).append
      (.refl _)).append (.refl _)).append (.refl _)
    exact List.nil_sublist _

@[simp] theorem placed_discard (e : TypedExpr) : placed e.discard.events = placed e.events := by
  induction e using TypedExpr.discard.induct with
  | case3 i s ih => simpa [discard, events, castEvents] using ih
  | case4 i ss r ih => simpa [discard, events] using ih
  | case8 i op s hop =>
    cases op with
    | noOp => exact absurd rfl hop
    | dereference | truncate | changeSign | expandSigned | expandUnsigned =>
      simp [discard, events, castEvents, places]
  | _ => simp [discard, events, places]

end TypedExpr

/-- The events of a function behind those of its body. -/
def TypedFunction.closing (f : TypedFunction) : List Event :=
  (if f.body.endsWithReturn then []
   else [if f.returnType.isVoid then .returnVoid else .returnValue f.body.holder]) ++
    [.functionLeave]

theorem TypedFunction.events_eq (file : String) (f : TypedFunction) : f.events file =
    .functionEnter f.symbol f.returnType f.parameters file f.location ::
      (f.body.events ++ f.closing) := by
  simp [events, closing]

/-! ### Drawing -/

/-- The numbers are different and lie from `lo` to below `hi`. -/
structure Within (lo hi : Nat) (l : List Nat) : Prop where
  le : lo ≤ hi
  nodup : l.Nodup
  mem : ∀ i ∈ l, lo ≤ i ∧ i < hi

namespace Within

variable {lo mid hi lo' hi' : Nat} {l m : List Nat}

theorem nil (h : lo ≤ hi) : Within lo hi [] := ⟨h, List.nodup_nil, nofun⟩

theorem single (lo : Nat) : Within lo (lo + 1) [lo] :=
  ⟨by omega, List.nodup_singleton _, fun i hi => by rw [List.mem_singleton.1 hi]; omega⟩

theorem append (h : Within lo mid l) (h' : Within mid hi m) : Within lo hi (l ++ m) := by
  refine ⟨h.le.trans h'.le, List.nodup_append.2 ⟨h.nodup, h'.nodup, ?_⟩, ?_⟩
  · rintro i hi j hj rfl
    have := h.mem i hi
    have := h'.mem i hj
    omega
  · intro i hi
    have := h.le
    have := h'.le
    rcases List.mem_append.1 hi with hi | hi
    · have := h.mem i hi
      omega
    · have := h'.mem i hi
      omega

theorem perm (h : Within lo hi l) (hp : l.Perm m) : Within lo hi m :=
  ⟨h.le, hp.nodup_iff.1 h.nodup, fun i hi => h.mem i (hp.mem_iff.2 hi)⟩

theorem sublist (h : Within lo hi l) (hs : m.Sublist l) : Within lo hi m :=
  ⟨h.le, h.nodup.sublist hs, fun i hi => h.mem i (hs.subset hi)⟩

theorem mono (h : Within lo hi l) (hlo : lo' ≤ lo) (hhi : hi ≤ hi') : Within lo' hi' l := by
  refine ⟨by have := h.le; omega, h.nodup, fun i hi => ?_⟩
  have := h.mem i hi
  omega

end Within

namespace Fresh

open Event

/-- **The identities and points of the events were drawn** between the supplies `a` and `b`: they
are new and different. -/
structure Drew (a b : Fresh) (es : List Event) : Prop where
  values : Within a.nextValue b.nextValue ((produced es).map (·.index))
  points : Within a.nextPoint b.nextPoint ((placed es).map (·.index))

/-- Nothing was put back. -/
structure Grew (a b : Fresh) : Prop where
  values : a.nextValue ≤ b.nextValue
  points : a.nextPoint ≤ b.nextPoint

namespace Grew

variable {a b c : Fresh}

theorem refl (a : Fresh) : a.Grew a := ⟨le_rfl, le_rfl⟩

theorem trans (h : a.Grew b) (h' : b.Grew c) : a.Grew c :=
  ⟨h.values.trans h'.values, h.points.trans h'.points⟩

theorem freshValue {v : ValueId} (h : Analysis.freshValue a = .ok (v, b)) : a.Grew b := by
  obtain ⟨-, rfl⟩ := Analysis.freshValue_ok h
  exact ⟨Nat.le_succ _, le_rfl⟩

theorem freshPoint {p : PointId} (h : Analysis.freshPoint a = .ok (p, b)) : a.Grew b := by
  obtain ⟨-, rfl⟩ := Analysis.freshPoint_ok h
  exact ⟨le_rfl, Nat.le_succ _⟩

end Grew

namespace Drew

variable {a b c : Fresh} {es fs : List Event}

theorem grew (h : a.Drew b es) : a.Grew b := ⟨h.values.le, h.points.le⟩

theorem nil (h : a.Grew b) : a.Drew b [] := ⟨.nil h.values, .nil h.points⟩

/-- Events without identities and points need not be drawn. -/
theorem silent (h : a.Grew b) (hv : produced es = []) (hp : placed es = []) : a.Drew b es := by
  constructor
  · rw [hv]
    exact .nil h.values
  · rw [hp]
    exact .nil h.points

/-- An event that produces a new identity. -/
theorem value {e : Event} {v : ValueId} (h : Analysis.freshValue a = .ok (v, b))
    (hv : e.produces = [v]) (hp : e.places = []) : a.Drew b [e] := by
  obtain ⟨rfl, rfl⟩ := Analysis.freshValue_ok h
  constructor
  · refine (Within.single a.nextValue).sublist ?_
    rw [produced_cons, hv]
    exact (List.filter_sublist.append (List.Sublist.refl _)).map _
  · rw [placed_cons, hp]
    exact .nil le_rfl

/-- An event that produces a new identity or none. -/
theorem valueUnless {e : Event} {c : Prop} {v : ValueId}
    (h : c ∧ v = .unread ∧ b = a ∨ ¬c ∧ Analysis.freshValue a = .ok (v, b))
    (hv : e.produces = [v]) (hp : e.places = []) : a.Drew b [e] := by
  rcases h with ⟨-, rfl, rfl⟩ | ⟨-, h⟩
  · refine .silent (.refl _) ?_ ?_
    · rw [produced_cons_single hv]
      rfl
    · rw [placed_cons, hp]
      rfl
  · exact .value h hv hp

/-- An event that places a new point. -/
theorem point {p : PointId} (h : Analysis.freshPoint a = .ok (p, b)) (name : String) :
    a.Drew b [.jumpPoint p name] := by
  obtain ⟨rfl, rfl⟩ := Analysis.freshPoint_ok h
  exact ⟨.nil le_rfl, .single _⟩

theorem append (h : a.Drew b es) (h' : b.Drew c fs) : a.Drew c (es ++ fs) := by
  constructor
  · rw [produced_append, List.map_append]
    exact h.values.append h'.values
  · rw [placed_append, List.map_append]
    exact h.points.append h'.points

/-- Events that produce and place the same, in another order, were drawn as well. -/
theorem of_perm (h : a.Drew b es) (hv : (produced es).Perm (produced fs))
    (hp : (placed es).Perm (placed fs)) : a.Drew b fs :=
  ⟨h.values.perm (hv.map _), h.points.perm (hp.map _)⟩

theorem perm (h : a.Drew b es) (hp : es.Perm fs) : a.Drew b fs :=
  h.of_perm (produced_perm hp) (placed_perm hp)

theorem mono {a' b' : Fresh} (h : a.Drew b es) (ha : a'.Grew a) (hb : b.Grew b') : a'.Drew b' es :=
  ⟨h.values.mono ha.values hb.values, h.points.mono ha.points hb.points⟩

/-- Events that produce less and place the same were drawn as well. -/
theorem of_sublist (h : a.Drew b es) (hv : (produced fs).Sublist (produced es))
    (hp : placed fs = placed es) : a.Drew b fs := by
  refine ⟨h.values.sublist (hv.map _), ?_⟩
  rw [hp]
  exact h.points

theorem discard {e : TypedExpr} (h : a.Drew b e.events) : a.Drew b e.discard.events :=
  h.of_sublist e.produced_discard e.placed_discard

end Drew

end Fresh

end RangeTyping
