import Mathlib
import RangeTyping.Proofs.Evaluation.Tree
import RangeTyping.Proofs.Tree.Rules

/-!
# The invariant of an evaluation

While a well-typed function is evaluated, every variable in scope holds a value of its type and of its
range (`Progress.Sound`), and the value of an expression is one of its type and range, or a place that
holds one (`Frame.Yields`).  The value of an expression that may be assigned also remembers which
variables it can be the place of.

Computations are put together by `Evaluation.Ensures`, which says what holds after a computation that
starts where something else holds.
-/

namespace RangeTyping

/-! ### Values -/

namespace Value

variable {v : Value} {t : Ty} {f : Flags} {n : Int} {q : ValueRange} {r : Option ValueRange}

@[simp] theorem fits_withFlags : v.Fits (t.withFlags f) ↔ v.Fits t := by
  cases t <;> rfl

@[simp] theorem fits_unqualified : v.Fits t.unqualified ↔ v.Fits t := fits_withFlags

theorem fits_of_asScalar? {s : Scalar} (hs : t.asScalar? = some s) (hv : s.kind ≠ .void) :
    v.Fits t ↔ ∃ n, v = .number n ∧ s.Holds n := by
  cases t <;> cases hs
  simp [Fits, hv]

theorem fits_of_isVoid (h : t.isVoid = true) : v.Fits t ↔ v = .nothing := by
  cases t with
  | scalar g s =>
    have hk : s.kind = .void := by simpa [Ty.isVoid, Ty.asScalar?] using h
    simp [Fits, hk]
  | function | pointer | array | struct => simp [Ty.isVoid, Ty.asScalar?] at h

theorem in_none : v.In none := by
  intro q hq
  cases hq

theorem in_some : v.In (some q) ↔ ∃ n, v = .number n ∧ n ∈ q := by
  constructor
  · intro h
    exact h q rfl
  · rintro h _ ⟨⟩
    exact h

/-- A number of a range of the type is a value of the type. -/
theorem fits_of_mem (h : t.Admits (some q)) (hn : n ∈ q) : (number n).Fits t := by
  obtain ⟨s, hs, hv, hof⟩ := h.of
  exact (fits_of_asScalar? hs hv).2 ⟨n, rfl, hof.holds hn⟩

/-- **Every value of a type is in its full range.** -/
theorem Fits.in_fullRange {X : Setting} (hk : X.Known t) (hr : t.fullRange = .ok r)
    (hv : v.Fits t) : v.In r := by
  rintro q rfl
  obtain ⟨s, hs, hvoid, -⟩ := (hk.admits_fullRange hr).of
  obtain ⟨n, rfl, h1, h2⟩ := (fits_of_asScalar? hs hvoid).1 hv
  have hfull : s.fullRange = .ok (some q) := by
    rw [Ty.fullRange, hs] at hr
    exact hr
  have hsized := BuiltinTypes.sized_of_mem (hk.mem_all hs) hvoid
  rcases Scalar.fullRange_ok hsized hfull with ⟨h, -⟩ | ⟨-, p, hp, -, hlo, hhi⟩
  · exact absurd h hvoid
  · cases hp
    refine ⟨n, rfl, ValueRange.mem_iff.2 ⟨?_, ?_⟩⟩
    · rw [hlo]
      exact h1
    · rw [hhi]
      exact h2

end Value

/-! ### The invariant -/

/-- The recorded value is there, and in the range of the expression. -/
def Sighting.Sound (x : Sighting) : Prop := ∃ c, x.content = some c ∧ c.In x.expr.range

/-- **What holds during an evaluation** where the variables `vs` are in scope. -/
structure Progress.Sound (vs : List Variable) (s : Progress) : Prop where
  slots : ∀ v ∈ vs, ∃ c, s.frame.slots v.id = some c ∧ c.Fits v.type ∧ c.In v.range
  seen : ∀ x ∈ s.sightings, x.Sound

/-- **What the value of an expression is**, by its type and range: a value of the type, or a place that
holds one. -/
inductive Frame.Yields (vs : List Variable) (F : Frame) (t : Ty) (r : Option ValueRange) :
    Value → Prop where
  | plain {v : Value} (noPlace : t.isReference = false) (fits : v.Fits t) (within : v.In r) :
      Yields vs F t r v
  | slot {x : ValueId} {c : Value} (place : t.isReference = true) (content : F.slots x = some c)
      (fits : c.Fits t) (within : c.In r) (shared : ∀ w ∈ vs, w.id = x → w.type = t) :
      Yields vs F t r (.slot x)
  | memory {a : Nat} (place : t.isReference = true) (full : ∀ c : Value, c.Fits t → c.In r) :
      Yields vs F t r (.address a)

/-- The evaluation ended as that of a function that returns `returnType` may. -/
def Ending.Proper (returnType : Ty) : Ending → Prop
  | .returned none => returnType.isVoid = true
  | .returned (some v) => v.Fits returnType
  | .undefined => True
  | .stuck => False

/-- The variables in scope are declared and have different places. -/
structure Setting.Scoped (X : Setting) (vs : List Variable) : Prop where
  declares : ∀ v ∈ vs, X.Declares v
  nodup : (vs.map (·.id)).Nodup

namespace Frame.Yields

variable {vs ws : List Variable} {F : Frame} {t : Ty} {r r' : Option ValueRange} {v : Value}

theorem of_plain (h : F.Yields vs t r v) (hplain : t.isReference = false) : v.Fits t ∧ v.In r := by
  cases h with
  | plain noPlace fits within => exact ⟨fits, within⟩
  | slot place => simp [hplain] at place
  | memory place => simp [hplain] at place

/-- A number of a range of the type. -/
theorem number {q : ValueRange} {n : Int} (hplain : t.isReference = false) (ha : t.Admits r)
    (hr : r = some q) (hn : n ∈ q) : F.Yields vs t r (.number n) := by
  subst hr
  exact .plain hplain (Value.fits_of_mem ha hn) (Value.in_some.2 ⟨n, rfl, hn⟩)

/-- A number of its range, where no place is yielded. -/
theorem exists_number {q : ValueRange} (h : F.Yields vs t r v) (hplain : t.isReference = false)
    (hr : r = some q) : ∃ n ∈ q, v = .number n := by
  obtain ⟨n, hv, hn⟩ := (h.of_plain hplain).2 q hr
  exact ⟨n, hn, hv⟩

theorem widen (h : F.Yields vs t r v) (hr : ∀ c : Value, c.In r → c.In r') :
    F.Yields vs t r' v := by
  cases h with
  | plain noPlace fits within => exact .plain noPlace fits (hr v within)
  | slot place content fits within shared => exact .slot place content fits (hr _ within) shared
  | memory place full => exact .memory place fun c hc => hr c (full c hc)

theorem narrow (h : F.Yields vs t r v) (hws : ∀ w ∈ ws, w ∈ vs) : F.Yields ws t r v := by
  cases h with
  | plain noPlace fits within => exact .plain noPlace fits within
  | slot place content fits within shared =>
    exact .slot place content fits within fun w hw => shared w (hws w hw)
  | memory place full => exact .memory place full

end Frame.Yields

/-! ### Computations -/

namespace Evaluation

variable {α β : Type} {E : Ending → Progress → Prop} {P : Progress → Prop}

/-- **From every state with `P` the computation gives a value and a state with `Q`**, or ends with
`E`. -/
def Ensures (E : Ending → Progress → Prop) (P : Progress → Prop) (x : Evaluation α)
    (Q : α → Progress → Prop) : Prop :=
  ∀ s, P s → match x s with
    | .ok a s' => Q a s'
    | .error e s' => E e s'

namespace Ensures

theorem pure {Q : α → Progress → Prop} {a : α} (h : ∀ s, P s → Q a s) :
    Ensures E P (Pure.pure a) Q := h

theorem bind {x : Evaluation α} {f : α → Evaluation β} {Q : α → Progress → Prop}
    {R : β → Progress → Prop} (hx : Ensures E P x Q) (hf : ∀ a, Ensures E (Q a) (f a) R) :
    Ensures E P (x >>= f) R := by
  intro s hs
  have h := hx s hs
  cases hxs : x s with
  | ok a s' =>
    rw [hxs] at h
    rw [bind_of_ok hxs]
    exact hf a s' h
  | error e s' =>
    rw [hxs] at h
    rw [bind_of_error hxs]
    exact h

theorem imp {x : Evaluation α} {P' : Progress → Prop} {Q Q' : α → Progress → Prop}
    (hx : Ensures E P x Q) (hP : ∀ s, P' s → P s) (hQ : ∀ a s, Q a s → Q' a s) :
    Ensures E P' x Q' := by
  intro s hs
  have h := hx s (hP s hs)
  cases hxs : x s with
  | ok a s' =>
    rw [hxs] at h
    exact hQ a s' h
  | error e s' =>
    rw [hxs] at h
    exact h

theorem weaken {x : Evaluation α} {P' : Progress → Prop} {Q : α → Progress → Prop}
    (hx : Ensures E P x Q) (hP : ∀ s, P' s → P s) : Ensures E P' x Q :=
  hx.imp hP fun _ _ h => h

theorem perform {x : Effect α} {Q : α → Progress → Prop}
    (h : ∀ s, P s → match x s.frame with
      | .ok (a, F) => Q a { s with frame := F }
      | .error e => E e s) : Ensures E P (Evaluation.perform x) Q := by
  intro s hs
  have hx := h s hs
  unfold Evaluation.perform
  cases hxs : x s.frame with
  | ok result =>
    rw [hxs] at hx
    exact hx
  | error e =>
    rw [hxs] at hx
    exact hx

/-- A fact that follows from the state before may be used throughout. -/
theorem of_imp {x : Evaluation α} {Q : α → Progress → Prop} {p : Prop} (hp : ∀ s, P s → p)
    (h : p → Ensures E P x Q) : Ensures E P x Q := fun s hs => h (hp s hs) s hs

theorem stop {e : Ending} {Q : α → Progress → Prop} (h : ∀ s, P s → E e s) :
    Ensures E P (Evaluation.stop e) Q := h

end Ensures

end Evaluation

end RangeTyping
