import Mathlib
import RangeTyping.Proofs.Evaluation.Invariant
import RangeTyping.Proofs.Analysis.Module

/-!
# Ranges are sound

In a lawful world, whatever an analysed function is given for arguments, every expression that is
evaluated on the way has a value in the range that the analysis attached to it
(`Session.content_mem_range`); for a place that is what it holds at that moment.  No evaluation gets
stuck, and what is returned is a value of the result type.

Each effect keeps the invariant (`ensures_convert`, `ensures_operate`, `ensures_assign` and so on), and an
induction over the typed tree puts them together (`Setting.ensures_evaluate`).  An assignment keeps the
ranges of all variables because the places that may be assigned are those of mutable variables, whose
ranges are full.
-/

namespace RangeTyping

open Evaluation

/-- An operation between integers converts numbers and leaves the frame alone. -/
theorem CastOp.convert_between (W : World) (a b : Scalar) (n : Int) (F : Frame) :
    (CastOp.between a b).convert W (.ofScalar a) (.ofScalar b) (.number n) F =
      .ok (.number ((CastOp.between a b).act a b n), F) := by
  unfold between
  split
  · rfl
  split
  · rfl
  split <;> rfl

theorem BinaryOperation.operate_number (op : BinaryOperation) (d : Scalar) (x y : Int) (F : Frame) :
    op.operate (.ofScalar d) (.number x) (.number y) F =
      match op.apply d x y with
      | some z => .ok (.number z, F)
      | none => .error .undefined := rfl

namespace Setting

variable {X : Setting} {W : World} {vs : List Variable} {v : Value} {t u : Ty}
  {r r' : Option ValueRange}

/-- The evaluation ended as it may, and all that was seen until then was in range. -/
def Ends (X : Setting) (e : Ending) (s : Progress) : Prop :=
  e.Proper X.returnType ∧ ∀ x ∈ s.sightings, x.Sound

/-- The invariant, together with a value of the type `t` and the range `r`. -/
def Has (vs : List Variable) (t : Ty) (r : Option ValueRange) (v : Value) (s : Progress) : Prop :=
  s.Sound vs ∧ s.frame.Yields vs t r v

/-- A value that is no place is one of its type and range, in whatever is done with it. -/
theorem ensures_bind_plain {β : Type} {P : Progress → Prop} {x : Evaluation Value}
    {f : Value → Evaluation β} {R : β → Progress → Prop} (hx : Ensures X.Ends P x (Has vs t r))
    (hplain : t.isReference = false)
    (hf : ∀ v : Value, v.Fits t → v.In r → Ensures X.Ends (Progress.Sound vs) (f v) R) :
    Ensures X.Ends P (x >>= f) R := by
  refine hx.bind fun v => .of_imp (p := v.Fits t ∧ v.In r) (fun s hs => hs.2.of_plain hplain) ?_
  rintro ⟨hfits, hin⟩
  exact (hf v hfits hin).weaken fun s hs => hs.1

/-! ### Effects keep the invariant -/

/-- What is recorded is in range. -/
theorem ensures_record (hW : W.Lawful) (e : TypedExpr) :
    Ensures X.Ends (Has vs e.type e.range v) (record W e v) (Has vs e.type e.range) := by
  rintro s ⟨hs, hy⟩
  refine ⟨⟨hs.slots, ?_⟩, hy⟩
  show ∀ x ∈ (_ :: s.sightings : List Sighting), x.Sound
  rw [List.forall_mem_cons]
  refine ⟨?_, hs.seen⟩
  cases hy with
  | plain noPlace fits within =>
    refine ⟨v, ?_, within⟩
    simp [noPlace]
  | slot place content fits within shared =>
    refine ⟨_, ?_, within⟩
    simpa [place, Frame.peek] using content
  | @memory a place full =>
    refine ⟨W.memory s.frame.history a e.type.unqualified, ?_, full _ ?_⟩
    · simp [place, Frame.peek]
    · exact Value.fits_unqualified.1 (hW.memory ..)

/-- Reading a place gives what it holds. -/
theorem ensures_load (hW : W.Lawful) (ht : t.flags = .none) {f : Flags} (hf : f.reference = true) :
    Ensures X.Ends (Has vs (t.withFlags f) r v) (perform fun F => F.load W t v) (Has vs t r) := by
  have hplain : t.isReference = false := by
    rw [Ty.isReference, ht]
    rfl
  have hplace : (t.withFlags f).isReference = true := by
    rw [Ty.isReference, Ty.flags_withFlags]
    exact hf
  refine .perform ?_
  rintro s ⟨hs, hy⟩
  cases hy with
  | plain noPlace => simp [hplace] at noPlace
  | slot _ content fits within =>
    rw [Frame.load, content]
    exact ⟨hs, .plain hplain (Value.fits_withFlags.1 fits) within⟩
  | memory _ full =>
    refine ⟨⟨hs.slots, hs.seen⟩, .plain hplain (hW.memory ..) (full _ ?_)⟩
    exact Value.fits_withFlags.2 (hW.memory ..)

/-- A number that is read in another scalar of the same numbers stays what it is. -/
theorem ensures_reread {a b : Scalar} {p q : ValueRange} (ha : a.kind ≠ .void)
    (hb : b ∈ X.types.all) (hint : b.isIntegral) (hab : ∀ n, a.Holds n → b.Holds n)
    (hconvert : b.convert p = .ok q) : Ensures X.Ends (Has vs (.ofScalar a) (some p) v)
      (perform (CastOp.noOp.convert W (.ofScalar a) (.ofScalar b) v)) (Has vs (.ofScalar b) (some q)) := by
  have hvoid := ne_void_of_isIntegral hint
  refine .perform ?_
  rintro s ⟨hs, hy⟩
  obtain ⟨n, hn, rfl⟩ := hy.exists_number rfl rfl
  obtain ⟨m, hm, hholds⟩ := (Value.fits_of_asScalar? rfl ha).1 (hy.of_plain rfl).1
  cases hm
  have hmem := (Scalar.convert_ok (BuiltinTypes.sized_of_mem hb hvoid) hint hconvert).2 n hn
  rw [Scalar.wrap_of_holds (hab n hholds)] at hmem
  refine ⟨hs, .plain rfl ?_ (Value.in_some.2 ⟨n, rfl, hmem⟩)⟩
  exact (Value.fits_of_asScalar? rfl hvoid).2 ⟨n, rfl, hab n hholds⟩

/-- A conversion between integers wraps the number into the destination, and its range with it. -/
theorem ensures_between {a b : Scalar} {p q : ValueRange} (ha : a ∈ X.types.integers)
    (hb : b ∈ X.types.integers) (hconvert : b.convert p = .ok q) :
    Ensures X.Ends (Has vs (.ofScalar a) (some p) v)
      (perform ((CastOp.between a b).convert W (.ofScalar a) (.ofScalar b) v))
      (Has vs (.ofScalar b) (some q)) := by
  have hai := BuiltinTypes.isInteger_of_mem ha
  have hbi := BuiltinTypes.isInteger_of_mem hb
  have hsized := BuiltinTypes.sized_of_integer hb
  have hint : ∀ {d : Scalar}, d.isInteger = true → d.isIntegral = true := fun h => by
    rw [Scalar.isIntegral, h, Bool.true_or]
  refine .perform ?_
  rintro s ⟨hs, hy⟩
  obtain ⟨n, hn, rfl⟩ := hy.exists_number rfl rfl
  obtain ⟨m, hm, hholds⟩ :=
    (Value.fits_of_asScalar? rfl (ne_void_of_isIntegral (hint hai))).1 (hy.of_plain rfl).1
  cases hm
  -- the operation wraps the number, as the rule does with its range
  have hact : (CastOp.between a b).act a b n = b.wrap n := by
    rw [← Cast.ofIntegers_op]
    exact Cast.act_ofIntegers (BuiltinTypes.sized_of_integer ha) hai hsized hbi hholds
  have hmem := (Scalar.convert_ok hsized (hint hbi) hconvert).2 n hn
  rw [CastOp.convert_between, hact]
  refine ⟨hs, .plain rfl ?_ (Value.in_some.2 ⟨_, rfl, hmem⟩)⟩
  exact (Value.fits_of_asScalar? rfl (ne_void_of_isIntegral (hint hbi))).2
    ⟨_, rfl, b.holds_wrap n⟩

/-- **A conversion keeps values in range.** -/
theorem ensures_convert (hW : W.Lawful) {op : CastOp} {c : Cast} (hcast : X.types.Converts t op u)
    (hc : X.Conveys c r r') (hsource : c.source = t) (hdestination : c.destination = u) :
    Ensures X.Ends (Has vs t r v) (perform (op.convert W t u v)) (Has vs u r') := by
  -- the range of a number is converted to the scalar that the number is converted to
  have hnumber : ∀ {a b : Scalar}, t = .ofScalar a → u = .ofScalar b →
      ∃ p q, r = some p ∧ r' = some q ∧ b.convert p = .ok q := by
    rintro a b rfl rfl
    obtain ⟨d, p, q, hd, hp, hq, hconvert⟩ := hc.convert_of_plain (by rw [hsource]; rfl)
    rw [hdestination] at hd
    cases hd
    exact ⟨p, q, hp, hq, hconvert⟩
  cases hcast with
  | load hplain href =>
    rename_i f
    have hr : r' = r := by
      refine hc.eq_of_qualified ?_
      rw [hsource, Ty.flags_withFlags]
      rcases href with rfl | rfl <;> simp [Flags.ref, Flags.refMut, Flags.none]
    rw [hr]
    refine ensures_load hW hplain ?_
    rcases href with rfl | rfl <;> rfl
  | unqualify hplain =>
    have hr : r' = r := by
      refine hc.eq_of_qualified ?_
      rw [hsource, Ty.flags_withFlags]
      simp [Flags.mutOnly, Flags.none]
    rw [hr]
    refine .perform ?_
    rintro s ⟨hs, hy⟩
    obtain ⟨hfits, hin⟩ := hy.of_plain (by rw [Ty.isReference, Ty.flags_withFlags]; rfl)
    refine ⟨hs, .plain ?_ (Value.fits_withFlags.1 hfits) hin⟩
    rw [Ty.isReference, hplain]
    rfl
  | integer ha hb =>
    obtain ⟨p, q, rfl, rfl, hconvert⟩ := hnumber rfl rfl
    exact ensures_between ha hb hconvert
  | fromChar =>
    obtain ⟨p, q, rfl, rfl, hconvert⟩ := hnumber rfl rfl
    exact ensures_reread ScalarKind.noConfusion (BuiltinTypes.mem_all_of_integer X.u8_mem_integers)
      rfl (fun _ h => h) hconvert
  | toChar =>
    obtain ⟨p, q, rfl, rfl, hconvert⟩ := hnumber rfl rfl
    exact ensures_reread ScalarKind.noConfusion X.c8_mem_all rfl (fun _ h => h) hconvert

/-- **An operation keeps values in range**, or is undefined. -/
theorem ensures_operate {op : BinaryOperation} {d : Scalar} {a b q : ValueRange} {x y : Int}
    (hop : op.Accepts X.types d) (ha : a.Of d) (hb : b.Of d) (hx : x ∈ a) (hy : y ∈ b)
    (hq : op.range (op.resultScalar X.types d) a b = .ok q) :
    Ensures X.Ends (Progress.Sound vs)
      (perform (op.operate (.ofScalar (op.resultScalar X.types d)) (.number x) (.number y)))
      (Has vs (.ofScalar (op.resultScalar X.types d)) (some q)) := by
  have hsized := BuiltinTypes.sized_of_mem hop.result_mem_all hop.result_ne_void
  obtain ⟨hof, hmem⟩ := BinaryOperation.range_ok hsized (hop.fitsResult ha hb) hq
  refine .perform ?_
  intro s hs
  rw [BinaryOperation.operate_number]
  cases hz : op.apply (op.resultScalar X.types d) x y with
  | none => exact ⟨trivial, hs.seen⟩
  | some z =>
    refine ⟨hs, .number rfl ?_ rfl (hmem x hx y hy z hz)⟩
    exact (Ty.admits_some rfl hop.result_ne_void).2 ⟨q, rfl, hof⟩

/-- The test of a conditional is a truth value. -/
theorem ensures_truth (hv : v.Fits X.types.boolTy) :
    Ensures X.Ends (Progress.Sound vs) (perform v.truth) (fun _ => Progress.Sound vs) := by
  obtain ⟨n, rfl, -⟩ := (Value.fits_of_asScalar? rfl ScalarKind.noConfusion).1 hv
  exact .perform fun s hs => hs

/-- **A test** is a truth value, and leaves the variables sound for either arm. -/
theorem ensures_test {β : Type} {x : Evaluation Value} {f : Bool → Evaluation β}
    {R : β → Progress → Prop} (hx : Ensures X.Ends (Progress.Sound vs) x (Has vs t r))
    (ht : t = X.types.boolTy) (hf : ∀ holds, Ensures X.Ends (Progress.Sound vs) (f holds) R) :
    Ensures X.Ends (Progress.Sound vs) (x >>= fun c => perform c.truth >>= f) R := by
  subst ht
  exact ensures_bind_plain hx rfl fun c hfits _ => (ensures_truth hfits).bind hf

/-- A value of an arm is one of the conditional, whose range is wider. -/
theorem ensures_arm {x : Evaluation Value} (hx : Ensures X.Ends (Progress.Sound vs) x (Has vs t r))
    (hr : ∀ q, r' = some q → ∃ p, r = some p ∧ ∀ n ∈ p, n ∈ q) :
    Ensures X.Ends (Progress.Sound vs) x (Has vs t r') := by
  refine hx.imp (fun s hs => hs) fun v s hs => ⟨hs.1, hs.2.widen fun c hc q hq => ?_⟩
  obtain ⟨p, hp, hsub⟩ := hr q hq
  obtain ⟨n, rfl, hn⟩ := hc p hp
  exact ⟨n, rfl, hsub n hn⟩

/-- Negation keeps truth values in range. -/
theorem ensures_negate {a q : ValueRange} {n : Int} (ha : a.Of X.types.bool) (hn : n ∈ a)
    (hq : a.logicalNot = .ok q) : Ensures X.Ends (Progress.Sound vs) (perform (Value.number n).negate)
      (Has vs X.types.boolTy (some q)) := by
  obtain ⟨hof, hmem⟩ := ValueRange.logicalNot_ok rfl ha hq
  refine .perform ?_
  intro s hs
  refine ⟨hs, .number rfl ?_ rfl (hmem n hn)⟩
  exact (Ty.admits_some rfl ScalarKind.noConfusion).2 ⟨q, rfl, hof⟩

/-- An expression of the type without values yields nothing. -/
theorem yields_nothing {F : Frame} (ht : t = X.types.voidTy) (ha : t.Admits r) :
    F.Yields vs t r .nothing := by
  subst ht
  have hr := (Ty.admits_of_isVoid rfl).1 ha
  subst hr
  exact .plain rfl ((Value.fits_of_isVoid rfl).2 rfl) Value.in_none

/-- A call returns some value of its type. -/
theorem ensures_call (hW : W.Lawful) {f : String} {as : List Value} (ht : X.Plain t)
    (hr : t.fullRange = .ok r) : Ensures X.Ends (Progress.Sound vs)
      (perform fun F => F.call W f as t) (Has vs t r) := by
  refine .perform ?_
  intro s hs
  refine ⟨⟨hs.slots, hs.seen⟩, .plain ?_ (hW.call ..) ((hW.call ..).in_fullRange ht.known hr)⟩
  rw [Ty.isReference, ht.flags]
  rfl

/-- **A definition** puts a value into a new place. -/
theorem ensures_define {w : Variable} (hnew : w.id ∉ vs.map (·.id)) (hfits : v.Fits w.type)
    (hin : v.In w.range) : Ensures X.Ends (Progress.Sound vs)
      (perform fun F => F.store v (.slot w.id)) (fun _ => Progress.Sound (w :: vs)) := by
  refine .perform ?_
  intro s hs
  refine ⟨?_, hs.seen⟩
  show ∀ u ∈ w :: vs, ∃ c, Function.update s.frame.slots w.id (some v) u.id = some c ∧ _
  rw [List.forall_mem_cons]
  constructor
  · exact ⟨v, Function.update_self .., hfits, hin⟩
  · intro u hu
    have hne : u.id ≠ w.id := fun h => hnew (h ▸ List.mem_map_of_mem hu)
    rw [Function.update_of_ne hne]
    exact hs.slots u hu

/-- **An assignment** changes mutable variables only, whose ranges are full. -/
theorem ensures_assign {place : Value} (hvs : ∀ w ∈ vs, X.Declares w) (ht : t.flags = .refMut)
    (hfits : v.Fits t) : Ensures X.Ends (Has vs t r place) (perform fun F => F.store v place)
      (fun _ => Progress.Sound vs) := by
  refine .perform ?_
  rintro s ⟨hs, hy⟩
  cases hy with
  | plain noPlace =>
    rw [Ty.isReference, ht] at noPlace
    cases noPlace
  | @slot x _ _ _ _ _ shared =>
    refine ⟨?_, hs.seen⟩
    intro w hw
    show ∃ c, Function.update s.frame.slots x (some v) w.id = some c ∧ _
    by_cases hx : w.id = x
    · -- the variable has the type of the target, so it is mutable
      have htype := shared w hw hx
      have hdeclares := hvs w hw
      have hmutable : w.type.isMutable = true := by
        rw [htype, Ty.isMutable, ht]
        rfl
      have hfits : v.Fits w.type := by
        rw [htype]
        exact hfits
      rw [hx, Function.update_self]
      refine ⟨v, rfl, hfits, ?_⟩
      exact hfits.in_fullRange (known_withFlags.1 hdeclares.plain.known) (hdeclares.full hmutable)
    · rw [Function.update_of_ne hx]
      exact hs.slots w hw
  | memory => exact ⟨hs.slots, hs.seen⟩

/-! ### Scopes -/

theorem mem_bind {s : TypedStmt} {w : Variable} (h : w ∈ vs) : w ∈ s.bind vs := by
  cases s with
  | define => exact List.mem_cons_of_mem _ h
  | expression | assign | returnValue | returnVoid => exact h

theorem mem_bindAll {ss : List TypedStmt} {w : Variable} (h : w ∈ vs) :
    w ∈ TypedStmt.bindAll vs ss := by
  induction ss generalizing vs with
  | nil => exact h
  | cons s ss ih => exact ih (mem_bind h)

/-- A definition declares a new variable. -/
theorem Scoped.bind (hvs : X.Scoped vs) {s : TypedStmt} (h : TypedExpr.StmtObeys X.rule vs s) :
    X.Scoped (s.bind vs) := by
  cases s with
  | define w e =>
    obtain ⟨⟨-, ⟨hdeclares, -⟩, hnew, -⟩, -⟩ := h
    exact ⟨List.forall_mem_cons.2 ⟨hdeclares, hvs.declares⟩, List.nodup_cons.2 ⟨hnew, hvs.nodup⟩⟩
  | expression | assign | returnValue | returnVoid => exact hvs

theorem Scoped.bindAll (hvs : X.Scoped vs) {ss : List TypedStmt}
    (h : TypedExpr.StmtsObey X.rule vs ss) : X.Scoped (TypedStmt.bindAll vs ss) := by
  induction ss generalizing vs with
  | nil => exact hvs
  | cons s ss ih => exact ih (hvs.bind h.1) h.2

/-- What is known about more variables is known about fewer. -/
theorem sound_of_subset {ws : List Variable} {s : Progress} (h : s.Sound ws)
    (hvs : ∀ w ∈ vs, w ∈ ws) : s.Sound vs :=
  ⟨fun w hw => h.slots w (hvs w hw), h.seen⟩

/-! ### Typed trees -/

open TypedExpr

section
set_option linter.unusedSectionVars false
variable (hW : W.Lawful)
include hW

mutual
/-- **Every expression has a value of its type and range**, and keeps the variables sound. -/
theorem ensures_evaluate : ∀ (e : TypedExpr) {vs : List Variable}, e.Obeys X.rule vs → X.Scoped vs →
    Ensures X.Ends (Progress.Sound vs) (e.evaluate W) (Has vs e.type e.range)
  | .int i n, vs, h, _ => by
    obtain ⟨-, ha, ⟨d, -, hd, -⟩, ⟨q, hq, hn⟩, -⟩ := h
    rw [evaluate]
    refine (ensures_record hW _).weaken fun s hs => ⟨hs, .number ?_ ha hq hn⟩
    rw [show (TypedExpr.int i n).type = .ofScalar d from hd]
    rfl
  | .bool i b, vs, h, _ => by
    obtain ⟨-, ha, ht, hr, -⟩ := h
    rw [evaluate]
    refine (ensures_record hW _).weaken fun s hs => ⟨hs, .number ?_ ha hr ?_⟩
    · rw [show (TypedExpr.bool i b).type = X.types.boolTy from ht]
      rfl
    · cases b <;> decide
  | .null i, vs, h, _ => by
    obtain ⟨-, ha, ⟨t, ht⟩, -, -⟩ := h
    have htype : (TypedExpr.null i).type = .pointerTo t := ht
    have hrange : (TypedExpr.null i).range = none := by
      rw [htype] at ha
      exact (Ty.admits_none rfl).1 ha
    rw [evaluate]
    refine (ensures_record hW _).weaken fun s hs => ⟨hs, ?_⟩
    rw [htype, hrange]
    exact .plain rfl ⟨0, rfl⟩ Value.in_none
  | .variable i v, vs, h, hvs => by
    obtain ⟨-, -, ht, hr, -, hv⟩ := h
    rw [evaluate]
    refine (ensures_record hW _).weaken fun s hs => ⟨hs, ?_⟩
    rw [show (TypedExpr.variable i v).type = v.type from ht,
      show (TypedExpr.variable i v).range = v.range from hr]
    obtain ⟨c, hc, hfits, hin⟩ := hs.slots v hv
    refine .slot (hvs.declares v hv).reference hc hfits hin ?_
    intro w hw hid
    rw [List.inj_on_of_nodup_map hvs.nodup hw hv hid]
  | .cast i op e, vs, h, hvs => by
    obtain ⟨⟨-, -, ht, ⟨c, hc, hsource, -, hdestination⟩, -⟩, he⟩ := h
    rw [evaluate]
    refine (ensures_evaluate e he hvs).bind fun v => ?_
    refine (ensures_convert hW ht hc hsource hdestination).bind fun w => ?_
    exact ensures_record hW (.cast i op e)
  | .call i f as, vs, h, hvs => by
    obtain ⟨⟨-, -, ht, hr, -⟩, has⟩ := h
    rw [evaluate]
    refine (ensures_evaluateAll as has hvs).bind fun values => ?_
    refine (ensures_call hW (X.plain_of_callable _ _ _ ht).2 hr).bind fun v => ?_
    exact ensures_record hW (.call i f as)
  | .binary i op l r, vs, h, hvs => by
    obtain ⟨⟨-, -, ⟨d, hop, hl, hr, hi⟩, ⟨d', a, b, q, hi', ha, hb, hq, hrange⟩, -⟩, hleft, hright⟩ := h
    have hd : d' = op.resultScalar X.types d := (Ty.scalar.inj (hi'.symm.trans hi)).2
    rw [hd] at hq
    rw [evaluate]
    -- the operands are numbers of their ranges
    refine ensures_bind_plain (ensures_evaluate l hleft hvs) (by rw [hl]; rfl) fun x _ hx => ?_
    obtain ⟨m, rfl, hm⟩ := hx a ha
    refine ensures_bind_plain (ensures_evaluate r hright hvs) (by rw [hr]; rfl) fun y _ hy => ?_
    obtain ⟨n, rfl, hn⟩ := hy b hb
    have hresult : Ensures X.Ends (Progress.Sound vs) _ _ := ensures_operate hop
      (range_of_obeys hleft hl hop.ne_void ha) (range_of_obeys hright hr hop.ne_void hb) hm hn hq
    rw [← hi, ← hrange] at hresult
    exact hresult.bind fun v => ensures_record hW (.binary i op l r)
  | .logicalNot i e, vs, h, hvs => by
    obtain ⟨⟨-, -, ⟨hi, ht⟩, ⟨a, q, ha, hq, hrange⟩, -⟩, he⟩ := h
    rw [evaluate]
    refine ensures_bind_plain (ensures_evaluate e he hvs) (by rw [ht]; rfl) fun x _ hx => ?_
    obtain ⟨n, rfl, hn⟩ := hx a ha
    have hresult : Ensures X.Ends (Progress.Sound vs) _ _ :=
      ensures_negate (range_of_obeys he ht ScalarKind.noConfusion ha) hn hq
    rw [← hi, ← hrange] at hresult
    exact hresult.bind fun v => ensures_record hW (.logicalNot i e)
  | .block i ss, vs, h, hvs => by
    obtain ⟨⟨-, ha, ht, -, -⟩, hss⟩ := h
    rw [evaluate]
    refine (ensures_execute ss hss hvs).bind fun _ => ?_
    refine (ensures_record hW (.block i ss)).weaken fun s hs => ?_
    exact ⟨sound_of_subset hs fun w => mem_bindAll, yields_nothing ht ha⟩
  | .valueBlock i ss r, vs, h, hvs => by
    obtain ⟨⟨-, -, ht, hr, -⟩, hss, hresult⟩ := h
    rw [evaluate]
    refine (ensures_execute ss hss hvs).bind fun _ => ?_
    refine (ensures_evaluate r hresult (hvs.bindAll hss)).bind fun v => ?_
    refine (ensures_record hW (.valueBlock i ss r)).weaken fun s hs => ?_
    refine ⟨sound_of_subset hs.1 fun w => mem_bindAll, ?_⟩
    rw [show (TypedExpr.valueBlock i ss r).type = r.type from ht,
      show (TypedExpr.valueBlock i ss r).range = r.range from hr]
    exact hs.2.narrow fun w => mem_bindAll
  | .ifThen i t a p, vs, h, hvs => by
    obtain ⟨⟨-, ha, ⟨ht, hi⟩, -, -⟩, htest, harm⟩ := h
    rw [evaluate]
    refine ensures_test (ensures_evaluate t htest hvs) ht fun holds => ?_
    refine Ensures.bind (Q := fun _ => Progress.Sound vs) ?_ fun v => ?_
    · cases holds with
      | true => exact (ensures_evaluate a harm hvs).imp (fun s hs => hs) fun v s hs => hs.1
      | false => exact .pure fun s hs => hs
    · exact (ensures_record hW _).weaken fun s hs => ⟨hs, yields_nothing hi ha⟩
  | .ifElse i t a b p q, vs, h, hvs => by
    obtain ⟨⟨-, -, ⟨ht, hta, htb⟩, hr, -⟩, htest, hthen, helse⟩ := h
    have hresult := ensures_evaluate a hthen hvs
    have hresult' := ensures_evaluate b helse hvs
    rw [hta] at hresult
    rw [htb] at hresult'
    rw [evaluate]
    refine ensures_test (ensures_evaluate t htest hvs) ht fun holds => ?_
    -- either arm lies in the hull
    refine Ensures.bind (Q := Has vs i.type i.range) ?_
      fun v => ensures_record hW (.ifElse i t a b p q)
    cases holds with
    | true =>
      refine ensures_arm hresult fun r hir => ?_
      obtain ⟨p', q', hp, -, hhull⟩ := hr r hir
      exact ⟨p', hp, (ValueRange.hull_ok hhull).1⟩
    | false =>
      refine ensures_arm hresult' fun r hir => ?_
      obtain ⟨p', q', -, hq, hhull⟩ := hr r hir
      exact ⟨q', hq, (ValueRange.hull_ok hhull).2.1⟩
  | .dereference i p, vs, h, hvs => by
    obtain ⟨⟨hk, -, ⟨t, hp, hi⟩, hr, -⟩, hpointer⟩ := h
    rw [evaluate]
    refine (ensures_evaluate p hpointer hvs).bind fun v => ?_
    refine (ensures_record hW (.dereference i p)).weaken fun s hs => ⟨hs.1, ?_⟩
    obtain ⟨a, rfl⟩ : ∃ a, v = .address a := by
      rw [hp] at hs
      exact (hs.2.of_plain rfl).1
    refine .memory ?_ fun c hc => hc.in_fullRange hk hr
    rw [show (TypedExpr.dereference i p).type = t.addFlags .ref from hi, Ty.isReference, Ty.addFlags,
      Ty.flags_withFlags]
    exact Bool.or_true _

theorem ensures_evaluateAll : ∀ (es : List TypedExpr) {vs : List Variable},
    ObeysAll X.rule vs es → X.Scoped vs →
    Ensures X.Ends (Progress.Sound vs) (evaluateAll W es) (fun _ => Progress.Sound vs)
  | [], vs, _, _ => by
    rw [evaluateAll]
    exact .pure fun s hs => hs
  | e :: es, vs, h, hvs => by
    rw [evaluateAll]
    refine (ensures_evaluate e h.1 hvs).bind fun v => ?_
    refine ((ensures_evaluateAll es h.2 hvs).weaken fun s hs => hs.1).bind fun vs => ?_
    exact .pure fun s hs => hs

/-- **A statement keeps the variables sound**, and makes the one that it defines so. -/
theorem ensures_executeOne : ∀ (s : TypedStmt) {vs : List Variable}, StmtObeys X.rule vs s →
    X.Scoped vs → Ensures X.Ends (Progress.Sound vs) (executeOne W s)
      (fun _ => Progress.Sound (s.bind vs))
  | .expression e, vs, h, hvs => by
    rw [executeOne]
    refine (ensures_evaluate e h.2 hvs).bind fun _ => ?_
    exact .pure fun s hs => hs.1
  | .define v e, vs, h, hvs => by
    obtain ⟨⟨ht, ⟨hdeclares, hrange⟩, hnew, -⟩, he⟩ := h
    have ht : v.type.unqualified = e.type := ht
    rw [executeOne]
    refine ensures_bind_plain (ensures_evaluate e he hvs) ?_ fun a hfits hin => ?_
    · rw [← ht, Ty.isReference, Ty.unqualified, Ty.flags_withFlags]
      rfl
    rw [← ht, Value.fits_unqualified] at hfits
    refine ensures_define hnew hfits ?_
    -- a mutable variable has the full range of its type, any other that of the value
    by_cases hmutable : v.type.isMutable = true
    · exact hfits.in_fullRange (known_withFlags.1 hdeclares.plain.known) (hdeclares.full hmutable)
    · rw [hrange (by simpa using hmutable)]
      exact hin
  | .assign t e, vs, h, hvs => by
    obtain ⟨⟨⟨htarget, ht⟩, -, -⟩, hplace, he⟩ := h
    rw [executeOne]
    refine ensures_bind_plain (ensures_evaluate e he hvs) ?_ fun a hfits _ => ?_
    · rw [ht, Ty.isReference, Ty.unqualified, Ty.flags_withFlags]
      rfl
    rw [ht, Value.fits_unqualified] at hfits
    refine (ensures_evaluate t hplace hvs).bind fun place => ?_
    exact ensures_assign hvs.declares htarget hfits
  | .returnValue e, vs, h, hvs => by
    obtain ⟨⟨ht, -, -⟩, he⟩ := h
    have ht : e.type = X.returnType := ht
    have hplain : e.type.isReference = false := by
      rw [ht, Ty.isReference, X.returnType_plain.2]
      rfl
    rw [executeOne]
    refine (ensures_evaluate e he hvs).bind fun v => .stop fun s hs => ⟨?_, hs.1.seen⟩
    split
    · rename_i hvoid
      rw [ht] at hvoid
      exact hvoid
    · rw [← ht]
      exact (hs.2.of_plain hplain).1
  | .returnVoid, vs, h, hvs => by
    rw [executeOne]
    exact .stop fun s hs => ⟨h.1, hs.seen⟩

theorem ensures_execute : ∀ (ss : List TypedStmt) {vs : List Variable}, StmtsObey X.rule vs ss →
    X.Scoped vs → Ensures X.Ends (Progress.Sound vs) (execute W ss)
      (fun _ => Progress.Sound (TypedStmt.bindAll vs ss))
  | [], vs, _, _ => by
    rw [execute]
    exact .pure fun s hs => hs
  | s :: ss, vs, h, hvs => by
    rw [execute]
    refine (ensures_executeOne s h.1 hvs).bind fun _ => ?_
    exact ensures_execute ss h.2 (hvs.bind h.1)
end

end

/-! ### Functions -/

/-- At the start the variables of the parameters hold the arguments. -/
theorem sound_start {ps : List Parameter} {ws : List Variable} {arguments : List Value}
    (hps : ∀ p ∈ ps, X.Plain p.type) (hws : List.Forall₂ Parameter.Holds ps ws)
    (hnodup : (ps.map (·.id)).Nodup)
    (harguments : List.Forall₂ (fun p a => Value.Fits a p.type) ps arguments) :
    Progress.Sound ws ⟨.start (ps.map (·.id)) arguments, []⟩ := by
  refine ⟨?_, fun x hx => absurd hx List.not_mem_nil⟩
  show ∀ w ∈ ws, ∃ c, ((ps.map (·.id)).zip arguments).lookup w.id = some c ∧ _
  induction hws generalizing arguments with
  | nil => exact fun w hw => absurd hw List.not_mem_nil
  | @cons p w ps ws hold rest ih =>
    cases harguments with
    | @cons _ a _ as hfits hrest =>
      rw [List.map_cons, List.nodup_cons] at hnodup
      rw [List.map_cons, List.zip_cons_cons, List.forall_mem_cons]
      constructor
      · have hin := hfits.in_fullRange (hps p (List.mem_cons_self ..)).known hold.range
        rw [hold.id, hold.type, List.lookup_cons_self]
        exact ⟨a, rfl, Value.fits_withFlags.2 hfits, hin⟩
      · intro u hu
        -- identities of parameters differ, so that no argument hides another
        have hne : u.id ≠ p.id := by
          intro hid
          apply hnodup.1
          rw [← hid, Parameter.map_id_of_holds rest]
          exact List.mem_map_of_mem hu
        rw [List.lookup_cons, beq_false_of_ne hne]
        exact ih (fun q hq => hps q (List.mem_cons_of_mem _ hq)) hnodup.2 hrest u hu

/-- **The evaluation of a function that is defined well** ends as it may, and all that is seen on the
way is in range. -/
theorem Defines.ends {f : TypedFunction} {arguments : List Value} (h : X.Defines f vs)
    (hW : W.Lawful)
    (harguments : List.Forall₂ (fun p a => Value.Fits a p.type) f.parameters arguments) :
    X.Ends (f.evaluate W arguments).1 (f.evaluate W arguments).2 := by
  have hids := Parameter.map_id_of_holds h.parameters
  have hstart : Progress.Sound vs ⟨.start (f.parameters.map (·.id)) arguments, []⟩ := by
    refine sound_of_subset (sound_start h.plain h.parameters ?_ harguments)
      fun w hw => List.mem_reverse.2 hw
    rw [hids, List.map_reverse]
    exact List.nodup_reverse.2 h.nodup
  have hbody := ensures_evaluate hW f.body h.obeys ⟨h.declares, h.nodup⟩ _ hstart
  unfold TypedFunction.evaluate
  cases hrun : f.body.evaluate W ⟨.start (f.parameters.map (·.id)) arguments, []⟩ with
  | error e s =>
    rw [hrun] at hbody
    exact hbody
  | ok v s =>
    rw [hrun] at hbody
    refine ⟨?_, hbody.1.seen⟩
    rw [← h.returns]
    by_cases hvoid : f.returnType.isVoid = true
    · simp [hvoid, Ending.Proper]
    · -- a body that ends in a return statement does not get here
      have hreturn : f.body.endsWithReturn ≠ true := fun hreturn =>
        TypedExpr.evaluate_ne_ok_of_endsWithReturn hreturn v hrun
      have htype := ((h.result (by simpa using hvoid)).resolve_left hreturn).1
      have hplain : f.body.type.isReference = false := by
        rw [htype, h.returns, Ty.isReference, X.returnType_plain.2]
        rfl
      have hfits := (hbody.2.of_plain hplain).1
      rw [htype] at hfits
      simpa [hvoid, Ending.Proper] using hfits

end Setting

/-! ### Modules -/

theorem Value.fits_ofType (t : Ty) : (Value.ofType t).Fits t := by
  cases t with
  | scalar f s =>
    by_cases hv : s.kind = .void
    · simp [Fits, ofType, hv]
    · simpa [Fits, ofType, hv] using s.holds_wrap 0
  | pointer | array | struct | function => exact ⟨0, rfl⟩

theorem World.lawful_constant : World.constant.Lawful :=
  ⟨fun _ _ _ t => Value.fits_ofType t, fun _ _ t => Value.fits_ofType t⟩

namespace Session

variable {cookie : Registration → Nat} {s s' : Session} {options : Options} {m : Source.Module}
  {typed : TypedModule}

/-- **Ranges are sound.**  Whatever calls and memory answer within their types, and whatever arguments a
function of an analysed module is given, every expression that is evaluated and carries a range has a
value in it; for a place that is what it holds at that moment.  The evaluation does not get stuck, and
returns a value of the result type if it returns one. -/
theorem content_mem_range (hs : Reached cookie s) (h : s.analyze options m = .ok (.ok typed, s'))
    {f : TypedFunction} (hf : f ∈ typed.functions) {W : World} (hW : W.Lawful)
    {arguments : List Value}
    (harguments : List.Forall₂ (fun p a => Value.Fits a p.type) f.parameters arguments) :
    (∀ x ∈ (f.evaluate W arguments).2.sightings, ∀ r, x.expr.range = some r →
      ∃ n, x.content = some (.number n) ∧ n ∈ r) ∧
      (f.evaluate W arguments).1.Proper f.returnType := by
  obtain ⟨X, hX⟩ := hs.analysed h
  obtain ⟨hr, vs, hdefines⟩ := hX.defines f hf
  obtain ⟨hending, hseen⟩ := hdefines.ends hW harguments
  refine ⟨?_, hending⟩
  intro x hx r hrange
  obtain ⟨c, hc, hin⟩ := hseen x hx
  obtain ⟨n, rfl, hn⟩ := hin r hrange
  exact ⟨n, hc, hn⟩

/-- The ranges of a module with a conditional, an assignment and a call are sound. -/
theorem content_mem_range_climb : ∃ typed s' f arguments,
    (start fun _ => 0).analyze .default climb = .ok (.ok typed, s') ∧ f ∈ typed.functions ∧
    World.constant.Lawful ∧
    List.Forall₂ (fun p a => Value.Fits a p.type) f.parameters arguments ∧
    (∀ x ∈ (f.evaluate .constant arguments).2.sightings, ∀ r, x.expr.range = some r →
      ∃ n, x.content = some (.number n) ∧ n ∈ r) ∧
      (f.evaluate .constant arguments).1.Proper f.returnType := by
  obtain ⟨typed, s', h, hne⟩ := climb_analysed
  obtain ⟨f, hf⟩ := List.exists_mem_of_ne_nil _ hne
  have harguments : List.Forall₂ (fun p a => Value.Fits a p.type) f.parameters
      (f.parameters.map fun p => Value.ofType p.type) := by
    rw [List.forall₂_map_right_iff, List.forall₂_same]
    exact fun p _ => Value.fits_ofType p.type
  exact ⟨typed, s', f, _, h, hf, World.lawful_constant, harguments,
    content_mem_range .start h hf World.lawful_constant harguments⟩

end Session

end RangeTyping
