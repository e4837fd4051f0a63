import Mathlib
import RangeTyping.Proofs.Analysis.Surroundings

/-!
# Literals and conversions make good expressions

An expression is well made (`Setting.Made`) if it obeys the rule of its setting and its value can be
read.  Typing a literal and converting an expression make new expressions out of an operand: these
are well made, have the type that was asked for, and send the operand's events and then new ones
(`Setting.Extends`).  The main statements are `Env.Proper.convert`, `Env.Proper.coerce`,
`Env.Proper.settle` and `Env.Proper.plain`.
-/

namespace RangeTyping

/-! ### Well-made expressions -/

/-- The expression obeys the rule of the setting, and its value can be read. -/
structure Setting.Made (X : Setting) (vs : List Variable) (e : TypedExpr) : Prop where
  obeys : e.Obeys X.rule vs
  live : e.Live

namespace Setting

variable {X : Setting} {vs : List Variable} {e : TypedExpr} {s s' s'' : Fresh}

theorem Made.known (h : X.Made vs e) : X.Known e.type := h.obeys.root.1

theorem Made.admits (h : X.Made vs e) : e.type.Admits e.range := h.obeys.root.2.1

/-- A well-made expression that sends the events `es` and then new ones, drawn from `s` to `s'`. -/
structure Extends (X : Setting) (vs : List Variable) (s s' : Fresh) (es : List Event)
    (e : TypedExpr) : Prop where
  made : X.Made vs e
  grown : ∃ extra, e.events = es ++ extra ∧ s.Drew s' extra

theorem Extends.refl (h : X.Made vs e) (s : Fresh) : X.Extends vs s s e.events e :=
  ⟨h, [], (List.append_nil _).symm, .nil (.refl s)⟩

theorem Extends.trans {es : List Event} {e' : TypedExpr} (h : X.Extends vs s s' es e)
    (h' : X.Extends vs s' s'' e.events e') : X.Extends vs s s'' es e' := by
  obtain ⟨a, ha, hda⟩ := h.grown
  obtain ⟨b, hb, hdb⟩ := h'.grown
  exact ⟨h'.made, a ++ b, by rw [hb, ha, List.append_assoc], hda.append hdb⟩

theorem Extends.grew {es : List Event} (h : X.Extends vs s s' es e) : s.Grew s' := by
  obtain ⟨_, _, hd⟩ := h.grown
  exact hd.grew

/-- All events were drawn, if those of the operand were. -/
theorem Extends.drew {es : List Event} (h : X.Extends vs s' s'' es e) (hes : s.Drew s' es) :
    s.Drew s'' e.events := by
  obtain ⟨extra, heq, hd⟩ := h.grown
  rw [heq]
  exact hes.append hd

/-- Conversions start at values that can be read. -/
theorem Edge.live_source {c : Cast} (h : X.Edge c) :
    c.source.isVoid = false ∨ c.source.flags ≠ .none := by
  rcases h with h | ⟨t, ht, h⟩
  · obtain ⟨a, -, b, -, hs, -, hint, -⟩ := isIntegral_of_mem_casts h
    rw [hs]
    have hvoid := ne_void_of_isIntegral hint
    exact .inl (by simpa [Ty.isVoid, Ty.ofScalar, Ty.asScalar?] using hvoid)
  · exact .inr (flags_of_mem_decays ht h)

end Setting

/-- The events of an operand; open literals have none yet. -/
def Operand.events : Operand → List Event
  | .typed e => e.events
  | .number _ | .null => []

/-- An operand that is typed is well made. -/
def Operand.Made (X : Setting) (vs : List Variable) : Operand → Prop
  | .typed e => X.Made vs e
  | .number _ | .null => True

/-- A drawn identity is not that of unread values. -/
theorem Fresh.ne_unread {s s' : Fresh} {v : ValueId} (hs : 0 < s.nextValue)
    (h : Analysis.freshValue s = .ok (v, s')) : v ≠ .unread := by
  obtain ⟨rfl, -⟩ := Analysis.freshValue_ok h
  intro hunread
  have := ValueId.mk.inj hunread
  omega

/-- What is drawn for every type with values is not that of unread values. -/
theorem Fresh.ne_unread_of_drawUnless {s s' : Fresh} {v : ValueId} {t : Ty} (hs : 0 < s.nextValue)
    (h : t.isVoid = true ∧ v = .unread ∧ s' = s ∨
      ¬ t.isVoid = true ∧ Analysis.freshValue s = .ok (v, s'))
    (ht : t.isVoid = false) : v ≠ .unread := by
  rcases h with ⟨hvoid, -, -⟩ | ⟨-, hv⟩
  · rw [ht] at hvoid
    cases hvoid
  · exact Fresh.ne_unread hs hv

/-! ### Literals -/

theorem Scalar.holds_of_hasValue {s : Scalar} (hs : s.Sized) {v : Int}
    (h : s.hasValue v = .ok true) : s.Holds v := by
  obtain ⟨full, hfull, h⟩ := Outcome.bind_ok h
  rcases fullRange_ok hs hfull with ⟨-, rfl⟩ | ⟨-, r, rfl, -, hl, hg⟩
  · cases h
  · have hmem : v ∈ r := by simpa [ValueRange.containsValue] using Except.ok.inj h
    have := ValueRange.mem_iff.1 hmem
    exact ⟨by omega, by omega⟩

namespace Env

variable {X : Setting} {vs : List Variable} {s s' : Fresh} {env : Env} {budget budget' : Budget}
  {location : Location} {e e' : TypedExpr}

theorem firstFitting?_ok {value : Nat} {scalars : List Scalar} {a : Scalar}
    (h : firstFitting? value scalars = .ok (some a)) :
    a ∈ scalars ∧ a.hasValue value = .ok true := by
  induction scalars with
  | nil => cases h
  | cons b rest ih =>
    obtain ⟨fits, hfits, h⟩ := Outcome.bind_ok h
    cases fits with
    | true =>
      cases h
      exact ⟨List.mem_cons_self .., hfits⟩
    | false =>
      obtain ⟨hmem, ha⟩ := ih h
      exact ⟨List.mem_cons_of_mem _ hmem, ha⟩

/-- **A literal of an integer that has its value** is well made. -/
theorem extends_intLiteral {value : Nat} {a : Scalar} (hpos : 0 < s.nextValue)
    (ha : a ∈ X.types.integers) (hv : a.hasValue value = .ok true)
    (h : intLiteral value (.ofScalar a) a s = .ok (e, s')) :
    X.Extends vs s s' [] e ∧ e.type = .ofScalar a := by
  have hsized := BuiltinTypes.sized_of_integer ha
  have hint := BuiltinTypes.isInteger_of_mem ha
  have hkind : a.kind ≠ .void := by
    intro hk
    simp [Scalar.isInteger, hk] at hint
  obtain ⟨id, t, hid, h⟩ := Analysis.bind_ok h
  obtain ⟨r, t', hlift, h⟩ := Analysis.bind_ok h
  obtain ⟨hr, rfl⟩ := Analysis.liftInternal_ok hlift
  obtain ⟨rfl, rfl⟩ := Analysis.pure_ok h
  obtain ⟨hof, hlo, hhi⟩ := Scalar.of_rangeOf hsized le_rfl hr
  refine ⟨⟨⟨⟨?_, ?_, ?_, ?_, trivial⟩, .of_flags rfl fun _ => Fresh.ne_unread hpos hid⟩, ?_⟩, rfl⟩
  · exact (Setting.plain_ofScalar (BuiltinTypes.mem_all_of_integer ha)).known
  · exact (Ty.admits_some rfl hkind).2 ⟨r, rfl, hof⟩
  · exact ⟨a, ha, rfl, Scalar.holds_of_hasValue hsized hv⟩
  · exact ⟨r, rfl, ValueRange.mem_iff.2 ⟨hlo.le, hhi.ge⟩⟩
  · exact ⟨[.literalInt id value (.ofScalar a)], rfl, .value hid rfl rfl⟩

theorem Proper.naturalNumber {value : Nat} (hp : env.Proper X vs s)
    (h : env.naturalNumber budget value location s = .ok ((e, budget'), s')) :
    X.Extends vs s s' [] e := by
  obtain ⟨fitting, t, hlift, h⟩ := Analysis.bind_ok h
  obtain ⟨hfit, rfl⟩ := Analysis.liftInternal_ok hlift
  cases fitting with
  | none => exact (Analysis.fail_ok h).elim
  | some a =>
    rw [hp.types] at hfit
    obtain ⟨ha, hv⟩ := firstFitting?_ok hfit
    obtain ⟨b, t, hcharge, h⟩ := Analysis.bind_ok h
    obtain ⟨-, -, rfl⟩ := Budget.charge_ok hcharge
    obtain ⟨l, t, hl, h⟩ := Analysis.bind_ok h
    cases h
    exact (extends_intLiteral hp.positive ha hv hl).1

/-- **An operand as its own type.** -/
theorem Proper.natural {o : Operand} (hp : env.Proper X vs s) (ho : o.Made X vs)
    (h : env.natural budget location o s = .ok ((e, budget'), s')) :
    X.Extends vs s s' o.events e := by
  cases o with
  | typed e₀ =>
    obtain ⟨heq, rfl⟩ := Analysis.pure_ok h
    cases heq
    exact .refl ho s
  | number value => exact hp.naturalNumber h
  | null => cases h

/-! ### Conversion -/

/-- **One conversion as a node.** -/
theorem extends_castNode {step : ChainStep} (hpos : 0 < s.nextValue) (he : X.Made vs e)
    (hsource : step.cast.source = e.type) (hrange : X.Conveys step.cast e.range step.range)
    (h : castNode e step s = .ok (e', s')) :
    X.Extends vs s s' e.events e' ∧ e'.type = step.cast.destination ∧ e'.range = step.range := by
  have hedge := hrange.edge
  -- a conversion starts at a type with values or with qualifiers, so its operand is read
  have hread : e.id ≠ .unread := he.live.read (hsource ▸ hedge.live_source)
  obtain ⟨id, t, hid, h⟩ := Analysis.drawUnless_ok h
  obtain ⟨rfl, rfl⟩ := Analysis.pure_ok h
  refine ⟨⟨⟨⟨⟨hedge.plain_destination.known, hrange.admits (hsource ▸ he.admits), ?_, ?_, ?_⟩,
    he.obeys⟩, ?_⟩, ?_⟩, rfl, rfl⟩
  · show X.types.Converts e.type step.cast.op step.cast.destination
    rw [← hsource]
    exact hedge.converts
  · exact ⟨step.cast, hrange, hsource, rfl, rfl⟩
  · -- without an operation the identity is that of the operand
    rcases hid with ⟨hop, rfl, -⟩ | ⟨hop, -⟩
    · rw [hop]
      rfl
    · cases hc : step.cast.op with
      | noOp => exact absurd hc hop
      | dereference | truncate | changeSign | expandSigned | expandUnsigned => exact hread
  · refine .of_flags hedge.plain_destination.flags fun _ => ?_
    rcases hid with ⟨-, rfl, -⟩ | ⟨-, hid⟩
    · exact hread
    · exact Fresh.ne_unread hpos hid
  · refine ⟨TypedExpr.castEvents step.cast.op id step.cast.destination e.holder e.type, rfl, ?_⟩
    rcases hid with ⟨hop, -, rfl⟩ | ⟨hop, hid⟩
    · rw [hop]
      exact .nil (.refl _)
    · cases hc : step.cast.op with
      | noOp => exact absurd hc hop
      | dereference | truncate | changeSign | expandSigned | expandUnsigned =>
        exact .value hid rfl rfl

/-- The steps of a path as nodes, one inside the other. -/
theorem extends_castNodes {steps : List ChainStep} {destination : Ty} (hpos : 0 < s.nextValue)
    (he : X.Made vs e) (hpath : X.Path e.type e.range steps destination)
    (h : steps.foldlM castNode e s = .ok (e', s')) :
    X.Extends vs s s' e.events e' ∧ e'.type = destination := by
  induction steps generalizing e s with
  | nil =>
    obtain ⟨rfl, rfl⟩ := Analysis.pure_ok h
    exact ⟨.refl he s, hpath⟩
  | cons step rest ih =>
    rw [List.foldlM_cons] at h
    obtain ⟨e₁, t, h₁, h⟩ := Analysis.bind_ok h
    obtain ⟨hsource, hrange, hpath⟩ := hpath
    obtain ⟨hext, htype, hr⟩ := extends_castNode hpos he hsource hrange h₁
    rw [← htype, ← hr] at hpath
    obtain ⟨hrest, hdest⟩ := ih (lt_of_lt_of_le hpos hext.grew.values) hext.made hpath h
    exact ⟨hext.trans hrest, hdest⟩

namespace Proper

variable {destination : Ty} {implicit : Bool}

/-- **A converted expression** is well made and has the type that was asked for. -/
theorem convert (hp : env.Proper X vs s) (he : X.Made vs e) (hd : X.Plain destination)
    (h : env.convert budget destination implicit location e s = .ok ((e', budget'), s')) :
    X.Extends vs s s' e.events e' ∧ e'.type = destination := by
  obtain ⟨chain, t, hlift, h⟩ := Analysis.bind_ok h
  obtain ⟨hchain, rfl⟩ := Analysis.lift_ok hlift
  obtain ⟨b, t, hcharge, h⟩ := Analysis.bind_ok h
  obtain ⟨-, -, rfl⟩ := Budget.charge_ok hcharge
  obtain ⟨e₁, t, hsteps, h⟩ := Analysis.bind_ok h
  cases h
  have hresolve := Outcome.mapError_ok hchain
  rw [hp.structs] at hresolve
  have hpath := Setting.path_of_resolve hp.carries he.known hd.known he.admits hresolve
  exact extends_castNodes hp.positive he hpath hsteps

end Proper

/-- A number that takes the type that is asked for is one of an integer that has its value. -/
theorem literalScalar?_ok {destination : Ty} {value : Nat} {a : Scalar} (hd : X.Plain destination)
    (h : literalScalar? value destination = .ok (some a)) :
    destination = .ofScalar a ∧ a ∈ X.types.integers ∧ a.hasValue value = .ok true := by
  unfold literalScalar? at h
  split at h
  · rename_i b hb
    obtain ⟨fits, hfits, h⟩ := Outcome.bind_ok h
    split at h
    · rename_i hcond
      cases h
      obtain ⟨hint, rfl⟩ := Bool.and_eq_true_iff.1 hcond
      exact ⟨hd.eq_ofScalar hb, BuiltinTypes.mem_integers_of_all (hd.known.mem_all hb) hint, hfits⟩
    · cases h
  · cases h

/-- **The null pointer** is a value of all pointer types. -/
theorem extends_null {destination : Ty} {id : ValueId} (hpos : 0 < s.nextValue)
    (hd : X.Plain destination) (hpointer : destination.isPointer = true)
    (hid : Analysis.freshValue s = .ok (id, s')) :
    X.Extends vs s s' [] (.null ⟨id, destination, none⟩) := by
  refine ⟨⟨⟨hd.known, ?_, ?_, trivial, trivial⟩,
    .of_flags hd.flags fun _ => Fresh.ne_unread hpos hid⟩,
    [.literalNull id destination], rfl, .value hid rfl rfl⟩
  · refine (Ty.admits_none ?_).2 rfl
    cases destination <;> first | rfl | cases hpointer
  · obtain ⟨hknown, hflags⟩ := hd
    cases destination <;> cases hpointer
    rename_i f t
    exact ⟨t, congrArg (Ty.pointer · t) hflags⟩

namespace Proper

variable {destination : Ty} {implicit : Bool}

/-- **An operand as a value of the type that is asked for.** -/
theorem coerce {o : Operand} (hp : env.Proper X vs s) (ho : o.Made X vs) (hd : X.Plain destination)
    (h : env.coerce budget destination implicit location o s = .ok ((e, budget'), s')) :
    X.Extends vs s s' o.events e ∧ e.type = destination := by
  cases o with
  | typed e₀ => exact hp.convert ho hd h
  | number value =>
    obtain ⟨literal, t, hlift, h⟩ := Analysis.bind_ok h
    obtain ⟨hl, rfl⟩ := Analysis.liftInternal_ok hlift
    cases literal with
    | some a =>
      -- the literal takes the type directly
      obtain ⟨rfl, ha, hv⟩ := literalScalar?_ok hd hl
      obtain ⟨b, t, hcharge, h⟩ := Analysis.bind_ok h
      obtain ⟨-, -, rfl⟩ := Budget.charge_ok hcharge
      obtain ⟨e₁, t, he₁, h⟩ := Analysis.bind_ok h
      cases h
      exact extends_intLiteral hp.positive ha hv he₁
    | none =>
      obtain ⟨⟨e₁, b⟩, t, he₁, h⟩ := Analysis.bind_ok h
      have hnatural := hp.naturalNumber he₁
      obtain ⟨hext, htype⟩ := (hp.mono hnatural.grew).convert hnatural.made hd h
      exact ⟨hnatural.trans hext, htype⟩
  | null =>
    rw [Env.coerce] at h
    by_cases hpointer : destination.isPointer = true
    · rw [if_pos hpointer] at h
      obtain ⟨id, t, hid, h⟩ := Analysis.bind_ok h
      cases h
      exact ⟨extends_null hp.positive hd hpointer hid, rfl⟩
    · rw [if_neg hpointer] at h
      exact (Analysis.fail_ok h).elim

/-- **An operand as the type that is expected**, or as its own where none is. -/
theorem settle {o : Operand} {expected : Option Ty} (hp : env.Proper X vs s) (ho : o.Made X vs)
    (hd : ∀ t, expected = some t → X.Plain t)
    (h : env.settle budget expected location o s = .ok ((e, budget'), s')) :
    X.Extends vs s s' o.events e ∧ ∀ t, expected = some t → e.type = t := by
  cases expected with
  | some t =>
    obtain ⟨hext, htype⟩ := hp.coerce ho (hd t rfl) h
    refine ⟨hext, fun u hu => ?_⟩
    cases hu
    exact htype
  | none => exact ⟨hp.natural ho h, nofun⟩

/-- **An operand as a plain value.** -/
theorem plain {o : Operand} (hp : env.Proper X vs s) (ho : o.Made X vs)
    (h : env.plain budget location o s = .ok ((e, budget'), s')) :
    X.Extends vs s s' o.events e ∧ X.Plain e.type := by
  obtain ⟨⟨e₁, b⟩, t, he₁, h⟩ := Analysis.bind_ok h
  have hnatural := hp.natural ho he₁
  have hplain := Setting.plain_unqualified hnatural.made.known
  obtain ⟨hext, htype⟩ := (hp.mono hnatural.grew).convert hnatural.made hplain h
  rw [htype]
  exact ⟨hnatural.trans hext, hplain⟩

end Proper

end Env

end RangeTyping
