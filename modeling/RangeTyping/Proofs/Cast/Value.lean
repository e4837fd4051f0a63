import Mathlib
import RangeTyping.Proofs.Cast.Chain
import RangeTyping.Proofs.Cast.Context

/-!
# Implicit conversions keep the value

An implicit conversion is chosen by the analysis and not by the program, so it must not show.  Three
tables have to agree for that: which conversions may be used unasked, which operation the backend
performs for them, and what they make of a range.

A conversion that is always allowed leads to a scalar with all values of the first
(`Scalar.holds_of_widensTo`), and any other is only used for a range that fits.  Either way the bits
of the result stand for the same number (`Cast.carry_ofIntegers`) and the range keeps its bounds.
So does a whole chain of implicit conversions (`CastQuery.carry_of_resolve`).
-/

namespace RangeTyping

/-! ### Numbers along a chain -/

/-- **What the backend makes of a number** by one conversion: reading a place and dropping a
qualifier leave it as it is, the other operations act on its bits. -/
def Cast.carry (c : Cast) (v : Int) : Int :=
  match c.op with
  | .noOp | .dereference => v
  | op =>
    match c.source.asScalar?, c.destination.asScalar? with
    | some a, some b => op.act a b v
    | _, _ => v

/-- What the backend makes of a number by several conversions, one after the other. -/
def ChainStep.carryAll (steps : List ChainStep) (v : Int) : Int :=
  steps.foldl (fun v s => s.cast.carry v) v

/-- What the backend makes of a number by a chain of conversions. -/
def Chain.carry (c : Chain) (v : Int) : Int := ChainStep.carryAll c.steps v

/-- All values of the range are numbers of the type. -/
def Ty.Spans (t : Ty) (r : ValueRange) : Prop :=
  ∃ s, t.asScalar? = some s ∧ ∀ v ∈ r, s.Holds v

/-! ### Scalars -/

namespace Scalar

variable {a b : Scalar} {r : ValueRange}

/-- The bounds of a scalar are given by its size and its kind. -/
theorem bounds_congr (hsize : a.size = b.size) (hkind : a.kind = b.kind) :
    a.least = b.least ∧ a.greatest = b.greatest := by
  have hbits : a.bits = b.bits := by rw [bits, bits, hsize]
  have hrange : a.rangeBits = b.rangeBits := by rw [rangeBits, rangeBits, hbits]
  have hmagnitude : a.magnitudeBits = b.magnitudeBits := by
    rw [magnitudeBits, magnitudeBits, hrange]
  constructor
  · rw [least, least, hkind, hmagnitude]
  · rw [greatest, greatest, hkind, hmagnitude, hrange]

/-- **A wider integer has all numbers of a narrower one**, unless it lacks the sign. -/
theorem holds_of_widensTo (ha : a.Sized) (hai : a.isInteger) (hb : b.Sized) (hbi : b.isInteger)
    (h : a.widensTo b = true) {v : Int} (hv : a.Holds v) : b.Holds v := by
  simp only [widensTo, Bool.and_eq_true, decide_eq_true_eq, Bool.or_eq_true, beq_iff_eq,
    Bool.not_eq_true'] at h
  obtain ⟨hlt, hsign⟩ := h
  have hmagnitudes := ha.magnitudeBits_eq
  have hmagnitudes' := hb.magnitudeBits_eq
  have hbits := ha.rangeBits_eq
  have hpos := ha.1
  have hunsigned : ∀ {c : Scalar}, c.isInteger → c.kind ≠ .signedInt → c.kind = .unsignedInt :=
    fun hc hk => by simpa [isInteger, hk] using hc
  have hpow : ∀ {m n : Nat}, m ≤ n → (2 ^ m : Int) ≤ 2 ^ n := fun hmn =>
    pow_le_pow_right₀ (by norm_num) hmn
  obtain ⟨hleast, hgreatest⟩ := hv
  by_cases hka : a.kind = .signedInt
  · -- both are signed, and the narrower one has fewer magnitudes
    have hkb : b.kind = .signedInt := by
      rcases hsign with hsign | hsign
      · exact isSigned_iff.1 (hsign ▸ isSigned_iff.2 hka)
      · rw [isSigned_iff.2 hka] at hsign
        cases hsign
    have hmono := hpow (show a.magnitudeBits ≤ b.magnitudeBits by omega)
    rw [least_of_signed hka] at hleast
    rw [greatest_of_signed hka] at hgreatest
    rw [Holds, least_of_signed hkb, greatest_of_signed hkb]
    constructor <;> linarith
  · rw [least_of_unsigned hka] at hleast
    rw [greatest_of_unsigned (.inl (hunsigned hai hka))] at hgreatest
    by_cases hkb : b.kind = .signedInt
    · -- there is a bit left for the sign
      have hmono := hpow (show a.rangeBits ≤ b.magnitudeBits by omega)
      rw [Holds, least_of_signed hkb, greatest_of_signed hkb]
      have hzero : (0 : Int) ≤ 2 ^ b.magnitudeBits := by positivity
      constructor <;> linarith
    · -- both are unsigned
      have hbits' := hb.rangeBits_eq
      have hmono := hpow (show a.rangeBits ≤ b.rangeBits by omega)
      rw [Holds, least_of_unsigned hkb, greatest_of_unsigned (.inl (hunsigned hbi hkb))]
      constructor <;> linarith

/-- **A range that fits keeps its bounds** when it is converted. -/
theorem bounds_of_convert (hb : b.Sized) (hi : b.isInteger) (hr : ∀ v ∈ r, b.Holds v)
    {q : ValueRange} (h : b.convert r = .ok q) : q.lo = r.lo ∧ q.hi = r.hi := by
  have hbool : b.kind ≠ .bool := fun hk => by simp [isInteger, hk] at hi
  have hvoid : b.kind ≠ .void := fun hk => by simp [isInteger, hk] at hi
  unfold convert at h
  rw [if_neg hbool] at h
  obtain ⟨f, hf, h⟩ := Outcome.bind_ok h
  have hfits := (fits_ok hb hf hvoid).2 ⟨(hr _ r.lo_mem).1, (hr _ r.hi_mem).2⟩
  rw [if_pos hfits] at h
  obtain ⟨-, hlo, hhi, -, -⟩ := rangeOf_ok hb r.lo_le_hi h
  exact ⟨hlo, hhi⟩

end Scalar

namespace Ty

variable {t u : Ty} {r q : ValueRange}

theorem Spans.congr (h : t.Spans r) (hformat : t.format? = u.format?) : u.Spans r := by
  obtain ⟨a, ha, hr⟩ := h
  rw [format?, format?, ha, Option.map_some] at hformat
  obtain ⟨b, hb, hab⟩ := Option.map_eq_some_iff.1 hformat.symm
  obtain ⟨hsize, hkind⟩ := Prod.mk.inj hab
  obtain ⟨hleast, hgreatest⟩ := Scalar.bounds_congr hsize hkind
  refine ⟨b, hb, fun v hv => ?_⟩
  rw [Scalar.Holds, hleast, hgreatest]
  exact hr v hv

/-- Only the bounds of a range count. -/
theorem Spans.of_bounds (h : t.Spans r) (hlo : q.lo = r.lo) (hhi : q.hi = r.hi) : t.Spans q := by
  obtain ⟨a, ha, hr⟩ := h
  refine ⟨a, ha, fun v hv => hr v ?_⟩
  rw [ValueRange.mem_iff, hlo, hhi] at hv
  exact hv

theorem spans_ofScalar {s : Scalar} : (ofScalar s).Spans r ↔ ∀ v ∈ r, s.Holds v := by
  refine ⟨?_, fun h => ⟨s, rfl, h⟩⟩
  rintro ⟨a, ha, hr⟩
  cases ha
  exact hr

end Ty

/-! ### One conversion -/

/-- A conversion that was not refused may be used for the range. -/
theorem CastQuery.admits_of_rangeAfter {q : CastQuery} {c : Cast} {r r' : Option ValueRange}
    (h : q.rangeAfter c r = .ok r') : admits q.implicit c r = .ok true := by
  obtain ⟨admitted, hadmitted, h⟩ := Outcome.bind_ok h
  cases admitted with
  | true => exact Outcome.ofInternal_ok hadmitted
  | false =>
    obtain ⟨u, hu, -⟩ := Outcome.bind_ok h
    cases hu

namespace Cast

variable {a b : Scalar} {c : Cast} {t : Ty} {r : ValueRange}

/-- **Between two integers the number is wrapped into the destination.** -/
theorem carry_ofIntegers (ha : a.Sized) (hai : a.isInteger) (hb : b.Sized) (hbi : b.isInteger)
    {v : Int} (hv : a.Holds v) : (ofIntegers a b).carry v = b.wrap v := by
  have hact := act_ofIntegers ha hai hb hbi hv
  have hop : (ofIntegers a b).op ≠ .noOp ∧ (ofIntegers a b).op ≠ .dereference := by
    rw [ofIntegers_op, CastOp.between]
    split_ifs <;> exact ⟨CastOp.noConfusion, CastOp.noConfusion⟩
  unfold carry
  rw [ofIntegers_source, ofIntegers_destination]
  split
  · exact absurd ‹_› hop.1
  · exact absurd ‹_› hop.2
  · exact hact

/-- Decay keeps the number. -/
theorem carry_of_mem_decays (h : c ∈ decays t) (v : Int) : c.carry v = v := by
  simp only [decays, List.mem_cons, List.not_mem_nil, or_false] at h
  rcases h with rfl | rfl | rfl <;> rfl

end Cast

namespace CastQuery

variable {cookie : Registration → Nat} {S : StructStore} {G : CastGraph} {q : CastQuery} {c : Cast}
  {t u : Ty} {a b : Scalar} {r : ValueRange} {r' : Option ValueRange}

/-- **An implicit conversion between integers** is used for a range of the first only if it is one of
the second as well. -/
theorem holds_of_rangeAfter (ha : a ∈ (BuiltinTypes.ofBackend cookie).integers)
    (hb : b ∈ (BuiltinTypes.ofBackend cookie).integers) (himplicit : q.implicit = true)
    (hr : ∀ v ∈ r, a.Holds v) (h : q.rangeAfter (.ofIntegers a b) (some r) = .ok r') :
    ∀ v ∈ r, b.Holds v := by
  have hasized := BuiltinTypes.sized_of_integer ha
  have hbsized := BuiltinTypes.sized_of_integer hb
  have hai := BuiltinTypes.isInteger_of_mem ha
  have hbi := BuiltinTypes.isInteger_of_mem hb
  intro v hv
  by_cases hwidens : a.widensTo b = true
  · exact Scalar.holds_of_widensTo hasized hai hbsized hbi hwidens (hr v hv)
  · -- the conversion asks for a range that fits
    have hadmits := admits_of_rangeAfter h
    have hrule : (Cast.ofIntegers a b).rule = .whenRangeFits := by
      rw [Cast.ofIntegers, if_neg hwidens]
    have hfits : b.fits r = .ok true := by
      simpa [admits, himplicit, hrule, Ty.ofScalar, Ty.asScalar?] using hadmits
    have hvoid : b.kind ≠ .void := fun hk => by simp [Scalar.isInteger, hk] at hbi
    have hbounds := (Scalar.fits_ok hbsized hfits hvoid).1 rfl
    have hmem := ValueRange.mem_iff.1 hv
    exact ⟨hbounds.1.trans hmem.1, hmem.2.trans hbounds.2⟩

/-- What an implicit conversion does to a value and its range: nothing. -/
theorem carry_of_rangeAfter (hG : (BuiltinTypes.ofBackend cookie).Sole G)
    (himplicit : q.implicit = true) (hc : c ∈ G.castsTo S u) (husable : c.usable q.implicit = true)
    (hr : c.source.Spans r) (h : q.rangeAfter c (some r) = .ok r') :
    (∀ v ∈ r, c.carry v = v) ∧ ∃ p, r' = some p ∧ p.lo = r.lo ∧ p.hi = r.hi ∧ u.Spans r := by
  have htransform := Setting.rangeAfter_some h
  rw [hG.castsTo_eq, List.mem_append] at hc
  rcases hc with hc | hc
  · obtain ⟨hmem, b', -, hdest, hsame⟩ := BuiltinTypes.mem_casts_of_find hc
    rcases BuiltinTypes.mem_casts hmem with ⟨a, ha, b, hb, -, rfl⟩ | rfl | rfl
    · rw [Cast.ofIntegers_source, Ty.spans_ofScalar] at hr
      have hbi := BuiltinTypes.isInteger_of_mem hb
      have hbsized := BuiltinTypes.sized_of_integer hb
      have hholds := holds_of_rangeAfter ha hb himplicit hr h
      rw [Cast.ofIntegers_transform, Cast.ofIntegers_destination] at htransform
      obtain ⟨p, hp, rfl⟩ := Outcome.map_ok htransform
      obtain ⟨hlo, hhi⟩ := Scalar.bounds_of_convert hbsized hbi hholds hp
      refine ⟨fun v hv => ?_, p, rfl, hlo, hhi, ?_⟩
      · rw [Cast.carry_ofIntegers (BuiltinTypes.sized_of_integer ha)
          (BuiltinTypes.isInteger_of_mem ha) hbsized hbi (hr v hv)]
        exact Scalar.wrap_of_holds (hholds v hv)
      · rw [Cast.ofIntegers_destination] at hsame
        exact (Ty.spans_ofScalar.2 hholds).congr (Ty.format?_eq_of_same hsame)
    · -- a conversion of characters has to be written
      simp [Cast.usable, Cast.ofChar, himplicit] at husable
    · simp [Cast.usable, Cast.ofChar, himplicit] at husable
  · split at hc
    · rw [Setting.transform_of_mem_decays hc] at htransform
      cases htransform
      obtain ⟨f, hf⟩ := Setting.source_of_mem_decays hc
      refine ⟨fun v _ => Cast.carry_of_mem_decays hc v, r, rfl, rfl, rfl, hr.congr ?_⟩
      rw [hf, Ty.addFlags, Ty.format?_withFlags]
    · cases hc

/-! ### Chains -/

/-- The range after the last of several steps. -/
def lastRange (r : Option ValueRange) (steps : List ChainStep) : Option ValueRange :=
  (steps.getLast?.map (·.range)).getD r

theorem lastRange_cons (r : Option ValueRange) (step : ChainStep) (steps : List ChainStep) :
    lastRange r (step :: steps) = lastRange step.range steps := by
  rw [lastRange, lastRange, List.getLast?_cons]
  cases steps.getLast? <;> rfl

/-- **Implicit conversions one after another** do nothing to a value and the bounds of its range. -/
theorem carryAll_of_steps {P : Ty → Prop} {casts : List Cast} {steps : List ChainStep}
    (hG : (BuiltinTypes.ofBackend cookie).Sole G) (himplicit : q.implicit = true)
    (hleads : G.Leads S q.implicit P t casts u) (hr : t.Spans r)
    (h : q.steps (some r) casts = .ok steps) :
    (∀ v ∈ r, ChainStep.carryAll steps v = v) ∧
      ∃ p, lastRange (some r) steps = some p ∧ p.lo = r.lo ∧ p.hi = r.hi := by
  induction hleads generalizing r steps with
  | nil =>
    cases h
    exact ⟨fun v _ => rfl, r, rfl, rfl, rfl⟩
  | @cons t w u c rest start same mem usable tail ih =>
    obtain ⟨after, hafter, h⟩ := Outcome.bind_ok h
    obtain ⟨others, hothers, h⟩ := Outcome.bind_ok h
    cases h
    -- the first conversion hands on the value and the bounds
    obtain ⟨hcarry, p, rfl, hlo, hhi, hspans⟩ := carry_of_rangeAfter hG himplicit mem usable
      (hr.congr (Ty.format?_eq_of_same same)) hafter
    obtain ⟨hrest, p', hlast, hlo', hhi'⟩ := ih (hspans.of_bounds hlo hhi) hothers
    refine ⟨fun v hv => ?_, p', ?_, hlo'.trans hlo, hhi'.trans hhi⟩
    · show ChainStep.carryAll others (c.carry v) = v
      rw [hcarry v hv]
      refine hrest v ?_
      rw [ValueRange.mem_iff, hlo, hhi]
      exact hv
    · rw [lastRange_cons]
      exact hlast

/-- **Implicit conversions keep the value**: in a context derived from the builtins, the chain that
answers an implicit query maps every number of the range to itself, and its range has the same
bounds. -/
theorem carry_of_resolve {c : LookupContext} {chain : Chain} (hc : c.Derived cookie)
    (himplicit : q.implicit = true) (hrange : q.range = some r) (hr : q.source.Spans r)
    (h : q.resolve S c.castGraph = .ok chain) :
    (∀ v ∈ r, chain.carry v = v) ∧ ∃ p, chain.range = some p ∧ p.lo = r.lo ∧ p.hi = r.hi := by
  rcases resolve_ok h with ⟨-, rfl⟩ | ⟨-, casts, steps, hcasts, -, hsteps, rfl⟩
  · exact ⟨fun v _ => rfl, r, hrange, rfl, rfl⟩
  · obtain ⟨t, hsame, hleads⟩ := CastGraph.leads_of_casts (P := fun _ => True)
      (fun _ _ _ _ _ => trivial) trivial hcasts
    rw [hrange] at hsteps ⊢
    exact carryAll_of_steps hc.sole himplicit hleads
      (hr.congr (Ty.format?_eq_of_same hsame).symm) hsteps

/-- A mutable variable that holds a number of four bytes is wanted as one of a single byte. -/
def narrowing : CastQuery where
  source := .scalar .refMut (BuiltinTypes.ofBackend fun _ => 0).s32
  range := some ⟨.signed, -100, 100, by decide, by decide, by decide⟩
  destination := .ofScalar (BuiltinTypes.ofBackend fun _ => 0).s8
  implicit := true
  limit := 30

/-- The variable is read and the number truncated, which keeps all numbers from -100 to 100. -/
theorem carry_of_resolve_narrowing :
    ∃ chain, narrowing.resolve .empty (Builtins.prepare fun _ => 0).moduleContext.push.castGraph =
        .ok chain ∧ chain.steps.map (·.cast.op) = [.dereference, .truncate] ∧
      (∀ v : Int, -100 ≤ v → v ≤ 100 → chain.carry v = v) ∧
      ∃ p, chain.range = some p ∧ p.lo = -100 ∧ p.hi = 100 := by
  have htest : (match narrowing.resolve .empty
      (Builtins.prepare fun _ => 0).moduleContext.push.castGraph with
      | .ok chain => decide (chain.steps.map (·.cast.op) = [.dereference, .truncate])
      | .error _ => false) = true := by decide +kernel
  cases hresolve : narrowing.resolve .empty
      (Builtins.prepare fun _ => 0).moduleContext.push.castGraph with
  | error e =>
    rw [hresolve] at htest
    cases htest
  | ok chain =>
    rw [hresolve] at htest
    have hspans : narrowing.source.Spans
        ⟨.signed, -100, 100, by decide, by decide, by decide⟩ := by
      refine ⟨_, rfl, fun v hv => ?_⟩
      have hmem := ValueRange.mem_iff.1 hv
      have hleast : ((BuiltinTypes.ofBackend fun _ => 0).s32.least : Int) ≤ -100 := by decide
      have hgreatest : (100 : Int) ≤ (BuiltinTypes.ofBackend fun _ => 0).s32.greatest := by decide
      exact ⟨hleast.trans hmem.1, hmem.2.trans hgreatest⟩
    obtain ⟨hcarry, hbounds⟩ := carry_of_resolve (LookupContext.Derived.moduleContext.push) rfl rfl
      hspans hresolve
    exact ⟨chain, rfl, of_decide_eq_true htest, fun v hlo hhi => hcarry v ⟨hlo, hhi⟩, hbounds⟩

end CastQuery

end RangeTyping
