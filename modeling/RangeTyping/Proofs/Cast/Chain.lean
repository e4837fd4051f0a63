import Mathlib
import RangeTyping.Proofs.Cast.Trace
import RangeTyping.Proofs.Setting

/-!
# Chains of conversions lead where they should

A graph carries the conversions of a setting if its tables are empty or the table of the builtins.
In such a graph every conversion to a known type is an edge of the setting (`Setting.Edge`): one of
the builtin table or a decay.  So the chain that answers a query is a path from its source to its
destination (`Setting.path_of_resolve`), and the range is carried along it step by step.
-/

namespace RangeTyping

/-- A decay takes the qualifiers off the type where it starts. -/
theorem Cast.source_of_decay {c : Cast} {t : Ty} (ht : t.flags = .none) (h : c ∈ decays t) :
    c.source.flags ≠ .none ∧ c.source.unqualified = t := by
  have hunqualified : ∀ f, (t.addFlags f).unqualified = t := fun f => by
    rw [Ty.addFlags, Ty.unqualified, Ty.withFlags_withFlags, ← ht, Ty.withFlags_flags]
  simp only [decays, List.mem_cons, List.not_mem_nil, or_false] at h
  rcases h with rfl | rfl | rfl
  · exact ⟨by simp [Ty.addFlags, ht, Flags.union, Flags.none, Flags.ref], hunqualified _⟩
  · exact ⟨by simp [Ty.addFlags, ht, Flags.union, Flags.none, Flags.refMut], hunqualified _⟩
  · exact ⟨by simp [Ty.addFlags, ht, Flags.union, Flags.none, Flags.mutOnly], hunqualified _⟩

namespace Setting

variable {X : Setting} {t u : Ty} {c : Cast}

/-! ### Edges -/

/-- The conversion is a builtin one, or a decay to a plain type. -/
def Edge (X : Setting) (c : Cast) : Prop :=
  c ∈ X.types.casts.casts ∨ ∃ t, X.Plain t ∧ c ∈ Cast.decays t

/-- The graph has no tables but that of the builtins. -/
def Carries (X : Setting) (G : CastGraph) : Prop :=
  ∀ table ∈ G.tables, table = [] ∨ table = X.types.casts

theorem c8_mem_all (X : Setting) : X.types.c8 ∈ X.types.all := by
  simp [BuiltinTypes.all]

theorem u8_mem_integers (X : Setting) : X.types.u8 ∈ X.types.integers := by
  simp [BuiltinTypes.integers]

/-- The scalars that builtin conversions lead between have values, which are not truth values. -/
theorem isIntegral_of_mem_casts (h : c ∈ X.types.casts.casts) :
    ∃ a ∈ X.types.all, ∃ b ∈ X.types.all, c.source = .ofScalar a ∧ c.destination = .ofScalar b ∧
      a.isIntegral = true ∧ b.isIntegral = true := by
  have hint : ∀ a ∈ X.types.integers, a.isIntegral = true := fun a ha => by
    rw [Scalar.isIntegral, BuiltinTypes.isInteger_of_mem ha]
    rfl
  have hu := BuiltinTypes.mem_all_of_integer X.u8_mem_integers
  have hc := X.c8_mem_all
  rcases BuiltinTypes.mem_casts h with ⟨a, ha, b, hb, -, rfl⟩ | rfl | rfl
  · exact ⟨a, BuiltinTypes.mem_all_of_integer ha, b, BuiltinTypes.mem_all_of_integer hb, by simp,
      by simp, hint a ha, hint b hb⟩
  · exact ⟨_, hc, _, hu, rfl, rfl, rfl, rfl⟩
  · exact ⟨_, hu, _, hc, rfl, rfl, rfl, rfl⟩

theorem destination_of_mem_decays (h : c ∈ Cast.decays t) : c.destination = t := by
  simp only [Cast.decays, List.mem_cons, List.not_mem_nil, or_false] at h
  rcases h with rfl | rfl | rfl <;> rfl

theorem source_of_mem_decays (h : c ∈ Cast.decays t) : ∃ f, c.source = t.addFlags f := by
  simp only [Cast.decays, List.mem_cons, List.not_mem_nil, or_false] at h
  rcases h with rfl | rfl | rfl <;> exact ⟨_, rfl⟩

/-- What decays is qualified. -/
theorem flags_of_mem_decays (ht : X.Plain t) (h : c ∈ Cast.decays t) : c.source.flags ≠ .none :=
  (Cast.source_of_decay ht.flags h).1

theorem Edge.plain_destination (h : X.Edge c) : X.Plain c.destination := by
  rcases h with h | ⟨t, ht, h⟩
  · obtain ⟨a, -, b, hb, -, hd, -⟩ := isIntegral_of_mem_casts h
    rw [hd]
    exact plain_ofScalar hb
  · rw [destination_of_mem_decays h]
    exact ht

theorem Edge.known_source (h : X.Edge c) : X.Known c.source := by
  rcases h with h | ⟨t, ht, h⟩
  · obtain ⟨a, ha, b, -, hs, -⟩ := isIntegral_of_mem_casts h
    rw [hs]
    exact (plain_ofScalar ha).known
  · obtain ⟨f, hf⟩ := source_of_mem_decays h
    rw [hf]
    exact known_addFlags.2 ht.known

/-- The conversions that a table of the builtins has for a known type end at that type. -/
theorem of_mem_find (ht : X.Known t) (h : c ∈ CastTable.find X.structs t X.types.casts) :
    c ∈ X.types.casts.casts ∧ c.destination = t := by
  obtain ⟨hmem, b, hb, hd, hsame⟩ := BuiltinTypes.mem_casts_of_find h
  refine ⟨hmem, eq_of_same ?_ ht hsame⟩
  rw [hd]
  exact (plain_ofScalar hb).known

/-- **Every conversion to a known type is an edge that ends there.** -/
theorem edge_of_mem_castsTo {G : CastGraph} (hG : X.Carries G) (ht : X.Known t)
    (h : c ∈ G.castsTo X.structs t) : X.Edge c ∧ c.destination = t := by
  rw [CastGraph.castsTo, List.mem_append, List.mem_flatMap] at h
  rcases h with ⟨table, htable, hc⟩ | hc
  · rcases hG table htable with rfl | rfl
    · cases hc
    · obtain ⟨hmem, hd⟩ := of_mem_find ht hc
      exact ⟨.inl hmem, hd⟩
  · split at hc
    · rename_i hplain
      have hflags : t.flags = .none := by
        have he : t.flags.isEmpty = true := (Bool.and_eq_true _ _ ▸ hplain).2
        generalize t.flags = f at he
        obtain ⟨a, b⟩ := f
        simp only [Flags.isEmpty, Bool.and_eq_true, Bool.not_eq_true'] at he
        rw [Flags.none, he.1, he.2]
      exact ⟨.inr ⟨t, ⟨ht, hflags⟩, hc⟩, destination_of_mem_decays hc⟩
    · cases hc

/-! ### Ranges along an edge -/

/-- What a conversion makes of a range: a decay keeps it, a builtin conversion converts it to its
destination. -/
def Conveys (X : Setting) (c : Cast) (r r' : Option ValueRange) : Prop :=
  (∃ t, X.Plain t ∧ c ∈ Cast.decays t) ∧ r' = r ∨
    c ∈ X.types.casts.casts ∧ ∃ s p q, c.destination = .ofScalar s ∧ r = some p ∧ r' = some q ∧
      s.convert p = .ok q

theorem Conveys.edge {r r' : Option ValueRange} (h : X.Conveys c r r') : X.Edge c := by
  rcases h with ⟨h, -⟩ | ⟨h, -⟩
  · exact .inr h
  · exact .inl h

theorem ne_void_of_isIntegral {s : Scalar} (h : s.isIntegral = true) : s.kind ≠ .void := by
  intro hk
  simp [Scalar.isIntegral, Scalar.isInteger, hk] at h

/-- The range of a qualified value stays what it is. -/
theorem Conveys.eq_of_qualified {r r' : Option ValueRange} (h : X.Conveys c r r')
    (hc : c.source.flags ≠ .none) : r' = r := by
  rcases h with ⟨-, heq⟩ | ⟨hmem, -⟩
  · exact heq
  · obtain ⟨a, -, b, -, hs, -⟩ := isIntegral_of_mem_casts hmem
    rw [hs] at hc
    exact absurd rfl hc

/-- The range of a plain value is converted to the destination. -/
theorem Conveys.convert_of_plain {r r' : Option ValueRange} (h : X.Conveys c r r')
    (hc : c.source.flags = .none) : ∃ s p q, c.destination = .ofScalar s ∧ r = some p ∧
      r' = some q ∧ s.convert p = .ok q := by
  rcases h with ⟨⟨t, ht, hmem⟩, -⟩ | ⟨-, hconvert⟩
  · exact absurd hc (flags_of_mem_decays ht hmem)
  · exact hconvert

/-- A range stays one of the type along a conversion. -/
theorem Conveys.admits {r r' : Option ValueRange} (h : X.Conveys c r r') (hr : c.source.Admits r) :
    c.destination.Admits r' := by
  rcases h with ⟨⟨t, -, hc⟩, rfl⟩ | ⟨hc, s, p, q, hd, -, rfl, hconv⟩
  · obtain ⟨f, hf⟩ := source_of_mem_decays hc
    rw [destination_of_mem_decays hc]
    rw [hf] at hr
    exact Ty.admits_withFlags.1 hr
  · obtain ⟨a, -, b, hb, -, hd', -, hint⟩ := isIntegral_of_mem_casts hc
    obtain rfl : s = b := by
      rw [hd] at hd'
      exact (Ty.scalar.inj hd').2
    have hv := ne_void_of_isIntegral hint
    rw [hd]
    exact (Ty.admits_some rfl hv).2
      ⟨q, rfl, (Scalar.convert_ok (BuiltinTypes.sized_of_mem hb hv) hint hconv).1⟩

/-- Builtin conversions convert the range to the destination. -/
theorem transform_of_mem_casts (h : c ∈ X.types.casts.casts) : c.transform = .integer := by
  rcases BuiltinTypes.mem_casts h with ⟨a, -, b, -, -, rfl⟩ | rfl | rfl
  · exact Cast.ofIntegers_transform
  · rfl
  · rfl

theorem transform_of_mem_decays (h : c ∈ Cast.decays t) : c.transform = .keep := by
  simp only [Cast.decays, List.mem_cons, List.not_mem_nil, or_false] at h
  rcases h with rfl | rfl | rfl <;> rfl

/-- Without a range before, the range after is the full one. -/
theorem rangeAfter_none {q : CastQuery} {r : Option ValueRange} (h : q.rangeAfter c none = .ok r) :
    c.destination.fullRange = .ok r := by
  obtain ⟨admitted, -, h⟩ := Outcome.bind_ok h
  cases admitted with
  | true => exact Outcome.ofInternal_ok h
  | false =>
    obtain ⟨u, hu, -⟩ := Outcome.bind_ok h
    cases hu

/-- A range is carried along by the rule of the conversion. -/
theorem rangeAfter_some {q : CastQuery} {p : ValueRange} {r : Option ValueRange}
    (h : q.rangeAfter c (some p) = .ok r) :
    c.transform c.source c.destination p q.implicit = .ok r := by
  obtain ⟨admitted, -, h⟩ := Outcome.bind_ok h
  cases admitted with
  | true =>
    obtain ⟨o, ho, h⟩ := Outcome.bind_ok h
    cases o with
    | none => cases h
    | some after =>
      cases h
      exact Outcome.ofInternal_ok ho
  | false =>
    obtain ⟨u, hu, -⟩ := Outcome.bind_ok h
    cases hu

/-- **The range after a conversion** is what the conversion makes of the range before. -/
theorem conveys_of_rangeAfter {q : CastQuery} {r r' : Option ValueRange} (he : X.Edge c)
    (hr : c.source.Admits r) (h : q.rangeAfter c r = .ok r') : X.Conveys c r r' := by
  rcases he with hc | ⟨t, ht, hc⟩
  · -- a builtin conversion starts at a number, which has a range
    obtain ⟨a, -, b, -, hs, hd, hint, -⟩ := isIntegral_of_mem_casts hc
    rw [hs] at hr
    obtain ⟨p, rfl, -⟩ := (Ty.admits_some rfl (ne_void_of_isIntegral hint)).1 hr
    have hafter := rangeAfter_some h
    rw [transform_of_mem_casts hc, hd] at hafter
    obtain ⟨after, hconv, rfl⟩ := Outcome.map_ok hafter
    exact .inr ⟨hc, b, p, after, hd, rfl, rfl, hconv⟩
  · -- a decay leaves the range as it is
    obtain ⟨f, hf⟩ := source_of_mem_decays hc
    rw [hf, Ty.addFlags, Ty.admits_withFlags] at hr
    refine .inl ⟨⟨t, ht, hc⟩, ?_⟩
    cases r with
    | none =>
      have hfull := rangeAfter_none h
      rw [destination_of_mem_decays hc] at hfull
      exact hr.eq_none (ht.known.admits_fullRange hfull)
    | some p =>
      have hafter := rangeAfter_some h
      rw [transform_of_mem_decays hc] at hafter
      cases hafter
      rfl

/-! ### Chains -/

/-- The conversions lead from the type `t` to the type `u`. -/
def Linked (X : Setting) : Ty → List Cast → Ty → Prop
  | t, [], u => t = u
  | t, c :: rest, u => X.Edge c ∧ c.source = t ∧ Linked X c.destination rest u

/-- The steps lead from a value of type `t` and range `r` to the type `u`, and carry the range
along. -/
def Path (X : Setting) : Ty → Option ValueRange → List ChainStep → Ty → Prop
  | t, _, [], u => t = u
  | t, r, s :: rest, u =>
    s.cast.source = t ∧ X.Conveys s.cast r s.range ∧ Path X s.cast.destination s.range rest u

theorem path_of_steps {q : CastQuery} {casts : List Cast} {r : Option ValueRange}
    {steps : List ChainStep} (hl : X.Linked t casts u) (hr : t.Admits r)
    (h : q.steps r casts = .ok steps) : X.Path t r steps u := by
  induction casts generalizing t r steps with
  | nil =>
    cases h
    exact hl
  | cons c rest ih =>
    obtain ⟨he, rfl, hl⟩ := hl
    obtain ⟨after, hafter, h⟩ := Outcome.bind_ok h
    obtain ⟨others, hothers, h⟩ := Outcome.bind_ok h
    cases h
    have hc := conveys_of_rangeAfter he hr hafter
    exact ⟨rfl, hc, ih hl (hc.admits hr) hothers⟩

end Setting

/-! ### Queries -/

namespace Setting

variable {X : Setting} {G : CastGraph} {q : CastQuery}

/-- Conversions between known types start at known types. -/
theorem known_source_of_mem_castsTo (hG : X.Carries G) (t : Ty) (ht : X.Known t) (c : Cast)
    (hc : c ∈ G.castsTo X.structs t) : X.Known c.source :=
  (edge_of_mem_castsTo hG ht hc).1.known_source

theorem linked_of_leads {implicit : Bool} {t u : Ty} {casts : List Cast} (hG : X.Carries G)
    (hu : X.Known u) (h : G.Leads X.structs implicit X.Known t casts u) : X.Linked t casts u := by
  induction h with
  | nil => rfl
  | @cons t v u c rest start same mem usable tail ih =>
    obtain ⟨hedge, rfl⟩ := edge_of_mem_castsTo hG (tail.start_of_end hu) mem
    exact ⟨hedge, (eq_of_same start hedge.known_source same).symm, ih hu⟩

theorem linked_of_casts {casts : List Cast} (hG : X.Carries G) (hs : X.Known q.source)
    (hd : X.Known q.destination) (h : q.casts X.structs G = .ok casts) :
    X.Linked q.source casts q.destination := by
  obtain ⟨t, hsame, hleads⟩ := CastGraph.leads_of_casts
    (fun t ht c hc _ => known_source_of_mem_castsTo hG t ht c hc) hd h
  rw [← eq_of_same (hleads.start_of_end hd) hs hsame]
  exact linked_of_leads hG hd hleads

/-- **The chain that answers a query** leads from its source to its destination and carries the
range along. -/
theorem path_of_resolve {chain : Chain} (hG : X.Carries G) (hs : X.Known q.source)
    (hd : X.Known q.destination) (hr : q.source.Admits q.range)
    (h : q.resolve X.structs G = .ok chain) :
    X.Path q.source q.range chain.steps q.destination := by
  rcases CastQuery.resolve_ok h with ⟨hsame, rfl⟩ | ⟨-, casts, steps, hcasts, -, hsteps, rfl⟩
  · exact eq_of_same hs hd hsame
  · exact path_of_steps (linked_of_casts hG hs hd hcasts) hr hsteps

end Setting

end RangeTyping
