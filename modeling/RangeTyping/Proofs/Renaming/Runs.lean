import Mathlib
import RangeTyping.Analysis.Basic
import RangeTyping.Proofs.Outcome
import RangeTyping.Proofs.Renaming.Basic
import RangeTyping.Proofs.Stream.Basic

/-!
# Two runs of one analysis

The same source may be analysed twice, in surroundings that differ only in the numbers of structs
and from different supplies of identities.  The two runs draw identities in step, and a `Link`
records which identity of the second run stands for which one of the first.  Results are the same
up to the link if every renaming that follows the link takes one to the other (`Link.Same`).

A link grows while the runs go on, and results that are the same stay so (`Link.Same.mono`).
Supplies may also grow on one side alone, which is why a link says nothing about identities that
were drawn and thrown away.  Runs agree (`Link.Agrees`) if both end well with results that are the
same up to a grown link, or both end in a diagnostic.  Where the second run may end well although the
first does not, it simulates the first (`Link.Simulates`).  Both relations are carried through a
sequence of steps (`Link.Agrees.bind`, `Link.Simulates.bind`).
-/

namespace RangeTyping

/-! ### Outcomes of one kind -/

/-- The outcomes are both values related by `R`, both errors related by `E`, or both broken. -/
inductive Outcome.Agrees {ε δ α β : Type} (E : ε → δ → Prop) (R : α → β → Prop) :
    Outcome ε α → Outcome δ β → Prop where
  | ok {a : α} {b : β} (h : R a b) : Agrees E R (.ok a) (.ok b)
  | fail {d : ε} {e : δ} (h : E d e) : Agrees E R (.error (.error d)) (.error (.error e))
  | internal (i j : InternalError) : Agrees E R (.error (.internal i)) (.error (.internal j))

namespace Outcome.Agrees

variable {ε δ α β γ ζ : Type} {E : ε → δ → Prop} {R : α → β → Prop} {Q : γ → ζ → Prop}

/-- **Sequences agree if their steps do.** -/
theorem bind {x : Outcome ε α} {y : Outcome δ β} {f : α → Outcome ε γ} {g : β → Outcome δ ζ}
    (h : Agrees E R x y)
    (hf : ∀ a b, x = .ok a → y = .ok b → R a b → Agrees E Q (f a) (g b)) :
    Agrees E Q (x >>= f) (y >>= g) := by
  cases h with
  | ok h => exact hf _ _ rfl rfl h
  | fail h => exact .fail h
  | internal i j => exact .internal i j

theorem mono {E' : ε → δ → Prop} {R' : α → β → Prop} {x : Outcome ε α} {y : Outcome δ β}
    (h : Agrees E R x y) (hE : ∀ d e, E d e → E' d e) (hR : ∀ a b, R a b → R' a b) :
    Agrees E' R' x y := by
  cases h with
  | ok h => exact .ok (hR _ _ h)
  | fail h => exact .fail (hE _ _ h)
  | internal i j => exact .internal i j

theorem mapError {ε' δ' : Type} {D : ε' → δ' → Prop} {f : ε → ε'} {g : δ → δ'}
    {x : Outcome ε α} {y : Outcome δ β} (h : Agrees E R x y)
    (hE : ∀ d e, E d e → D (f d) (g e)) : Agrees D R (x.mapError f) (y.mapError g) := by
  cases h with
  | ok h => exact .ok h
  | fail h => exact .fail (hE _ _ h)
  | internal i j => exact .internal i j

/-- A computation without recoverable errors agrees with itself. -/
theorem ofInternal (x : Except InternalError α) :
    Agrees E (· = ·) (Outcome.ofInternal x) (Outcome.ofInternal x) := by
  cases x with
  | ok a => exact .ok rfl
  | error e => exact .internal e e

end Outcome.Agrees

/-! ### Pairs of numbers -/

/-- **The pairs are one to one**, from numbers of `a` to `b` to numbers of `c` to `d`. -/
structure Paired (a b c d : Nat) (ps : List (Nat × Nat)) : Prop where
  left : a ≤ b
  right : c ≤ d
  between : ∀ p ∈ ps, (a ≤ p.1 ∧ p.1 < b) ∧ c ≤ p.2 ∧ p.2 < d
  one_to_one : ∀ p ∈ ps, ∀ q ∈ ps, p.1 = q.1 ↔ p.2 = q.2

namespace Paired

variable {a b c d b' d' : Nat} {ps qs : List (Nat × Nat)}

theorem nil (h : a ≤ b) (h' : c ≤ d) : Paired a b c d [] :=
  ⟨h, h', fun _ hp => absurd hp List.not_mem_nil, fun _ hp => absurd hp List.not_mem_nil⟩

theorem mono (h : Paired a b c d ps) (hb : b ≤ b') (hd : d ≤ d') : Paired a b' c d' ps := by
  refine ⟨h.left.trans hb, h.right.trans hd, fun p hp => ?_, h.one_to_one⟩
  have := h.between p hp
  omega

/-- Pairs with disjoint bounds can be put together. -/
theorem append {a' c' : Nat} (h : Paired a b c d ps) (h' : Paired a' b' c' d' qs)
    (hl : b ≤ a' ∨ b' ≤ a) (hr : d ≤ c' ∨ d' ≤ c) :
    Paired (min a a') (max b b') (min c c') (max d d') (ps ++ qs) := by
  have hleft := h.left
  have hright := h.right
  refine ⟨by omega, by omega, fun p hp => ?_, fun p hp q hq => ?_⟩
  · rcases List.mem_append.1 hp with hp | hp
    · have := h.between p hp
      omega
    · have := h'.between p hp
      omega
  · rcases List.mem_append.1 hp with hp | hp <;> rcases List.mem_append.1 hq with hq | hq
    · exact h.one_to_one p hp q hq
    · have := h.between p hp
      have := h'.between q hq
      omega
    · have := h'.between p hp
      have := h.between q hq
      omega
    · exact h'.one_to_one p hp q hq

/-- Pairs from many blocks with disjoint bounds can be put together. -/
theorem flatMap {ι : Type} {blocks : List ι} {pairs : ι → List (Nat × Nat)} (l l' r r' : ι → Nat)
    (h : ∀ x ∈ blocks, Paired (l x) (l' x) (r x) (r' x) (pairs x))
    (hl : blocks.Pairwise fun x y => l' x ≤ l y ∨ l' y ≤ l x)
    (hr : blocks.Pairwise fun x y => r' x ≤ r y ∨ r' y ≤ r x) (hab : a ≤ b) (hcd : c ≤ d)
    (hbounds : ∀ x ∈ blocks, (a ≤ l x ∧ l' x ≤ b) ∧ c ≤ r x ∧ r' x ≤ d) :
    Paired a b c d (blocks.flatMap pairs) := by
  refine ⟨hab, hcd, fun p hp => ?_, ?_⟩
  · obtain ⟨x, hx, hp⟩ := List.mem_flatMap.1 hp
    have hbetween := (h x hx).between p hp
    have hbound := hbounds x hx
    omega
  · induction blocks with
    | nil => exact fun p hp => absurd hp List.not_mem_nil
    | cons x rest ih =>
      rw [List.pairwise_cons] at hl hr
      rw [List.forall_mem_cons] at h
      have hrest := ih h.2 hl.2 hr.2 (List.forall_mem_cons.1 hbounds).2
      -- a pair of the first block and one of another have nothing in common
      have hapart : ∀ p ∈ pairs x, ∀ q ∈ rest.flatMap pairs, p.1 ≠ q.1 ∧ p.2 ≠ q.2 := by
        intro p hp q hq
        obtain ⟨y, hy, hq⟩ := List.mem_flatMap.1 hq
        have hpx := h.1.between p hp
        have hqy := (h.2 y hy).between q hq
        have hly := hl.1 y hy
        have hry := hr.1 y hy
        omega
      intro p hp q hq
      rw [List.flatMap_cons, List.mem_append] at hp hq
      rcases hp with hp | hp <;> rcases hq with hq | hq
      · exact h.1.one_to_one p hp q hq
      · exact iff_of_false (hapart p hp q hq).1 (hapart p hp q hq).2
      · exact iff_of_false (hapart q hq p hp).1.symm (hapart q hq p hp).2.symm
      · exact hrest p hp q hq

/-- The next numbers on both sides make a new pair. -/
theorem cons (h : Paired a b c d ps) : Paired a (b + 1) c (d + 1) ((b, d) :: ps) := by
  have hleft := h.left
  have hright := h.right
  have hnew : Paired b (b + 1) d (d + 1) [(b, d)] := by
    refine ⟨by omega, by omega, fun p hp => ?_, fun p hp q hq => ?_⟩
    · cases List.mem_singleton.1 hp
      dsimp only
      omega
    · rw [List.mem_singleton.1 hp, List.mem_singleton.1 hq]
      simp
  have hall := hnew.append h (.inr le_rfl) (.inr le_rfl)
  rwa [min_eq_right hleft, min_eq_right hright, max_eq_left (by omega),
    max_eq_left (by omega)] at hall

/-- **Pairs extend to a renumbering of everything.** -/
theorem exists_injective (h : Paired a b c d ps) :
    ∃ f : Nat → Nat, Function.Injective f ∧ ∀ p ∈ ps, f p.1 = p.2 := by
  -- numbers without a pair move out of the way
  let f : Nat → Nat := fun x => ((ps.find? (·.1 == x)).map (·.2)).getD (x + d)
  have hpaired : ∀ p ∈ ps, f p.1 = p.2 := by
    intro p hp
    obtain ⟨q, hq⟩ : ∃ q, ps.find? (·.1 == p.1) = some q := by
      rw [← Option.isSome_iff_exists, List.find?_isSome]
      exact ⟨p, hp, by simp⟩
    have hkey : q.1 = p.1 := by simpa using List.find?_some hq
    have hvalue := (h.one_to_one q (List.mem_of_find?_eq_some hq) p hp).1 hkey
    simp [f, hq, hvalue]
  have hcases : ∀ x, (∃ p ∈ ps, p.1 = x ∧ f x = p.2) ∨ f x = x + d := by
    intro x
    cases hfind : ps.find? (·.1 == x) with
    | none => exact .inr (by simp [f, hfind])
    | some p =>
      have hkey : p.1 = x := by simpa using List.find?_some hfind
      have hmem := List.mem_of_find?_eq_some hfind
      exact .inl ⟨p, hmem, hkey, hkey ▸ hpaired p hmem⟩
  refine ⟨f, fun x y hxy => ?_, hpaired⟩
  rcases hcases x with ⟨p, hp, rfl, hpx⟩ | hx <;> rcases hcases y with ⟨q, hq, rfl, hqy⟩ | hy
  · exact (h.one_to_one p hp q hq).2 (by rw [← hpx, ← hqy, hxy])
  · have := h.between p hp
    omega
  · have := h.between q hq
    omega
  · omega

/-- Zero stands for itself where it is out of the way. -/
theorem cons_zero (h : Paired a b c d ps) (ha : 0 < a) (hc : 0 < c) :
    Paired 0 b 0 d ((0, 0) :: ps) := by
  have hleft := h.left
  have hright := h.right
  have hzero : Paired 0 1 0 1 [(0, 0)] := (Paired.nil le_rfl le_rfl).cons
  have hall := hzero.append h (.inl ha) (.inl hc)
  rwa [Nat.zero_min, Nat.zero_min, max_eq_right (by omega), max_eq_right (by omega)] at hall

end Paired

/-! ### Links -/

/-- **Which identities of two runs stand for each other**, since the supplies were `left` and
`right`, and the numbers that structs of the first run have in the second. -/
structure Link where
  struct : StructId → StructId
  left : Fresh
  right : Fresh
  values : List (Nat × Nat)
  points : List (Nat × Nat)

/-- The renaming does what the link says. -/
structure Renaming.Follows (r : Renaming) (L : Link) : Prop where
  struct : r.struct = L.struct
  value : ∀ p ∈ L.values, r.value ⟨p.1⟩ = ⟨p.2⟩
  point : ∀ p ∈ L.points, r.point ⟨p.1⟩ = ⟨p.2⟩

namespace Link

variable {α β γ ζ : Type} {L L' L'' : Link} {s s' t t' : Fresh} {r : Renaming}

/-- The link between runs that start now. -/
def new (struct : StructId → StructId) (s t : Fresh) : Link := ⟨struct, s, t, [], []⟩

/-- A link that has grown. -/
structure Grows (L L' : Link) : Prop where
  struct : L'.struct = L.struct
  left : L'.left = L.left
  right : L'.right = L.right
  values : L.values ⊆ L'.values
  points : L.points ⊆ L'.points

theorem Grows.refl (L : Link) : L.Grows L :=
  ⟨rfl, rfl, rfl, List.Subset.refl _, List.Subset.refl _⟩

theorem Grows.trans (h : L.Grows L') (h' : L'.Grows L'') : L.Grows L'' :=
  ⟨h'.struct.trans h.struct, h'.left.trans h.left, h'.right.trans h.right,
    fun _ hp => h'.values (h.values hp), fun _ hp => h'.points (h.points hp)⟩

theorem Grows.follows (h : L.Grows L') (hr : r.Follows L') : r.Follows L :=
  ⟨hr.struct.trans h.struct, fun p hp => hr.value p (h.values hp),
    fun p hp => hr.point p (h.points hp)⟩

/-- The second is the first, renamed as the link says. -/
def Same (L : Link) (act : Renaming → α → β) (a : α) (b : β) : Prop :=
  ∀ r : Renaming, r.Follows L → b = act r a

theorem Same.mono {act : Renaming → α → β} {a : α} {b : β} (h : L.Same act a b)
    (hL : L.Grows L') : L'.Same act a b := fun r hr => h r (hL.follows hr)

/-- **The link fits the supplies**: it pairs identities that were drawn since it was new, one to
one. -/
structure Fits (L : Link) (s t : Fresh) : Prop where
  left : 0 < L.left.nextValue
  right : 0 < L.right.nextValue
  values : Paired L.left.nextValue s.nextValue L.right.nextValue t.nextValue L.values
  points : Paired L.left.nextPoint s.nextPoint L.right.nextPoint t.nextPoint L.points

theorem Fits.mono (h : L.Fits s t) (hs : s.Grew s') (ht : t.Grew t') : L.Fits s' t' :=
  ⟨h.left, h.right, h.values.mono hs.values ht.values, h.points.mono hs.points ht.points⟩

theorem fits_new (struct : StructId → StructId) (hs : 0 < s.nextValue) (ht : 0 < t.nextValue) :
    (new struct s t).Fits s t :=
  ⟨hs, ht, .nil le_rfl le_rfl, .nil le_rfl le_rfl⟩

/-- **A link that fits can be followed**, by a renaming that is one to one. -/
theorem Fits.exists_follows (h : L.Fits s t) : ∃ r : Renaming, r.Follows L ∧
    Function.Injective r.value ∧ Function.Injective r.point := by
  obtain ⟨f, hf, hvalues⟩ := (h.values.cons_zero h.left h.right).exists_injective
  obtain ⟨g, hg, hpoints⟩ := h.points.exists_injective
  rw [List.forall_mem_cons] at hvalues
  refine ⟨⟨L.struct, fun v => ⟨f v.index⟩, fun p => ⟨g p.index⟩, congrArg ValueId.mk hvalues.1⟩,
    ⟨rfl, fun p hp => ?_, fun p hp => ?_⟩, ?_, ?_⟩
  · exact congrArg ValueId.mk (hvalues.2 p hp)
  · exact congrArg PointId.mk (hpoints p hp)
  · intro v w hvw
    exact congrArg ValueId.mk (hf (ValueId.mk.inj hvw))
  · intro p q hpq
    exact congrArg PointId.mk (hg (PointId.mk.inj hpq))

/-! ### Agreement -/

/-- **The two runs agree**: both end well with results that are related up to a grown link, or both
end in a diagnostic. -/
def Agrees (L : Link) (R : Link → α → β → Prop) :
    Outcome Diagnostic (α × Fresh) → Outcome Diagnostic (β × Fresh) → Prop :=
  Outcome.Agrees (fun _ _ => True) fun x y =>
    ∃ L' : Link, L.Grows L' ∧ L'.Fits x.2 y.2 ∧ R L' x.1 y.1

namespace Agrees

variable {R : Link → α → β → Prop} {Q : Link → γ → ζ → Prop}

theorem of_grows {x : Outcome Diagnostic (α × Fresh)} {y : Outcome Diagnostic (β × Fresh)}
    (h : L'.Agrees R x y) (hL : L.Grows L') : L.Agrees R x y := by
  refine Outcome.Agrees.mono h (fun _ _ => id) ?_
  rintro ⟨a, s'⟩ ⟨b, t'⟩ ⟨L'', hgrows, hfits, hR⟩
  exact ⟨L'', hL.trans hgrows, hfits, hR⟩

/-- **Sequences of steps agree if their steps do.** -/
theorem bind {x : Analysis α} {y : Analysis β} {f : α → Analysis γ} {g : β → Analysis ζ}
    (h : L.Agrees R (x s) (y t))
    (hf : ∀ a b s' t' L', x s = .ok (a, s') → y t = .ok (b, t') → L.Grows L' → L'.Fits s' t' →
      R L' a b → L'.Agrees Q (f a s') (g b t')) :
    L.Agrees Q ((x >>= f) s) ((y >>= g) t) := by
  refine Outcome.Agrees.bind h ?_
  rintro ⟨a, s'⟩ ⟨b, t'⟩ hx hy ⟨L', hgrows, hfits, hR⟩
  exact (hf a b s' t' L' hx hy hgrows hfits hR).of_grows hgrows

theorem pure {a : α} {b : β} (hfits : L.Fits s t) (h : R L a b) :
    L.Agrees R ((Pure.pure a : Analysis α) s) ((Pure.pure b : Analysis β) t) :=
  .ok ⟨L, .refl L, hfits, h⟩

theorem fail (c d : Cause) (l m : Location) :
    L.Agrees R ((Analysis.fail c l : Analysis α) s) ((Analysis.fail d m : Analysis β) t) :=
  Outcome.Agrees.fail trivial

/-- Computations that draw nothing and have the same outcome. -/
theorem liftInternal {x : Except InternalError α} (hfits : L.Fits s t) :
    L.Agrees (fun _ a b => a = b) ((liftM x : Analysis α) s) ((liftM x : Analysis α) t) := by
  cases x with
  | ok a => exact .ok ⟨L, .refl L, hfits, rfl⟩
  | error e => exact .internal e e

/-- Computations that draw nothing. -/
theorem lift {x : Outcome Diagnostic α} {y : Outcome Diagnostic β}
    {E : Diagnostic → Diagnostic → Prop} {P : α → β → Prop} (hfits : L.Fits s t)
    (h : Outcome.Agrees E P x y) :
    L.Agrees (fun _ => P) ((liftM x : Analysis α) s) ((liftM y : Analysis β) t) := by
  cases h with
  | ok h => exact .ok ⟨L, .refl L, hfits, h⟩
  | fail h => exact Outcome.Agrees.fail trivial
  | internal i j => exact .internal i j

/-- **Both runs draw an identity**, and these stand for each other from now on. -/
theorem freshValue (hfits : L.Fits s t) :
    L.Agrees (fun L' v w => L'.Same Renaming.value v w) (Analysis.freshValue s)
      (Analysis.freshValue t) := by
  refine .ok ⟨{ L with values := (s.nextValue, t.nextValue) :: L.values }, ?_, ?_, ?_⟩
  · exact ⟨rfl, rfl, rfl, List.subset_cons_self .., List.Subset.refl _⟩
  · exact ⟨hfits.left, hfits.right, hfits.values.cons, hfits.points⟩
  · intro r hr
    exact (hr.value _ (List.mem_cons_self ..)).symm

/-- Both runs draw a branch target. -/
theorem freshPoint (hfits : L.Fits s t) :
    L.Agrees (fun L' p q => L'.Same Renaming.point p q) (Analysis.freshPoint s)
      (Analysis.freshPoint t) := by
  refine .ok ⟨{ L with points := (s.nextPoint, t.nextPoint) :: L.points }, ?_, ?_, ?_⟩
  · exact ⟨rfl, rfl, rfl, List.Subset.refl _, List.subset_cons_self ..⟩
  · exact ⟨hfits.left, hfits.right, hfits.values, hfits.points.cons⟩
  · intro r hr
    exact (hr.point _ (List.mem_cons_self ..)).symm

/-- Both runs draw an identity, or both know it already. -/
theorem drawUnless {c c' : Prop} [Decidable c] [Decidable c'] {i j : ValueId}
    {f : ValueId → Analysis γ} {g : ValueId → Analysis ζ} (hfits : L.Fits s t) (hc : c ↔ c')
    (hij : L.Same Renaming.value i j)
    (hf : ∀ v w s' t' L', L.Grows L' → L'.Fits s' t' → s.Grew s' → t.Grew t' →
      L'.Same Renaming.value v w → L'.Agrees Q (f v s') (g w t')) :
    L.Agrees Q ((if c then (Pure.pure i >>= f) else (Analysis.freshValue >>= f)) s)
      ((if c' then (Pure.pure j >>= g) else (Analysis.freshValue >>= g)) t) := by
  by_cases h : c
  · rw [if_pos h, if_pos (hc.1 h)]
    exact hf i j s t L (.refl L) hfits (.refl s) (.refl t) hij
  · rw [if_neg h, if_neg (mt hc.2 h)]
    refine (freshValue hfits).bind fun v w s' t' L' hs ht hgrows hfits' hsame => ?_
    exact hf v w s' t' L' hgrows hfits' (.freshValue hs) (.freshValue ht) hsame

end Agrees

/-! ### Simulation -/

/-- **The second run simulates the first**: if the first ends well, so does the second, with a result
that is related up to a grown link. -/
def Simulates (L : Link) (R : Link → α → β → Prop) (x : Outcome Diagnostic (α × Fresh))
    (y : Outcome Diagnostic (β × Fresh)) : Prop :=
  ∀ a s, x = .ok (a, s) → ∃ b t, y = .ok (b, t) ∧ ∃ L', L.Grows L' ∧ L'.Fits s t ∧ R L' a b

/-- Runs that agree simulate each other. -/
theorem Agrees.simulates {R : Link → α → β → Prop} {x : Outcome Diagnostic (α × Fresh)}
    {y : Outcome Diagnostic (β × Fresh)} (h : L.Agrees R x y) : L.Simulates R x y := by
  rintro a s rfl
  cases h with
  | ok h => exact ⟨_, _, rfl, h⟩

namespace Simulates

variable {R : Link → α → β → Prop} {Q : Link → γ → ζ → Prop}

theorem of_grows {x : Outcome Diagnostic (α × Fresh)} {y : Outcome Diagnostic (β × Fresh)}
    (h : L'.Simulates R x y) (hL : L.Grows L') : L.Simulates R x y := by
  intro a s hx
  obtain ⟨b, t, hy, L'', hgrows, hfits, hR⟩ := h a s hx
  exact ⟨b, t, hy, L'', hL.trans hgrows, hfits, hR⟩

/-- **A sequence is simulated if its steps are.** -/
theorem bind {x : Analysis α} {y : Analysis β} {f : α → Analysis γ} {g : β → Analysis ζ}
    (h : L.Simulates R (x s) (y t))
    (hf : ∀ a b s' t' L', x s = .ok (a, s') → y t = .ok (b, t') → L.Grows L' → L'.Fits s' t' →
      R L' a b → L'.Simulates Q (f a s') (g b t')) :
    L.Simulates Q ((x >>= f) s) ((y >>= g) t) := by
  intro c s'' hxf
  obtain ⟨a, s', hx, hc⟩ := Analysis.bind_ok hxf
  obtain ⟨b, t', hy, L', hgrows, hfits, hR⟩ := h a s' hx
  rw [Analysis.bind_of_ok hy]
  exact (hf a b s' t' L' hx hy hgrows hfits hR).of_grows hgrows c s'' hc

theorem pure {a : α} {b : β} (hfits : L.Fits s t) (h : R L a b) :
    L.Simulates R ((Pure.pure a : Analysis α) s) ((Pure.pure b : Analysis β) t) :=
  (Agrees.pure hfits h).simulates

/-- A run that ends in a diagnostic is simulated by any. -/
theorem fail {c : Cause} {l : Location} {y : Outcome Diagnostic (β × Fresh)} :
    L.Simulates R ((Analysis.fail c l : Analysis α) s) y := nofun

end Simulates

end Link

end RangeTyping
