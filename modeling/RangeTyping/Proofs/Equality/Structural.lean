import Mathlib
import RangeTyping.Proofs.Equality

/-!
# Types are the same if no way leads to a difference

A type is made of components, and a struct of its members, so a type that has structs in it is in
general an infinite tree.  Two types are alike (`Ty.Alike`) if no path of components, however long,
leads to a place where they show a difference: in the kind of type, the qualifiers, a count, the
format of a scalar, or the name, completeness and member names of a struct (`Ty.Head`).

`Ty.same_iff_alike` says that the comparison of types decides this.  Meeting a pair of structs that
is being compared counts as no difference.  That never hides one: a pair that is being compared is
nearer to the start than what is compared now, so the nearest difference does not lie behind it
(`StructStore.sameStruct_eq_false`).  Nothing here depends on how structs refer to each other.

The comparison can be run with a stack of the pairs that are being compared, which is pushed and
popped on the way (`StructStore.compareStruct`).  It ends for every store, with the same answer, and
leaves the stack as it found it (`Ty.gives_compare`).
-/

namespace RangeTyping

/-! ### Paths -/

/-- A step from a type to one that it is made of. -/
inductive Component where
  | result
  | argument (k : Nat)
  | pointee
  | element
  | member (k : Nat)
deriving DecidableEq, Repr

namespace Ty

/-- What a type shows without its components.  A struct that is not defined shows no members. -/
inductive Head where
  | scalar (flags : Flags) (size alignment : Nat) (kind : ScalarKind)
  | function (flags : Flags) (arity : Nat)
  | pointer (flags : Flags)
  | array (flags : Flags) (count : Nat)
  | struct (flags : Flags) (name : Option String) (members : Option (List String))
deriving DecidableEq, Repr

/-- What the type shows. -/
def head (S : StructStore) : Ty → Head
  | .scalar f s => .scalar f s.size s.alignment s.kind
  | .function f as _ => .function f as.length
  | .pointer f _ => .pointer f
  | .array f _ n => .array f n
  | .struct f i => .struct f (S.name? i) ((S.layout? i).map (·.members.map (·.name)))

/-- The component of a type. -/
def component? (S : StructStore) : Ty → Component → Option Ty
  | .function _ _ r, .result => some r
  | .function _ as _, .argument k => as[k]?
  | .pointer _ t, .pointee => some t
  | .array _ t _, .element => some t
  | .struct _ i, .member k => (S.layout? i).bind fun l => l.members[k]?.map (·.type)
  | _, _ => none

/-- The type at the end of a path. -/
def at? (S : StructStore) : List Component → Ty → Option Ty
  | [], t => some t
  | c :: path, t => (t.component? S c).bind (at? S path)

/-- **The path leads to a difference** between the types. -/
def Mismatch (S : StructStore) (path : List Component) (t u : Ty) : Prop :=
  ∃ t' u', t.at? S path = some t' ∧ u.at? S path = some u' ∧ t'.head S ≠ u'.head S

/-- **No path leads to a difference** between the types. -/
def Alike (S : StructStore) (t u : Ty) : Prop := ∀ path, ¬ Mismatch S path t u

variable {S : StructStore} {t u v t' u' : Ty} {c : Component} {path : List Component} {f g : Flags}
  {i j : StructId}

theorem mismatch_nil : Mismatch S [] t u ↔ t.head S ≠ u.head S := by
  simp [Mismatch, at?]

theorem mismatch_cons : Mismatch S (c :: path) t u ↔
    ∃ t' u', t.component? S c = some t' ∧ u.component? S c = some u' ∧ Mismatch S path t' u' := by
  constructor
  · rintro ⟨t'', u'', ht, hu, hne⟩
    obtain ⟨t', ht', ht⟩ := Option.bind_eq_some_iff.1 ht
    obtain ⟨u', hu', hu⟩ := Option.bind_eq_some_iff.1 hu
    exact ⟨t', u', ht', hu', t'', u'', ht, hu, hne⟩
  · rintro ⟨t', u', ht', hu', t'', u'', ht, hu, hne⟩
    refine ⟨t'', u'', ?_, ?_, hne⟩
    · rw [at?, ht']
      exact ht
    · rw [at?, hu']
      exact hu

/-- A type does not differ from itself. -/
theorem not_mismatch_self : ¬ Mismatch S path t t := by
  rintro ⟨t', u', ht, hu, hne⟩
  rw [ht] at hu
  exact hne (congrArg _ (Option.some.inj hu))

/-- Differences between structs show with any qualifiers. -/
theorem mismatch_struct (h : f = g) :
    Mismatch S path (.struct f i) (.struct g j) ↔
      Mismatch S path (.struct .none i) (.struct .none j) := by
  subst h
  cases path with
  | nil => simp [mismatch_nil, head]
  | cons c path => cases c <;> simp [mismatch_cons, component?]

/-! ### Types that are alike -/

/-- Types that show the same have the same components. -/
theorem exists_component? (h : t.head S = u.head S) (ht : t.component? S c = some t') :
    ∃ u', u.component? S c = some u' := by
  cases t <;> cases u <;> simp only [head, reduceCtorEq] at h
  case scalar.scalar => cases ht
  case function.function f as r g bs q =>
    obtain ⟨-, hlen⟩ := Head.function.inj h
    cases c with
    | result => exact ⟨q, rfl⟩
    | argument k =>
      obtain ⟨hk, -⟩ := List.getElem?_eq_some_iff.1 ht
      exact ⟨_, List.getElem?_eq_getElem (hlen ▸ hk)⟩
    | pointee | element | member => cases ht
  case pointer.pointer f t g u =>
    cases c with
    | pointee => exact ⟨u, rfl⟩
    | result | argument | element | member => cases ht
  case array.array f t n g u m =>
    cases c with
    | element => exact ⟨u, rfl⟩
    | result | argument | pointee | member => cases ht
  case struct.struct f i g j =>
    obtain ⟨-, -, hnames⟩ := Head.struct.inj h
    cases c with
    | member k =>
      obtain ⟨a, ha, hm⟩ := Option.bind_eq_some_iff.1 ht
      obtain ⟨m, hm, -⟩ := Option.map_eq_some_iff.1 hm
      rw [ha, Option.map_some, eq_comm, Option.map_eq_some_iff] at hnames
      obtain ⟨b, hb, hnames⟩ := hnames
      -- structs show the names of their members, so that they have as many
      have hlen : b.members.length = a.members.length := by
        simpa only [List.length_map] using congrArg List.length hnames
      obtain ⟨hk, -⟩ := List.getElem?_eq_some_iff.1 hm
      rw [← hlen] at hk
      exact ⟨b.members[k].type, by simp [component?, hb, hk]⟩
    | result | argument | pointee | element => cases ht

namespace Alike

theorem head_eq (h : Alike S t u) : t.head S = u.head S := by
  by_contra hne
  exact h [] (mismatch_nil.2 hne)

theorem component (h : Alike S t u) (ht : t.component? S c = some t')
    (hu : u.component? S c = some u') : Alike S t' u' := by
  intro path hpath
  exact h (c :: path) (mismatch_cons.2 ⟨t', u', ht, hu, hpath⟩)

theorem refl (t : Ty) : Alike S t t := fun _ => not_mismatch_self

theorem symm (h : Alike S t u) : Alike S u t := by
  rintro path ⟨u', t', hu, ht, hne⟩
  exact h path ⟨t', u', ht, hu, hne.symm⟩

/-- What is at the end of a path in one is so in the other, and shows the same. -/
theorem exists_at? (h : Alike S t u) (ht : t.at? S path = some t') :
    ∃ u', u.at? S path = some u' ∧ t'.head S = u'.head S := by
  induction path generalizing t u with
  | nil =>
    obtain rfl := Option.some.inj ht
    exact ⟨u, rfl, h.head_eq⟩
  | cons c path ih =>
    obtain ⟨t₁, ht₁, ht⟩ := Option.bind_eq_some_iff.1 ht
    obtain ⟨u₁, hu₁⟩ := exists_component? h.head_eq ht₁
    obtain ⟨u', hu', hhead⟩ := ih (h.component ht₁ hu₁) ht
    refine ⟨u', ?_, hhead⟩
    rw [at?, hu₁]
    exact hu'

theorem trans (h : Alike S t u) (h' : Alike S u v) : Alike S t v := by
  rintro path ⟨t', v', ht, hv, hne⟩
  obtain ⟨u', hu, htu⟩ := h.exists_at? ht
  exact h' path ⟨u', v', hu, hv, htu ▸ hne⟩

/-- Structs are alike with any qualifiers that are the same. -/
theorem struct (h : Alike S (.struct f i) (.struct g j)) :
    f = g ∧ Alike S (.struct .none i) (.struct .none j) := by
  obtain ⟨hf, -, -⟩ := Head.struct.inj h.head_eq
  exact ⟨hf, fun path hpath => h path ((mismatch_struct hf).2 hpath)⟩

end Alike

/-! ### Comparing types, given a comparison of structs -/

variable {same : StructId → StructId → Bool}

theorem length_eq_of_sameAllWith : ∀ {ts us : List Ty}, sameAllWith same ts us = true →
    ts.length = us.length
  | [], [], _ => rfl
  | [], _ :: _, h => by simp [sameAllWith] at h
  | _ :: _, [], h => by simp [sameAllWith] at h
  | _ :: _, _ :: _, h => by
    rw [sameAllWith, Bool.and_eq_true] at h
    rw [List.length_cons, List.length_cons, length_eq_of_sameAllWith h.2]

theorem sameWith_of_sameAllWith : ∀ {ts us : List Ty} {k : Nat}, sameAllWith same ts us = true →
    ts[k]? = some t → us[k]? = some u → sameWith same t u = true
  | [], _, k, _, ht, _ => by simp at ht
  | _ :: _, [], k, _, _, hu => by simp at hu
  | a :: ts, b :: us, k, h, ht, hu => by
    rw [sameAllWith, Bool.and_eq_true] at h
    cases k with
    | zero =>
      obtain rfl := Option.some.inj ht
      obtain rfl := Option.some.inj hu
      exact h.1
    | succ k => exact sameWith_of_sameAllWith h.2 ht hu

/-- **A path to a difference is found**, if those that start at a struct in it are. -/
theorem sameWith_eq_false {n : Nat}
    (hsame : ∀ i j path, path.length ≤ n → Mismatch S path (.struct .none i) (.struct .none j) →
      same i j = false) (hlen : path.length ≤ n) (h : Mismatch S path t u) :
    sameWith same t u = false := by
  -- by induction on the path: what is compared equal shows the same, and so do its components
  rw [Bool.eq_false_iff]
  intro htrue
  induction path generalizing t u with
  | nil =>
    rw [mismatch_nil] at h
    cases t <;> cases u <;> simp only [sameWith, Bool.and_eq_true, beq_iff_eq] at htrue
    case scalar.scalar f a g b =>
      simp only [Scalar.same, Bool.and_eq_true, beq_iff_eq] at htrue
      simp [head, htrue.1, htrue.2.1.1, htrue.2.1.2, htrue.2.2] at h
    case function.function f as r g bs q =>
      simp [head, htrue.1.1, length_eq_of_sameAllWith htrue.2] at h
    case pointer.pointer f t g u => simp [head, htrue.1] at h
    case array.array f t a g u b => simp [head, htrue.1.1, htrue.1.2] at h
    case struct.struct f i g j =>
      have hfalse := hsame i j [] hlen ((mismatch_struct htrue.1).1 (mismatch_nil.2 h))
      exact absurd htrue.2 (by simp [hfalse])
    all_goals exact absurd htrue Bool.false_ne_true
  | cons c path ih =>
    have hpath : path.length ≤ n := (Nat.le_succ _).trans hlen
    obtain ⟨t', u', ht, hu, hrest⟩ := mismatch_cons.1 h
    cases t <;> cases u <;> simp only [sameWith, Bool.and_eq_true, beq_iff_eq] at htrue
    case scalar.scalar => exact absurd ht (by simp [component?])
    case function.function f as r g bs q =>
      cases c with
      | result =>
        obtain rfl := Option.some.inj ht
        obtain rfl := Option.some.inj hu
        exact ih hpath hrest htrue.1.2
      | argument k => exact ih hpath hrest (sameWith_of_sameAllWith htrue.2 ht hu)
      | pointee | element | member => cases ht
    case pointer.pointer f t g u =>
      cases c with
      | pointee =>
        obtain rfl := Option.some.inj ht
        obtain rfl := Option.some.inj hu
        exact ih hpath hrest htrue.2
      | result | argument | element | member => cases ht
    case array.array f t a g u b =>
      cases c with
      | element =>
        obtain rfl := Option.some.inj ht
        obtain rfl := Option.some.inj hu
        exact ih hpath hrest htrue.2
      | result | argument | pointee | member => cases ht
    case struct.struct f i g j =>
      have hfalse := hsame i j (c :: path) hlen ((mismatch_struct htrue.1).1 h)
      exact absurd htrue.2 (by simp [hfalse])
    all_goals exact absurd htrue Bool.false_ne_true

mutual
/-- **Types that are alike compare equal**, if structs that are alike do. -/
theorem sameWith_of_alike
    (hsame : ∀ i j, Alike S (.struct .none i) (.struct .none j) → same i j = true) :
    ∀ t u : Ty, Alike S t u → sameWith same t u = true
  | .scalar f a, u, h => by
    have hhead := h.head_eq
    cases u <;> simp only [head, reduceCtorEq, Head.scalar.injEq] at hhead
    simp [sameWith, Scalar.same, hhead]
  | .function f as r, u, h => by
    have hhead := h.head_eq
    cases u <;> simp only [head, reduceCtorEq, Head.function.injEq] at hhead
    rename_i g bs q
    have hresult := sameWith_of_alike hsame r q (h.component (c := .result) rfl rfl)
    have harguments := sameAllWith_of_alike hsame as bs hhead.2 fun k t u ht hu =>
      h.component (c := .argument k) ht hu
    simp [sameWith, hhead.1, hresult, harguments]
  | .pointer f t, u, h => by
    have hhead := h.head_eq
    cases u <;> simp only [head, reduceCtorEq, Head.pointer.injEq] at hhead
    rename_i g u
    have hpointee := sameWith_of_alike hsame t u (h.component (c := .pointee) rfl rfl)
    simp [sameWith, hhead, hpointee]
  | .array f t n, u, h => by
    have hhead := h.head_eq
    cases u <;> simp only [head, reduceCtorEq, Head.array.injEq] at hhead
    rename_i g u m
    have helement := sameWith_of_alike hsame t u (h.component (c := .element) rfl rfl)
    simp [sameWith, hhead.1, hhead.2, helement]
  | .struct f i, u, h => by
    have hhead := h.head_eq
    cases u <;> simp only [head, reduceCtorEq] at hhead
    rename_i g j
    simp [sameWith, h.struct.1, hsame i j h.struct.2]

theorem sameAllWith_of_alike
    (hsame : ∀ i j, Alike S (.struct .none i) (.struct .none j) → same i j = true) :
    ∀ ts us : List Ty, ts.length = us.length →
      (∀ (k : Nat) t u, ts[k]? = some t → us[k]? = some u → Alike S t u) →
      sameAllWith same ts us = true
  | [], [], _, _ => rfl
  | [], _ :: _, hlen, _ => by simp at hlen
  | _ :: _, [], hlen, _ => by simp at hlen
  | t :: ts, u :: us, hlen, h => by
    have hhead := sameWith_of_alike hsame t u (h 0 t u rfl rfl)
    have hrest := sameAllWith_of_alike hsame ts us (Nat.succ.inj hlen) fun k t u ht hu =>
      h (k + 1) t u ht hu
    simp [sameAllWith, hhead, hrest]
end

end Ty

/-! ### Structs -/

namespace Member

variable {same : Ty → Ty → Bool}

theorem names_eq_of_sameAllWith : ∀ {ms ns : List Member}, sameAllWith same ms ns = true →
    ms.map (·.name) = ns.map (·.name)
  | [], [], _ => rfl
  | [], _ :: _, h => by simp [sameAllWith] at h
  | _ :: _, [], h => by simp [sameAllWith] at h
  | _ :: _, _ :: _, h => by
    simp only [sameAllWith, Bool.and_eq_true, beq_iff_eq] at h
    rw [List.map_cons, List.map_cons, h.1.1, names_eq_of_sameAllWith h.2]

theorem same_of_sameAllWith : ∀ {ms ns : List Member} {k : Nat} {m n : Member},
    sameAllWith same ms ns = true → ms[k]? = some m → ns[k]? = some n →
    same m.type n.type = true
  | [], _, k, m, n, _, hm, _ => by simp at hm
  | _ :: _, [], k, m, n, _, _, hn => by simp at hn
  | a :: ms, b :: ns, k, m, n, h, hm, hn => by
    simp only [sameAllWith, Bool.and_eq_true, beq_iff_eq] at h
    cases k with
    | zero =>
      obtain rfl := Option.some.inj hm
      obtain rfl := Option.some.inj hn
      exact h.1.2
    | succ k => exact same_of_sameAllWith h.2 hm hn

theorem sameAllWith_of_names_eq : ∀ {ms ns : List Member}, ms.map (·.name) = ns.map (·.name) →
    (∀ (k : Nat) m n, ms[k]? = some m → ns[k]? = some n → same m.type n.type = true) →
    sameAllWith same ms ns = true
  | [], [], _, _ => rfl
  | [], _ :: _, hnames, _ => by simp at hnames
  | _ :: _, [], hnames, _ => by simp at hnames
  | m :: ms, n :: ns, hnames, h => by
    rw [List.map_cons, List.map_cons, List.cons.injEq] at hnames
    have hrest := sameAllWith_of_names_eq hnames.2 fun k m n hm hn => h (k + 1) m n hm hn
    simp [sameAllWith, hnames.1, h 0 m n rfl rfl, hrest]

end Member

namespace StructStore

open Ty (Mismatch Alike)

variable {S : StructStore} {i j : StructId} {fuel : Nat} {assumed : List (StructId × StructId)}

theorem lt_size_of_layout? {l : Layout} (h : S.layout? i = some l) : i < S.size := by
  obtain ⟨body, hbody, -⟩ := Option.bind_eq_some_iff.1 h
  exact (Array.getElem?_eq_some_iff.1 hbody).1

/-- The pairs of structs of the store that are not assumed to be the same. -/
def unassumed (S : StructStore) (assumed : List (StructId × StructId)) :
    Finset (StructId × StructId) :=
  (Finset.range S.size ×ˢ Finset.range S.size) \ assumed.toFinset

theorem card_unassumed_nil (S : StructStore) : (S.unassumed []).card = S.size * S.size := by
  simp [unassumed]

/-- Only structs that are defined are looked into, so every comparison inside another leaves fewer
pairs. -/
theorem card_unassumed_cons_lt {a b : Layout} (hi : S.layout? i = some a)
    (hj : S.layout? j = some b) (hnew : (i, j) ∉ assumed) :
    (S.unassumed ((i, j) :: assumed)).card < (S.unassumed assumed).card := by
  rw [unassumed, List.toFinset_cons, Finset.sdiff_insert]
  apply Finset.card_erase_lt_of_mem
  simp [lt_size_of_layout? hi, lt_size_of_layout? hj, hnew]

/-- What a comparison of two structs does: it compares what they show, and their members. -/
theorem sameStruct_succ (hne : i ≠ j) (hnew : (i, j) ∉ assumed) :
    S.sameStruct (fuel + 1) assumed i j = true ↔
      (Ty.struct .none i).head S = (Ty.struct .none j).head S ∧
      ∀ k t u, (Ty.struct .none i).component? S (.member k) = some t →
        (Ty.struct .none j).component? S (.member k) = some u →
        Ty.sameWith (S.sameStruct fuel ((i, j) :: assumed)) t u = true := by
  rw [sameStruct, if_neg (by simpa using hne)]
  by_cases hname : S.name? i = S.name? j
  case neg => simp [hname, Ty.head]
  rw [if_neg (by simpa using hname), if_neg (by simpa using hnew)]
  cases hi : S.layout? i with
  | none =>
    cases hj : S.layout? j with
    | none => simp [Ty.head, Ty.component?, hname, hi, hj]
    | some b => simp [Ty.head, hi, hj]
  | some a =>
    cases hj : S.layout? j with
    | none => simp [Ty.head, hi, hj]
    | some b =>
      simp only [Ty.head, Ty.component?, hi, hj, hname, Option.map_some, Option.bind_some,
        Ty.Head.struct.injEq, Option.some.injEq, true_and]
      constructor
      · intro h
        refine ⟨Member.names_eq_of_sameAllWith h, fun k t u ht hu => ?_⟩
        obtain ⟨m, hm, rfl⟩ := Option.map_eq_some_iff.1 ht
        obtain ⟨n, hn, rfl⟩ := Option.map_eq_some_iff.1 hu
        exact Member.same_of_sameAllWith h hm hn
      · rintro ⟨hnames, h⟩
        refine Member.sameAllWith_of_names_eq hnames fun k m n hm hn => ?_
        exact h k m.type n.type (by rw [hm, Option.map_some]) (by rw [hn, Option.map_some])

/-- **The nearest difference between two structs is found**, if no pair that is assumed to be the
same has one that is as near. -/
theorem sameStruct_eq_false {n : Nat} {path : List Component}
    (hfuel : (S.unassumed assumed).card < fuel) (hlen : path.length ≤ n)
    (h : Mismatch S path (.struct .none i) (.struct .none j))
    (hassumed : ∀ p ∈ assumed, ∀ path : List Component, path.length ≤ n →
      ¬ Mismatch S path (.struct .none p.1) (.struct .none p.2)) :
    S.sameStruct fuel assumed i j = false := by
  rw [Bool.eq_false_iff]
  intro htrue
  induction n using Nat.strong_induction_on generalizing fuel assumed i j path with
  | _ n ih =>
    have hne : i ≠ j := by
      rintro rfl
      exact Ty.not_mismatch_self h
    have hnew : (i, j) ∉ assumed := fun hmem => hassumed _ hmem path hlen h
    obtain ⟨fuel, rfl⟩ : ∃ n, fuel = n + 1 := ⟨fuel - 1, by omega⟩
    by_cases hnear : ∃ p, p.length < n ∧ Mismatch S p (.struct .none i) (.struct .none j)
    case pos =>
      obtain ⟨p, hp, hmismatch⟩ := hnear
      exact ih p.length hp hfuel le_rfl hmismatch
        (fun q hq path hpath => hassumed q hq path (by omega)) htrue
    -- the path is a shortest one, so no pair that is assumed below has a difference within its rest
    obtain ⟨hhead, hmembers⟩ := (sameStruct_succ hne hnew).1 htrue
    cases path with
    | nil => exact Ty.mismatch_nil.1 h hhead
    | cons c path =>
      rw [List.length_cons] at hlen
      obtain ⟨t, u, ht, hu, hrest⟩ := Ty.mismatch_cons.1 h
      cases c with
      | member k =>
        obtain ⟨a, hi, -⟩ := Option.bind_eq_some_iff.1 ht
        obtain ⟨b, hj, -⟩ := Option.bind_eq_some_iff.1 hu
        have hfewer := card_unassumed_cons_lt hi hj hnew
        have hfalse : Ty.sameWith (S.sameStruct fuel ((i, j) :: assumed)) t u = false := by
          refine Ty.sameWith_eq_false (fun i' j' p hp hmismatch => ?_) le_rfl hrest
          rw [Bool.eq_false_iff]
          apply ih path.length (by omega) (by omega) hp hmismatch
          rw [List.forall_mem_cons]
          refine ⟨fun q hq hmismatch => hnear ⟨q, by omega, hmismatch⟩, ?_⟩
          exact fun q hq path hpath => hassumed q hq path (by omega)
        rw [hmembers k t u ht hu] at hfalse
        cases hfalse
      | result | argument | pointee | element => cases ht

/-- Structs that are alike are the same, whatever is assumed. -/
theorem sameStruct_of_alike (fuel : Nat) (assumed : List (StructId × StructId))
    (h : Alike S (.struct .none i) (.struct .none j)) : S.sameStruct fuel assumed i j = true := by
  induction fuel generalizing assumed i j with
  | zero => rfl
  | succ fuel ih =>
    by_cases hne : i = j
    case pos => rw [hne, sameStruct_self]
    by_cases hnew : (i, j) ∈ assumed
    case pos =>
      obtain ⟨-, hname, -⟩ := Ty.Head.struct.inj h.head_eq
      simp [sameStruct, hname, hnew]
    refine (sameStruct_succ hne hnew).2 ⟨h.head_eq, fun k t u ht hu => ?_⟩
    exact Ty.sameWith_of_alike (fun i j => ih _) t u (h.component ht hu)

end StructStore

/-! ### Equality -/

namespace Ty

variable {S : StructStore} {t u v : Ty}

/-- **Types are the same exactly if they are alike.** -/
theorem same_iff_alike : t.same S u = true ↔ Alike S t u := by
  constructor
  · intro h path hpath
    have hfalse : t.same S u = false := by
      refine sameWith_eq_false (fun i j p hp hmismatch => ?_) le_rfl hpath
      refine StructStore.sameStruct_eq_false ?_ hp hmismatch (by simp)
      rw [S.card_unassumed_nil]
      omega
    rw [h] at hfalse
    cases hfalse
  · exact sameWith_of_alike (fun i j => StructStore.sameStruct_of_alike _ _) t u

theorem same_comm (t u : Ty) : t.same S u = u.same S t := by
  rw [Bool.eq_iff_iff, same_iff_alike, same_iff_alike]
  exact ⟨Alike.symm, Alike.symm⟩

theorem same_trans (h : t.same S u = true) (h' : u.same S v = true) : t.same S v = true := by
  rw [same_iff_alike] at h h' ⊢
  exact h.trans h'

/-- Types that are the same are so compared with anything. -/
theorem same_congr_left (h : t.same S u = true) (v : Ty) : t.same S v = u.same S v := by
  rw [Bool.eq_iff_iff]
  exact ⟨same_trans (same_comm t u ▸ h), same_trans h⟩

/-! ### Digests -/

variable {same : StructId → StructId → Bool}

mutual
theorem digest_eq_of_sameWith (hsame : ∀ i j, same i j = true → S.name? i = S.name? j) :
    ∀ t u : Ty, sameWith same t u = true → t.digest S = u.digest S
  | .scalar f a, u, h => by
    cases u <;> simp only [sameWith, Bool.and_eq_true, beq_iff_eq, Bool.false_eq_true] at h
    simp only [Scalar.same, Bool.and_eq_true, beq_iff_eq] at h
    simp [digest, h]
  | .function f as r, u, h => by
    cases u <;> simp only [sameWith, Bool.and_eq_true, beq_iff_eq, Bool.false_eq_true] at h
    rename_i g bs q
    rw [digest, digest, digest_eq_of_sameWith hsame r q h.1.2,
      digestAll_eq_of_sameAllWith hsame as bs h.2, length_eq_of_sameAllWith h.2, h.1.1]
  | .pointer f t, u, h => by
    cases u <;> simp only [sameWith, Bool.and_eq_true, beq_iff_eq, Bool.false_eq_true] at h
    rw [digest, digest, digest_eq_of_sameWith hsame t _ h.2, h.1]
  | .array f t n, u, h => by
    cases u <;> simp only [sameWith, Bool.and_eq_true, beq_iff_eq, Bool.false_eq_true] at h
    rw [digest, digest, digest_eq_of_sameWith hsame t _ h.2, h.1.1, h.1.2]
  | .struct f i, u, h => by
    cases u <;> simp only [sameWith, Bool.and_eq_true, beq_iff_eq, Bool.false_eq_true] at h
    rw [digest, digest, hsame _ _ h.2, h.1]

theorem digestAll_eq_of_sameAllWith (hsame : ∀ i j, same i j = true → S.name? i = S.name? j) :
    ∀ ts us : List Ty, sameAllWith same ts us = true → digestAll S ts = digestAll S us
  | [], [], _ => rfl
  | [], _ :: _, h => by simp [sameAllWith] at h
  | _ :: _, [], h => by simp [sameAllWith] at h
  | t :: ts, u :: us, h => by
    rw [sameAllWith, Bool.and_eq_true] at h
    rw [digestAll, digestAll, digest_eq_of_sameWith hsame t u h.1,
      digestAll_eq_of_sameAllWith hsame ts us h.2]
end

/-- The same types have the same digest. -/
theorem digest_eq_of_same (h : t.same S u = true) : t.digest S = u.digest S := by
  refine digest_eq_of_sameWith (fun i j hij => ?_) t u h
  by_contra hname
  have hne : ¬ i = j := by
    rintro rfl
    exact hname rfl
  simp [StructStore.sameStruct, hne, hname] at hij

end Ty

/-! ### Comparing with a stack -/

/-- A comparison that keeps a stack of the pairs of structs which are being compared, or has not
ended. -/
abbrev Ty.Comparison := StateT (List (StructId × StructId)) Option

mutual
/-- Compares two types, where `compare` compares structs. -/
def Ty.compareWith (compare : StructId → StructId → Ty.Comparison Bool) :
    Ty → Ty → Ty.Comparison Bool
  | .scalar f s, .scalar g t => return s.same t && f == g
  | .function f as r, .function g bs q => do
    unless ← Ty.compareWith compare r q do return false
    return (← Ty.compareAllWith compare as bs) && f == g
  | .pointer f t, .pointer g u => return (← Ty.compareWith compare t u) && f == g
  | .array f t n, .array g u m => return (← Ty.compareWith compare t u) && n == m && f == g
  | .struct f i, .struct g j => return (← compare i j) && f == g
  | _, _ => return false

/-- Compares two lists of types up to the first difference, where `compare` compares structs. -/
def Ty.compareAllWith (compare : StructId → StructId → Ty.Comparison Bool) :
    List Ty → List Ty → Ty.Comparison Bool
  | [], [] => return true
  | t :: ts, u :: us => do
    unless ← Ty.compareWith compare t u do return false
    Ty.compareAllWith compare ts us
  | _, _ => return false
end

/-- Compares two lists of members up to the first difference, where `compare` compares types. -/
def Member.compareAllWith (compare : Ty → Ty → Ty.Comparison Bool) :
    List Member → List Member → Ty.Comparison Bool
  | [], [] => return true
  | m :: ms, n :: ns => do
    unless m.name == n.name do return false
    unless ← compare m.type n.type do return false
    Member.compareAllWith compare ms ns
  | _, _ => return false

/-- Runs a comparison with the pair on the stack. -/
def Ty.Comparison.within (pair : StructId × StructId) (c : Ty.Comparison Bool) :
    Ty.Comparison Bool := do
  modify (pair :: ·)
  let answer ← c
  modify (·.filter (· != pair))
  return answer

/-- Compares two structs.  The pair is on the stack while their members are compared. -/
def StructStore.compareStruct (S : StructStore) : Nat → StructId → StructId → Ty.Comparison Bool
  | 0, _, _ => failure
  | fuel + 1, i, j => do
    if i == j then return true
    if S.name? i != S.name? j then return false
    if (← get).contains (i, j) then return true
    Ty.Comparison.within (i, j) <|
      match S.layout? i, S.layout? j with
      | none, none => return true
      | some a, some b =>
        Member.compareAllWith (Ty.compareWith (S.compareStruct fuel)) a.members b.members
      | _, _ => return false

/-- Compares two types. -/
def Ty.compare (S : StructStore) (t u : Ty) : Ty.Comparison Bool :=
  Ty.compareWith (S.compareStruct (S.size * S.size + 1)) t u

/-- The comparison ends with the answer, and leaves the stack as it found it. -/
def Ty.Comparison.Gives (c : Ty.Comparison Bool) (stack : List (StructId × StructId))
    (answer : Bool) : Prop :=
  c stack = some (answer, stack)

section Stack

variable {stack : List (StructId × StructId)} {compare : StructId → StructId → Ty.Comparison Bool}
  {same : StructId → StructId → Bool}

theorem Ty.Comparison.gives_pure (answer : Bool) :
    Ty.Comparison.Gives (pure answer) stack answer := rfl

theorem Ty.Comparison.Gives.bind {c : Ty.Comparison Bool} {next : Bool → Ty.Comparison Bool}
    {answer answer' : Bool} (h : c.Gives stack answer) (h' : (next answer).Gives stack answer') :
    Ty.Comparison.Gives (c >>= next) stack answer' := by
  show (c stack).bind (fun p => next p.1 p.2) = some (answer', stack)
  rw [h]
  exact h'

/-- What follows runs only if all was the same so far. -/
theorem Ty.Comparison.Gives.guard {c : Ty.Comparison Bool} {answer : Bool} (same : Bool)
    (h : c.Gives stack answer) :
    Ty.Comparison.Gives (if same = true then c else pure false) stack (same && answer) := by
  cases same with
  | true => exact h
  | false => exact Ty.Comparison.gives_pure _

/-- A pair that is pushed and taken away leaves the stack as it was, if it was not on it. -/
theorem Ty.Comparison.Gives.within {c : Ty.Comparison Bool} {answer : Bool}
    {pair : StructId × StructId} (hnew : pair ∉ stack) (h : c.Gives (pair :: stack) answer) :
    (Ty.Comparison.within pair c).Gives stack answer := by
  have hfilter : (pair :: stack).filter (· != pair) = stack := by
    rw [List.filter_cons_of_neg (by simp), List.filter_eq_self]
    intro p hp
    simpa using ne_of_mem_of_not_mem hp hnew
  show (c (pair :: stack)).bind (fun p => some (p.1, p.2.filter (· != pair))) = some (answer, stack)
  rw [h, Option.bind_some, hfilter]

mutual
theorem Ty.gives_compareWith (h : ∀ i j, (compare i j).Gives stack (same i j)) :
    ∀ t u : Ty, (Ty.compareWith compare t u).Gives stack (Ty.sameWith same t u)
  | .scalar f a, u => by
    cases u with
    | scalar g b =>
      rw [Ty.compareWith, Ty.sameWith, Bool.and_comm]
      exact Ty.Comparison.gives_pure _
    | _ => exact Ty.Comparison.gives_pure _
  | .function f as r, u => by
    cases u with
    | function g bs q =>
      rw [Ty.compareWith, Ty.sameWith, Bool.and_assoc, Bool.and_comm, Bool.and_assoc]
      refine (Ty.gives_compareWith h r q).bind (Ty.Comparison.Gives.guard _ ?_)
      exact (Ty.gives_compareAllWith h as bs).bind (Ty.Comparison.gives_pure _)
    | _ => exact Ty.Comparison.gives_pure _
  | .pointer f t, u => by
    cases u with
    | pointer g u =>
      rw [Ty.compareWith, Ty.sameWith, Bool.and_comm]
      exact (Ty.gives_compareWith h t u).bind (Ty.Comparison.gives_pure _)
    | _ => exact Ty.Comparison.gives_pure _
  | .array f t n, u => by
    cases u with
    | array g u m =>
      rw [Ty.compareWith, Ty.sameWith, Bool.and_comm, Bool.and_comm (f == g), ← Bool.and_assoc]
      exact (Ty.gives_compareWith h t u).bind (Ty.Comparison.gives_pure _)
    | _ => exact Ty.Comparison.gives_pure _
  | .struct f i, u => by
    cases u with
    | struct g j =>
      rw [Ty.compareWith, Ty.sameWith, Bool.and_comm]
      exact (h i j).bind (Ty.Comparison.gives_pure _)
    | _ => exact Ty.Comparison.gives_pure _

theorem Ty.gives_compareAllWith (h : ∀ i j, (compare i j).Gives stack (same i j)) :
    ∀ ts us : List Ty, (Ty.compareAllWith compare ts us).Gives stack (Ty.sameAllWith same ts us)
  | [], [] => Ty.Comparison.gives_pure _
  | [], _ :: _ => Ty.Comparison.gives_pure _
  | _ :: _, [] => Ty.Comparison.gives_pure _
  | t :: ts, u :: us => by
    rw [Ty.compareAllWith, Ty.sameAllWith]
    exact (Ty.gives_compareWith h t u).bind (.guard _ (Ty.gives_compareAllWith h ts us))
end

theorem Member.gives_compareAllWith {compare : Ty → Ty → Ty.Comparison Bool}
    {same : Ty → Ty → Bool} (h : ∀ t u, (compare t u).Gives stack (same t u)) :
    ∀ ms ns : List Member,
      (Member.compareAllWith compare ms ns).Gives stack (Member.sameAllWith same ms ns)
  | [], [] => Ty.Comparison.gives_pure _
  | [], _ :: _ => Ty.Comparison.gives_pure _
  | _ :: _, [] => Ty.Comparison.gives_pure _
  | m :: ms, n :: ns => by
    rw [Member.compareAllWith, Member.sameAllWith, Bool.and_assoc]
    exact .guard _ ((h m.type n.type).bind (.guard _ (Member.gives_compareAllWith h ms ns)))

/-- **A comparison of structs ends**, with the answer that the stack gives if its pairs are assumed
to be the same.  The pair is not on the stack when it is pushed, so taking it away again leaves all
that was there. -/
theorem StructStore.gives_compareStruct {S : StructStore} {fuel : Nat} {i j : StructId}
    (hfuel : (S.unassumed stack).card < fuel) :
    (S.compareStruct fuel i j).Gives stack (S.sameStruct fuel stack i j) := by
  induction fuel generalizing stack i j with
  | zero => omega
  | succ fuel ih =>
    rw [compareStruct, sameStruct]
    by_cases hne : i = j
    case pos =>
      simp only [beq_iff_eq, hne, if_true]
      exact Ty.Comparison.gives_pure _
    by_cases hname : S.name? i = S.name? j
    case neg =>
      simp only [beq_iff_eq, bne_iff_ne, ne_eq, hne, hname, not_false_eq_true, if_true, if_false]
      exact Ty.Comparison.gives_pure _
    simp only [beq_iff_eq, bne_iff_ne, ne_eq, hne, hname, not_true_eq_false, if_false]
    show Ty.Comparison.Gives (if stack.contains (i, j) = true then pure true else _) stack _
    by_cases hnew : (i, j) ∈ stack
    case pos =>
      simp only [List.contains_eq_mem, decide_eq_true_eq, hnew, if_true]
      exact Ty.Comparison.gives_pure _
    simp only [List.contains_eq_mem, decide_eq_true_eq, hnew, if_false]
    apply Ty.Comparison.Gives.within hnew
    cases hi : S.layout? i with
    | none => cases S.layout? j <;> exact Ty.Comparison.gives_pure _
    | some a =>
      cases hj : S.layout? j with
      | none => exact Ty.Comparison.gives_pure _
      | some b =>
        have hfewer := card_unassumed_cons_lt hi hj hnew
        exact Member.gives_compareAllWith
          (Ty.gives_compareWith fun i' j' => ih (by omega)) a.members b.members

/-- The comparison of types ends, whatever is on the stack. -/
theorem Ty.gives_compare (S : StructStore) (t u : Ty) :
    (t.compare S u).Gives stack
      (Ty.sameWith (S.sameStruct (S.size * S.size + 1) stack) t u) := by
  refine Ty.gives_compareWith (fun i j => StructStore.gives_compareStruct ?_) t u
  calc (S.unassumed stack).card
      ≤ (Finset.range S.size ×ˢ Finset.range S.size).card :=
        Finset.card_le_card Finset.sdiff_subset
    _ < S.size * S.size + 1 := by simp

end Stack

/-! ### The main statement -/

/-- **Equality of types decides whether they are built alike**, for every store.  The comparison
ends and leaves its stack as it found it; it answers yes exactly if no path leads to a difference;
this is an equivalence; and types that are the same have the same digest. -/
theorem Ty.same_decides_structural_equality (S : StructStore) :
    (∀ (t u : Ty) stack, ∃ answer, t.compare S u stack = some (answer, stack)) ∧
    (∀ t u : Ty, t.compare S u [] = some (t.same S u, [])) ∧
    (∀ t u : Ty, t.same S u = true ↔ ∀ path, ¬ Ty.Mismatch S path t u) ∧
    Equivalence (fun t u : Ty => t.same S u = true) ∧
    (∀ t u : Ty, t.same S u = true → t.digest S = u.digest S) := by
  refine ⟨fun t u stack => ⟨_, Ty.gives_compare S t u⟩, Ty.gives_compare S, ?_, ?_, ?_⟩
  · exact fun t u => Ty.same_iff_alike
  · constructor
    · exact Ty.same_self S
    · intro t u h
      rwa [Ty.same_comm]
    · exact Ty.same_trans
  · exact fun t u => Ty.digest_eq_of_same

end RangeTyping
