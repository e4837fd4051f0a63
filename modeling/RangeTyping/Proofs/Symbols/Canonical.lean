import Mathlib
import RangeTyping.Proofs.Symbols.Reading

/-!
# When the symbols of anonymous structs are canonical

The symbol of an anonymous struct ends where it comes to a struct that is open.  Equality of types
goes on for ever, so it does not see how a cycle of structs was written down.  The two agree on the
following conditions, and `Ty.symbol_not_canonical` shows that they do not without.

* Types that are the same have one symbol if they are folded (`Ty.Folded`): then the two symbols end
  at the same places.  For the struct that was opened together with one that is open is the same as
  what the other side has come to and has it inside, so the two are one struct
  (`StructStore.sameText_of_alike`).
* Types of one symbol are the same if they are direct (`Ty.Direct`): then a struct that is open is
  the innermost one, so that the symbol need not say which it is
  (`StructStore.sameStruct_of_sameText`).
-/

namespace RangeTyping

open Ty (Alike Reaches)

/-- No other struct inside the struct is the same as it. -/
def StructStore.Unrepeated (S : StructStore) (i : StructId) : Prop :=
  ∀ j, (Ty.struct .none i).Reaches S j →
    (Ty.struct .none i).same S (.struct .none j) = true → i = j

/-- **Every cycle of structs in the type is closed at once**: no struct has a copy of itself inside
it. -/
def Ty.Folded (S : StructStore) (t : Ty) : Prop := ∀ i, t.Reaches S i → S.Unrepeated i

/-- **Structs in the type refer back only to themselves**: no two have each other inside. -/
def Ty.Direct (S : StructStore) (t : Ty) : Prop :=
  ∀ i j, t.Reaches S i → (Ty.struct .none i).Reaches S j → (Ty.struct .none j).Reaches S i → i = j

theorem Ty.Folded.of_reaches {S : StructStore} {t : Ty} {i : StructId} (h : t.Folded S)
    (hi : t.Reaches S i) : (Ty.struct .none i).Folded S := fun j hj => h j (hi.trans hj)

theorem Ty.Direct.of_reaches {S : StructStore} {t : Ty} {i : StructId} (h : t.Direct S)
    (hi : t.Reaches S i) : (Ty.struct .none i).Direct S := fun j k hj => h j k (hi.trans hj)

/-! ### Comparisons of structs that agree -/

namespace Ty

variable {same same' : StructId → StructId → Bool}

mutual
/-- Types that compare equal do so with a comparison that is coarser on the structs in them. -/
theorem sameWith_imp (S : StructStore) : ∀ t u : Ty,
    (∀ i j, t.Reaches S i → u.Reaches S j → same i j = true → same' i j = true) →
    sameWith same t u = true → sameWith same' t u = true
  | .scalar f a, u, _, h => by
    cases u <;> simp only [sameWith, Bool.false_eq_true] at h ⊢
    exact h
  | .function f as r, u, himp, h => by
    cases u <;> simp only [sameWith, Bool.and_eq_true, Bool.false_eq_true] at h ⊢
    rename_i g bs q
    refine ⟨⟨h.1.1, sameWith_imp S r q (fun i j hi hj => ?_) h.1.2⟩,
      sameAllWith_imp S as bs (fun k l t u ht hu i j hi hj => ?_) h.2⟩
    · exact himp i j (hi.of_component (c := .result) rfl) (hj.of_component (c := .result) rfl)
    · exact himp i j (hi.of_component (c := .argument k) ht) (hj.of_component (c := .argument l) hu)
  | .pointer f t, u, himp, h => by
    cases u <;> simp only [sameWith, Bool.and_eq_true, Bool.false_eq_true] at h ⊢
    rename_i g u
    refine ⟨h.1, sameWith_imp S t u (fun i j hi hj => ?_) h.2⟩
    exact himp i j (hi.of_component (c := .pointee) rfl) (hj.of_component (c := .pointee) rfl)
  | .array f t n, u, himp, h => by
    cases u <;> simp only [sameWith, Bool.and_eq_true, Bool.false_eq_true] at h ⊢
    rename_i g u m
    refine ⟨h.1, sameWith_imp S t u (fun i j hi hj => ?_) h.2⟩
    exact himp i j (hi.of_component (c := .element) rfl) (hj.of_component (c := .element) rfl)
  | .struct f i, u, himp, h => by
    cases u <;> simp only [sameWith, Bool.and_eq_true, Bool.false_eq_true] at h ⊢
    exact ⟨h.1, himp _ _ (reaches_struct S _ _) (reaches_struct S _ _) h.2⟩

theorem sameAllWith_imp (S : StructStore) : ∀ ts us : List Ty,
    (∀ (k l : Nat) t u, ts[k]? = some t → us[l]? = some u → ∀ i j, t.Reaches S i → u.Reaches S j →
      same i j = true → same' i j = true) →
    sameAllWith same ts us = true → sameAllWith same' ts us = true
  | [], [], _, _ => rfl
  | [], _ :: _, _, h => by simp [sameAllWith] at h
  | _ :: _, [], _, h => by simp [sameAllWith] at h
  | t :: ts, u :: us, himp, h => by
    rw [sameAllWith, Bool.and_eq_true] at h ⊢
    exact ⟨sameWith_imp S t u (himp 0 0 t u rfl rfl) h.1,
      sameAllWith_imp S ts us (fun k l => himp (k + 1) (l + 1)) h.2⟩
end

end Ty

theorem Ty.component?_member {S : StructStore} {f : Flags} {i : StructId} {l : Layout} {k : Nat}
    (h : S.layout? i = some l) :
    (Ty.struct f i).component? S (.member k) = l.members[k]?.map (·.type) := by
  rw [component?, h, Option.bind_some]

/-! ### Open structs -/

namespace StructStore

variable {S : StructStore} {types : BuiltinTypes} {i j k : StructId}

/-- The structs `outer`, innermost first, are inside each other, and the struct is inside all. -/
def Nested (S : StructStore) (outer : List StructId) (i : StructId) : Prop :=
  (i :: outer).Pairwise fun inner outer => (Ty.struct .none outer).Reaches S inner

variable {outer : List StructId}

theorem nested_nil (S : StructStore) (i : StructId) : S.Nested [] i := List.pairwise_singleton _ _

theorem Nested.reaches (h : S.Nested outer i) (hk : k ∈ outer) : (Ty.struct .none k).Reaches S i :=
  (List.pairwise_cons.1 h).1 k hk

theorem Nested.cons (h : S.Nested outer i) (hk : (Ty.struct .none i).Reaches S k) :
    S.Nested (i :: outer) k := by
  refine List.pairwise_cons.2 ⟨?_, h⟩
  rw [List.forall_mem_cons]
  exact ⟨hk, fun a ha => (h.reaches ha).trans hk⟩

/-- A struct that refers back only to itself is open as the innermost one if it is open. -/
theorem Nested.eq_of_mem (h : S.Nested (k :: outer) i) (hdirect : (Ty.struct .none i).Direct S)
    (hi : i ∈ k :: outer) : i = k := by
  rcases List.mem_cons.1 hi with rfl | hmem
  · rfl
  · have hk : (Ty.struct .none i).Reaches S k :=
      (List.pairwise_cons.1 (List.pairwise_cons.1 h).2).1 i hmem
    exact hdirect i k (Ty.reaches_struct S _ i) hk (h.reaches (List.mem_cons_self ..))

/-! ### Structs written alike -/

variable {pairs : List (StructId × StructId)} {fuel : Nat}

/-- **Structs that are the same are written alike**, if the pairs that are open are the same and
none of their structs is repeated inside. -/
theorem sameText_of_alike (hfuel : (S.unopened (pairs.map (·.1))).card < fuel)
    (hi : (Ty.struct .none i).Anonymous types S) (hj : (Ty.struct .none j).Anonymous types S)
    (hfi : (Ty.struct .none i).Folded S) (hfj : (Ty.struct .none j).Folded S)
    (hni : S.Nested (pairs.map (·.1)) i) (hnj : S.Nested (pairs.map (·.2)) j)
    (hpairs : ∀ p ∈ pairs, Alike S (.struct .none p.1) (.struct .none p.2) ∧
      S.Unrepeated p.1 ∧ S.Unrepeated p.2)
    (h : Alike S (.struct .none i) (.struct .none j)) : S.sameText fuel pairs i j = true := by
  induction fuel generalizing pairs i j with
  | zero => omega
  | succ fuel ih =>
    by_cases hiopen : i ∈ pairs.map (·.1)
    case pos =>
      obtain ⟨⟨_, k⟩, hmem, rfl⟩ := List.mem_map.1 hiopen
      obtain ⟨halike, -, hk⟩ := hpairs _ hmem
      have hkmem : k ∈ pairs.map (·.2) := List.mem_map.2 ⟨_, hmem, rfl⟩
      -- the struct that was opened with `i` is the same as `j` and has it inside
      obtain rfl := hk j (hnj.reaches hkmem) (Ty.same_iff_alike.2 (halike.symm.trans h))
      exact sameText_of_mem hiopen hkmem
    have hjopen : j ∉ pairs.map (·.2) := by
      -- the same argument with the sides exchanged
      intro hjopen
      obtain ⟨⟨k, _⟩, hmem, rfl⟩ := List.mem_map.1 hjopen
      obtain ⟨halike, hk, -⟩ := hpairs _ hmem
      have hkmem : k ∈ pairs.map (·.1) := List.mem_map.2 ⟨_, hmem, rfl⟩
      obtain rfl := hk i (hni.reaches hkmem) (Ty.same_iff_alike.2 (halike.trans h.symm))
      exact hiopen hkmem
    obtain ⟨-, a, ha⟩ := hi.struct i (Ty.reaches_struct S _ i)
    obtain ⟨-, b, hb⟩ := hj.struct j (Ty.reaches_struct S _ j)
    obtain ⟨-, -, hnames⟩ := Ty.Head.struct.inj h.head_eq
    rw [ha, hb, Option.map_some, Option.map_some, Option.some.injEq] at hnames
    rw [sameText_of_notMem hiopen hjopen ha hb]
    refine Member.sameAllWith_of_names_eq hnames fun k m n hm hn => ?_
    have hmc : (Ty.struct .none i).component? S (.member k) = some m.type := by
      rw [Ty.component?_member ha, hm, Option.map_some]
    have hnc : (Ty.struct .none j).component? S (.member k) = some n.type := by
      rw [Ty.component?_member hb, hn, Option.map_some]
    -- the members are the same, so the comparison of types finds them so, down to their structs
    refine Ty.sameWith_imp S m.type n.type (fun i' j' hi' hj' hsame => ?_)
      (Ty.same_iff_alike.2 (h.component hmc hnc))
    have hi' := hi'.of_component hmc
    have hj' := hj'.of_component hnc
    have hfewer := card_unopened_cons_lt ha hiopen
    refine ih (hfewer.trans_le (Nat.le_of_lt_succ hfuel)) (hi.of_reaches hi') (hj.of_reaches hj')
      (hfi.of_reaches hi') (hfj.of_reaches hj') (hni.cons hi') (hnj.cons hj') ?_
      (Ty.same_iff_alike.1 ?_)
    · rw [List.forall_mem_cons]
      exact ⟨⟨h, hfi i (Ty.reaches_struct S _ i), hfj j (Ty.reaches_struct S _ j)⟩, hpairs⟩
    · simpa [Ty.same, Ty.sameWith] using hsame

/-- Structs that refer back only to themselves are open as one pair if both are open. -/
theorem mem_of_direct (hdi : (Ty.struct .none i).Direct S) (hdj : (Ty.struct .none j).Direct S)
    (hni : S.Nested (pairs.map (·.1)) i) (hnj : S.Nested (pairs.map (·.2)) j)
    (hi : i ∈ pairs.map (·.1)) (hj : j ∈ pairs.map (·.2)) : (i, j) ∈ pairs := by
  cases pairs with
  | nil => simp at hi
  | cons p pairs =>
    rw [List.map_cons] at hi hj hni hnj
    rw [hni.eq_of_mem hdi hi, hnj.eq_of_mem hdj hj]
    exact List.mem_cons_self ..

/-- **Structs that are written alike are the same**, given that the pairs that are open are, if they
refer back only to themselves. -/
theorem sameStruct_of_sameText {fuel' : Nat} (hi : (Ty.struct .none i).Anonymous types S)
    (hj : (Ty.struct .none j).Anonymous types S) (hdi : (Ty.struct .none i).Direct S)
    (hdj : (Ty.struct .none j).Direct S) (hni : S.Nested (pairs.map (·.1)) i)
    (hnj : S.Nested (pairs.map (·.2)) j) (h : S.sameText fuel pairs i j = true) :
    S.sameStruct fuel' pairs i j = true := by
  induction fuel generalizing fuel' pairs i j with
  | zero => cases h
  | succ fuel ih =>
    obtain ⟨hiname, a, ha⟩ := hi.struct i (Ty.reaches_struct S _ i)
    obtain ⟨hjname, b, hb⟩ := hj.struct j (Ty.reaches_struct S _ j)
    cases fuel' with
    | zero => rfl
    | succ fuel' =>
      by_cases hne : i = j
      case pos => rw [hne, sameStruct_self]
      by_cases hmem : (i, j) ∈ pairs
      case pos => simp [sameStruct, hiname, hjname, hmem]
      have hiopen : i ∉ pairs.map (·.1) := by
        intro hiopen
        by_cases hjopen : j ∈ pairs.map (·.2)
        -- both are open, and then as the innermost pair, which is assumed to be the same
        · exact hmem (mem_of_direct hdi hdj hni hnj hiopen hjopen)
        · rw [sameText_of_mem_left hiopen hjopen] at h
          cases h
      have hjopen : j ∉ pairs.map (·.2) := by
        intro hjopen
        rw [sameText_of_mem_right hiopen hjopen] at h
        cases h
      rw [sameText_of_notMem hiopen hjopen ha hb] at h
      refine (sameStruct_succ hne hmem).2 ⟨?_, fun k t u ht hu => ?_⟩
      · simp [Ty.head, hiname, hjname, ha, hb, Member.names_eq_of_sameAllWith h]
      · have htext : Ty.sameWith (S.sameText fuel ((i, j) :: pairs)) t u = true := by
          rw [Ty.component?_member ha] at ht
          rw [Ty.component?_member hb] at hu
          obtain ⟨m, hm, rfl⟩ := Option.map_eq_some_iff.1 ht
          obtain ⟨n, hn, rfl⟩ := Option.map_eq_some_iff.1 hu
          exact Member.same_of_sameAllWith h hm hn
        refine Ty.sameWith_imp S t u (fun i' j' hi' hj' h' => ?_) htext
        have hi' := hi'.of_component ht
        have hj' := hj'.of_component hu
        exact ih (hi.of_reaches hi') (hj.of_reaches hj') (hdi.of_reaches hi') (hdj.of_reaches hj')
          (hni.cons hi') (hnj.cons hj') h'

end StructStore

section Types

variable {types : BuiltinTypes} {S : StructStore} {t u : Ty}

/-- Types that are the same are written alike if they are folded. -/
theorem Ty.sameText_of_same (ht : t.Anonymous types S) (hu : u.Anonymous types S)
    (hft : t.Folded S) (hfu : u.Folded S) (h : t.same S u = true) : t.sameText S u = true := by
  refine Ty.sameWith_imp S t u (fun i j hi hj hsame => ?_) h
  refine StructStore.sameText_of_alike (S.card_unopened_lt _) (ht.of_reaches hi) (hu.of_reaches hj)
    (hft.of_reaches hi) (hfu.of_reaches hj) (S.nested_nil i) (S.nested_nil j) (by simp) ?_
  rw [← Ty.same_iff_alike]
  simpa [Ty.same, Ty.sameWith] using hsame

/-- Types that are written alike are the same if their structs refer back only to themselves. -/
theorem Ty.same_of_sameText (ht : t.Anonymous types S) (hu : u.Anonymous types S)
    (hdt : t.Direct S) (hdu : u.Direct S) (h : t.sameText S u = true) : t.same S u = true := by
  refine Ty.sameWith_imp S t u (fun i j hi hj hsame => ?_) h
  exact StructStore.sameStruct_of_sameText (ht.of_reaches hi) (hu.of_reaches hj)
    (hdt.of_reaches hi) (hdu.of_reaches hj) (S.nested_nil i) (S.nested_nil j) hsame

end Types

/-! ### Two lists -/

/-- An anonymous struct with one member. -/
def StructBody.single (name : String) (type : Ty) (size : Nat) : StructBody :=
  ⟨none, some ⟨[⟨name, type, 0⟩], size, size⟩⟩

/-- Two lists, each of which refers back to itself. -/
def twoLists : StructStore :=
  ⟨#[.single "next" (.pointerTo (.struct .none 0)) 8,
    .single "next" (.pointerTo (.struct .none 1)) 8]⟩

section Lists

variable {k j : StructId}

theorem layout?_twoLists (hk : k < 2) :
    twoLists.layout? k = some ⟨[⟨"next", .pointerTo (.struct .none k), 0⟩], 8, 8⟩ := by
  interval_cases k <;> rfl

/-- A list contains itself and the pointer to itself. -/
theorem mem_of_contains_list (hk : k < 2) {u : Ty}
    (h : (Ty.struct .none k).Contains twoLists u) :
    u ∈ [Ty.struct .none k, .pointerTo (.struct .none k)] := by
  induction h with
  | refl => exact List.mem_cons_self ..
  | tail _ hstep ih =>
    obtain ⟨c, hc⟩ := hstep
    rw [List.mem_cons, List.mem_singleton] at ih
    rcases ih with rfl | rfl
    · cases c with
      | member n =>
        rw [Ty.component?_member (layout?_twoLists hk)] at hc
        cases n with
        | zero => simp [← Option.some.inj hc]
        | succ n => simp at hc
      | result | argument | pointee | element => cases hc
    · cases c with
      | pointee => simp [← Option.some.inj hc]
      | result | argument | element | member => cases hc

theorem eq_of_reaches_list (hk : k < 2) (h : (Ty.struct .none k).Reaches twoLists j) : j = k := by
  obtain ⟨f, h⟩ := h
  have hmem := mem_of_contains_list hk h
  simp only [Ty.pointerTo, List.mem_cons, List.not_mem_nil, or_false, reduceCtorEq,
    Ty.struct.injEq] at hmem
  exact hmem.2

theorem anonymous_list (hk : k < 2) :
    (Ty.struct .none k).Anonymous (.ofBackend fun _ => 0) twoLists where
  scalar f s h := by
    have hmem := mem_of_contains_list hk h
    simp [Ty.pointerTo] at hmem
  struct j hj := by
    obtain rfl := eq_of_reaches_list hk hj
    exact ⟨by interval_cases j <;> rfl, _, layout?_twoLists hk⟩

theorem legible_list (hk : k < 2) : (Ty.struct .none k).Legible twoLists := by
  intro i l hi hl
  obtain rfl := eq_of_reaches_list hk hi
  rw [layout?_twoLists hk] at hl
  obtain rfl := Option.some.inj hl
  rw [List.forall_mem_singleton]
  have hname : NoDigit ("next".toList ++ []) := noDigit_of_isName (by decide) []
  rwa [List.append_nil] at hname

theorem folded_list (hk : k < 2) : (Ty.struct .none k).Folded twoLists := by
  intro i hi j hj _
  obtain rfl := eq_of_reaches_list hk hi
  exact (eq_of_reaches_list hk hj).symm

theorem direct_list (hk : k < 2) : (Ty.struct .none k).Direct twoLists := by
  intro i j hi hj _
  obtain rfl := eq_of_reaches_list hk hi
  exact (eq_of_reaches_list hk hj).symm

end Lists

/-! ### The main statement -/

/-- **The symbols of types that are built from builtin scalars and anonymous structs.**  Writing one
ends, with nothing left open.  Two types have one symbol exactly if they are written alike.  Types
that are the same have one symbol if no struct in them has a copy of itself inside, and types of one
symbol are the same if every struct in them refers back only to itself. -/
theorem Ty.symbol_of_anonymous {cookie : Registration → Nat} {S : StructStore} {t u : Ty}
    (ht : t.Anonymous (.ofBackend cookie) S) (hu : u.Anonymous (.ofBackend cookie) S) :
    (t.write S ("", []) = some ((), t.symbol S, [])) ∧
    (t.Legible S → u.Legible S → (t.symbol S = u.symbol S ↔ t.sameText S u = true)) ∧
    (t.Folded S → u.Folded S → t.same S u = true → t.symbol S = u.symbol S) ∧
    (t.Legible S → u.Legible S → t.Direct S → u.Direct S → t.symbol S = u.symbol S →
      t.same S u = true) := by
  refine ⟨?_, Ty.symbol_eq_iff ht hu, fun hft hfu h => ?_, fun hlt hlu hdt hdu h => ?_⟩
  · rw [Ty.writes_write S t "", String.empty_append]
    rfl
  · exact Ty.symbol_eq_of_sameText ht hu (Ty.sameText_of_same ht hu hft hfu h)
  · exact Ty.same_of_sameText ht hu hdt hdu ((Ty.symbol_eq_iff ht hu hlt hlu).1 h)

/-- Two lists are the same, and their symbols say so. -/
theorem Ty.symbol_of_anonymous_list :
    (Ty.struct .none 0).same twoLists (.struct .none 1) = true ∧
      ((Ty.struct .none 0).symbol twoLists = (Ty.struct .none 1).symbol twoLists ↔
        (Ty.struct .none 0).same twoLists (.struct .none 1) = true) := by
  have h0 : 0 < 2 := by decide
  have h1 : 1 < 2 := by decide
  obtain ⟨-, -, hsymbol, hsame⟩ := Ty.symbol_of_anonymous (anonymous_list h0) (anonymous_list h1)
  refine ⟨by decide +kernel, ?_, hsymbol (folded_list h0) (folded_list h1)⟩
  exact hsame (legible_list h0) (legible_list h1) (direct_list h0) (direct_list h1)

/-- Anonymous structs in pairs: a list and the list with its first link written out; two structs
that refer to each other, and one to another that refers to itself; and two whose members have names
that a number or a type can be mistaken for. -/
def knots : StructStore :=
  ⟨#[.single "next" (.pointerTo (.struct .none 0)) 8,
    .single "next" (.pointerTo (.struct .none 0)) 8,
    .single "x" (.pointerTo (.struct .none 3)) 8, .single "y" (.pointerTo (.struct .none 2)) 8,
    .single "x" (.pointerTo (.struct .none 5)) 8, .single "y" (.pointerTo (.struct .none 5)) 8,
    .single "1" (Ty.pointerTo^[11] (.ofScalar (BuiltinTypes.ofBackend fun _ => 0).u8)) 8,
    .single "PPPPPPPPPPP" (.ofScalar (BuiltinTypes.ofBackend fun _ => 0).u8) 1]⟩

/-- **Without the conditions symbols are not canonical.**  A list and the list with its first link
written out are the same and have two symbols.  Structs that differ in which of two open structs
they refer back to have one symbol, and so have structs with a member whose name begins with a
digit. -/
theorem Ty.symbol_not_canonical :
    (∀ i < 8, knots.name? i = none ∧ (knots.layout? i).isSome) ∧
    ((Ty.struct .none 0).same knots (.struct .none 1) = true ∧
      (Ty.struct .none 0).symbol knots = "S01_4nextPS0R" ∧
      (Ty.struct .none 1).symbol knots = "S01_4nextPS01_4nextPS0R") ∧
    ((Ty.struct .none 2).same knots (.struct .none 4) = false ∧
      (Ty.struct .none 2).symbol knots = "S01_1xPS01_1yPS0R" ∧
      (Ty.struct .none 4).symbol knots = "S01_1xPS01_1yPS0R") ∧
    (Ty.struct .none 6).same knots (.struct .none 7) = false ∧
      (Ty.struct .none 6).symbol knots = "S01_11PPPPPPPPPPPU8" ∧
      (Ty.struct .none 7).symbol knots = "S01_11PPPPPPPPPPPU8" := by
  decide +kernel

end RangeTyping
