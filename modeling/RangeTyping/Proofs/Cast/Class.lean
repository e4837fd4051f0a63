import Mathlib
import RangeTyping.Proofs.Cast.Trace
import RangeTyping.Proofs.Equality.Structural
import RangeTyping.Scope.Context

/-!
# Conversions up to the names of types

A search takes types that are the same for one, and keeps the first of them that it meets.  What it
finds is therefore best said of classes of types (`Ty.Class`).  A conversion that is registered
stands for itself, but a decay is made on the spot for the type that the search holds, so decays
between types that are the same count as one (`Cast.Like`, `Cast.Class`).

The conversions of a context are those that were registered in its open scopes, and decays.  In
which scopes they were registered shows in their order only (`LookupContext.Places.castsTo_eq`).  Up
to the order, the classes of the usable conversions into a type depend on its class
(`Cast.into`).
-/

namespace RangeTyping

variable {S : StructStore}

/-! ### Classes of types -/

namespace Ty

variable {t u : Ty} {f : Flags}

theorem flags_eq_of_same (h : t.same S u = true) : t.flags = u.flags := by
  cases t <;> cases u <;> simp only [same, sameWith, Bool.and_eq_true, beq_iff_eq,
    Bool.false_eq_true] at h
  all_goals simp [flags, h]

theorem same_withFlags (h : t.same S u = true) (f : Flags) :
    (t.withFlags f).same S (u.withFlags f) = true := by
  cases t <;> cases u <;> simp only [same, sameWith, Bool.and_eq_true, beq_iff_eq,
    Bool.false_eq_true] at h
  all_goals simp [withFlags, same, sameWith, h]

theorem same_addFlags (h : t.same S u = true) (f : Flags) :
    (t.addFlags f).same S (u.addFlags f) = true := by
  rw [addFlags, addFlags, flags_eq_of_same h]
  exact same_withFlags h _

/-- Types that are the same, as one. -/
def setoid (S : StructStore) : Setoid Ty where
  r t u := t.same S u = true
  iseqv := ⟨same_self S, fun {t u} h => (same_comm t u).symm.trans h, same_trans⟩

/-- **A class of types that are the same.** -/
def Class (S : StructStore) : Type := Quotient (setoid S)

/-- The class of a type. -/
def toClass (S : StructStore) (t : Ty) : Class S := Quotient.mk (setoid S) t

theorem toClass_eq : t.toClass S = u.toClass S ↔ t.same S u = true :=
  ⟨fun h => Quotient.exact (s := setoid S) h, fun h => Quotient.sound (s := setoid S) h⟩

instance : DecidableEq (Class S) := fun x y =>
  Quotient.recOnSubsingleton₂ x y fun _ _ => decidable_of_iff _ toClass_eq.symm

end Ty

/-! ### Classes of conversions -/

namespace Cast

variable {c c' : Cast} {t u : Ty}

/-- The conversion takes the qualifiers off a type. -/
def IsDecay (c : Cast) : Prop := c.destination.flags.isEmpty = true ∧ c ∈ decays c.destination

theorem destination_of_mem_decays (h : c ∈ decays t) : c.destination = t := by
  simp only [decays, List.mem_cons, List.not_mem_nil, or_false] at h
  rcases h with rfl | rfl | rfl <;> rfl

/-- The conversions are one, or decays between types that are the same. -/
def Like (S : StructStore) (c c' : Cast) : Prop :=
  c = c' ∨ c.IsDecay ∧ c'.IsDecay ∧ c.source.same S c'.source = true ∧
    c.destination.same S c'.destination = true

theorem IsDecay.weight (h : c.IsDecay) : c.weight = 0 := by
  have hmem := h.2
  simp only [decays, List.mem_cons, List.not_mem_nil, or_false] at hmem
  rcases hmem with hc | hc | hc <;> rw [hc]

theorem IsDecay.rule (h : c.IsDecay) : c.rule = .always := by
  have hmem := h.2
  simp only [decays, List.mem_cons, List.not_mem_nil, or_false] at hmem
  rcases hmem with hc | hc | hc <;> rw [hc]

theorem IsDecay.transform (h : c.IsDecay) : c.transform = .keep := by
  have hmem := h.2
  simp only [decays, List.mem_cons, List.not_mem_nil, or_false] at hmem
  rcases hmem with hc | hc | hc <;> rw [hc]

namespace Like

theorem refl (c : Cast) : c.Like S c := .inl rfl

theorem symm (h : c.Like S c') : c'.Like S c := by
  rcases h with rfl | ⟨hc, hc', hsource, hdestination⟩
  · exact .refl c
  · rw [Ty.same_comm] at hsource hdestination
    exact .inr ⟨hc', hc, hsource, hdestination⟩

theorem trans {c'' : Cast} (h : c.Like S c') (h' : c'.Like S c'') : c.Like S c'' := by
  rcases h with rfl | ⟨hc, hc', hsource, hdestination⟩
  · exact h'
  · rcases h' with rfl | ⟨-, hc'', hsource', hdestination'⟩
    · exact .inr ⟨hc, hc', hsource, hdestination⟩
    · exact .inr ⟨hc, hc'', Ty.same_trans hsource hsource',
        Ty.same_trans hdestination hdestination'⟩

theorem source (h : c.Like S c') : c.source.same S c'.source = true := by
  rcases h with rfl | ⟨-, -, hsource, -⟩
  · exact Ty.same_self S _
  · exact hsource

theorem destination (h : c.Like S c') : c.destination.same S c'.destination = true := by
  rcases h with rfl | ⟨-, -, -, hdestination⟩
  · exact Ty.same_self S _
  · exact hdestination

theorem weight (h : c.Like S c') : c.weight = c'.weight := by
  rcases h with rfl | ⟨hc, hc', -⟩
  · rfl
  · rw [hc.weight, hc'.weight]

end Like

/-- Conversions that are alike, as one. -/
def setoid (S : StructStore) : Setoid Cast where
  r := Like S
  iseqv := ⟨Like.refl, Like.symm, Like.trans⟩

/-- **A class of conversions that are alike.** -/
def Class (S : StructStore) : Type := Quotient (setoid S)

/-- The class of a conversion. -/
def toClass (S : StructStore) (c : Cast) : Class S := Quotient.mk (setoid S) c

theorem toClass_eq : c.toClass S = c'.toClass S ↔ c.Like S c' :=
  ⟨fun h => Quotient.exact (s := setoid S) h, fun h => Quotient.sound (s := setoid S) h⟩

namespace Class

/-- Where the conversions start. -/
def source : Class S → Ty.Class S :=
  Quotient.lift (fun c => c.source.toClass S) fun _ _ h => Ty.toClass_eq.2 (Like.source h)

/-- Where the conversions end. -/
def destination : Class S → Ty.Class S :=
  Quotient.lift (fun c => c.destination.toClass S) fun _ _ h =>
    Ty.toClass_eq.2 (Like.destination h)

/-- What each of the conversions weighs. -/
def weight : Class S → Weight := Quotient.lift (fun c => c.weight) fun _ _ h => Like.weight h

end Class

@[simp] theorem source_toClass (c : Cast) : (c.toClass S).source = c.source.toClass S := rfl

@[simp] theorem destination_toClass (c : Cast) :
    (c.toClass S).destination = c.destination.toClass S := rfl

@[simp] theorem weight_toClass (c : Cast) : (c.toClass S).weight = c.weight := rfl

/-! ### Conversions into a type -/

/-- The usable ones of the conversions and decays into a type. -/
def arriving (S : StructStore) (casts : List Cast) (implicit : Bool) (t : Ty) : List Cast :=
  (casts.filter (·.destination.same S t) ++
    (if t.flags.isEmpty then decays t else [])).filter (·.usable implicit)

/-- Types that are the same have decays that are alike. -/
theorem map_toClass_decays (ht : t.flags.isEmpty = true) (h : t.same S u = true) :
    (decays t).map (toClass S) = (decays u).map (toClass S) := by
  have hu : u.flags.isEmpty = true := Ty.flags_eq_of_same h ▸ ht
  have hlike : ∀ (f : Flags) (op : CastOp),
      (⟨t.addFlags f, t, 0, .always, op, .keep⟩ : Cast) ∈ decays t →
      (⟨u.addFlags f, u, 0, .always, op, .keep⟩ : Cast) ∈ decays u →
      (⟨t.addFlags f, t, 0, .always, op, .keep⟩ : Cast).toClass S =
        (⟨u.addFlags f, u, 0, .always, op, .keep⟩ : Cast).toClass S := fun f op hmem hmem' =>
    toClass_eq.2 (.inr ⟨⟨ht, hmem⟩, ⟨hu, hmem'⟩, Ty.same_addFlags h f, h⟩)
  simp only [decays, List.map_cons, List.map_nil, List.cons.injEq, and_true]
  refine ⟨hlike _ _ ?_ ?_, hlike _ _ ?_ ?_, hlike _ _ ?_ ?_⟩ <;> simp [decays]

theorem filter_usable_decays (t : Ty) (implicit : Bool) :
    (decays t).filter (·.usable implicit) = decays t := by
  cases implicit <;> rfl

theorem map_toClass_arriving (casts : List Cast) (implicit : Bool) (h : t.same S u = true) :
    (arriving S casts implicit t).map (toClass S) =
      (arriving S casts implicit u).map (toClass S) := by
  have hsame : ∀ c : Cast, c.destination.same S t = c.destination.same S u := by
    intro c
    rw [Ty.same_comm _ t, Ty.same_comm _ u]
    exact Ty.same_congr_left h _
  simp only [arriving, List.filter_append, List.map_append, hsame, ← Ty.flags_eq_of_same h]
  congr 1
  split
  · rename_i ht
    rw [filter_usable_decays, filter_usable_decays]
    exact map_toClass_decays ht h
  · rfl

/-- **The classes of the usable conversions into a class of types.** -/
def into (S : StructStore) (casts : List Cast) (implicit : Bool) :
    Ty.Class S → Multiset (Class S) :=
  Quotient.lift (fun t => ((arriving S casts implicit t).map (toClass S) : Multiset (Class S)))
    fun _ _ h => congrArg _ (map_toClass_arriving casts implicit h)

theorem into_toClass (casts : List Cast) (implicit : Bool) (t : Ty) :
    into S casts implicit (t.toClass S) = ((arriving S casts implicit t).map (toClass S) :) := rfl

/-- The order of the conversions does not matter. -/
theorem into_perm {casts casts' : List Cast} (h : casts.Perm casts') (implicit : Bool) :
    into S casts implicit = into S casts' implicit := by
  funext x
  refine Quotient.inductionOn x fun t => Multiset.coe_eq_coe.2 ?_
  exact (((h.filter _).append_right _).filter _).map _

theorem destination_of_mem_into {casts : List Cast} {implicit : Bool} {x : Ty.Class S}
    {c : Class S} (h : c ∈ into S casts implicit x) : c.destination = x := by
  induction x using Quotient.inductionOn with
  | h t =>
    obtain ⟨c, hc, rfl⟩ := List.mem_map.1 (Multiset.mem_coe.1 h)
    refine Ty.toClass_eq.2 ?_
    rcases List.mem_append.1 (List.mem_filter.1 hc).1 with hc | hc
    · exact (List.mem_filter.1 hc).2
    · split at hc
      · rw [destination_of_mem_decays hc]
        exact Ty.same_self S t
      · cases hc

end Cast

/-! ### Registering conversions -/

/-- The table in which the conversions were registered, one by one. -/
def CastTable.ofCasts (S : StructStore) (casts : List Cast) : CastTable :=
  casts.foldl (fun table c => table.insert S c) []

namespace CastTable

theorem find_insert (t : Ty) (c : Cast) (table : CastTable) :
    find S t (table.insert S c) =
      find S t table ++ if c.destination.same S t then [c] else [] := by
  induction table with
  | nil =>
    rw [insert, find, find, find, List.nil_append]
  | cons entry rest ih =>
    obtain ⟨key, casts⟩ := entry
    rw [insert]
    by_cases hkey : key.same S c.destination = true
    · rw [if_pos hkey, find, find, Ty.same_congr_left hkey t]
      by_cases ht : c.destination.same S t = true
      · simp [ht]
      · simp [ht]
    · rw [if_neg hkey, find, find, ih]
      by_cases ht : key.same S t = true
      · -- the type is not that of the conversion, since the key is
        have hne : ¬ c.destination.same S t = true := by
          rw [Ty.same_comm]
          exact fun h => hkey (Ty.same_trans ht h)
        simp [ht, hne]
      · simp [ht]

/-- **A table finds what was registered for a type**, in order. -/
theorem find_ofCasts (t : Ty) (casts : List Cast) :
    find S t (ofCasts S casts) = casts.filter (·.destination.same S t) := by
  suffices h : ∀ table : CastTable, find S t (casts.foldl (fun table c => table.insert S c) table) =
      find S t table ++ casts.filter (·.destination.same S t) from h []
  intro table
  induction casts generalizing table with
  | nil => rw [List.foldl_nil, List.filter_nil, List.append_nil]
  | cons c rest ih =>
    rw [List.foldl_cons, ih, find_insert, List.filter_cons, List.append_assoc]
    congr 1
    split <;> rfl

end CastTable

/-- **The conversions were registered in the open scopes**: `placed` has those of each scope in the
order of their registration, the innermost scope first. -/
def LookupContext.Places (S : StructStore) (C : LookupContext) (placed : List (List Cast)) : Prop :=
  C.scopes.map (·.casts) = placed.map (CastTable.ofCasts S)

namespace LookupContext

variable {C : LookupContext} {placed : List (List Cast)}

theorem places_new : new.Places S [[]] := rfl

theorem Places.push (h : C.Places S placed) : C.push.Places S ([] :: placed) :=
  congrArg (List.cons _) h

theorem Places.addCast {casts : List Cast} (h : C.Places S (casts :: placed)) (c : Cast) :
    (C.addCast S c).Places S ((casts ++ [c]) :: placed) := by
  rw [Places, scopes, List.map_cons, List.map_cons, List.cons.injEq] at h ⊢
  refine ⟨?_, h.2⟩
  show C.current.casts.insert S c = _
  rw [h.1, CastTable.ofCasts, CastTable.ofCasts, List.foldl_append]
  rfl

theorem Places.foldl_addCast {casts : List Cast} (h : C.Places S (casts :: placed))
    (more : List Cast) :
    (more.foldl (LookupContext.addCast S) C).Places S ((casts ++ more) :: placed) := by
  induction more generalizing C casts with
  | nil => rwa [List.append_nil]
  | cons c rest ih =>
    have hrest := ih (h.addCast c)
    rwa [List.append_assoc] at hrest

/-- A context with a scope for each list of conversions, in which they are registered. -/
def arrange (S : StructStore) (placed : List (List Cast)) : LookupContext :=
  placed.foldr (fun casts C => casts.foldl (addCast S) C.push) .new

theorem places_arrange (placed : List (List Cast)) :
    (arrange S placed).Places S (placed ++ [[]]) := by
  induction placed with
  | nil => exact places_new
  | cons casts placed ih => exact ih.push.foldl_addCast casts

/-- Where the conversions were registered shows only in their order. -/
theorem Places.castsTo_eq (h : C.Places S placed) (t : Ty) :
    C.castGraph.castsTo S t = placed.flatten.filter (·.destination.same S t) ++
      if t.flags.isEmpty then Cast.decays t else [] := by
  rw [CastGraph.castsTo]
  show (C.scopes.map (·.casts)).flatMap _ ++ _ = _
  rw [h, List.flatMap_map]
  simp only [CastTable.find_ofCasts, List.filter_flatten, List.flatMap_def, castGraph,
    Bool.true_and]

end LookupContext

end RangeTyping
