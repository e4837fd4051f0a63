import Mathlib
import RangeTyping.Proofs.Cast.Class
import RangeTyping.Proofs.Cast.Context
import RangeTyping.Proofs.Intact.Search

/-!
# The table of the builtin conversions

The weights of the builtin conversions are chosen so that a conversion between two integers is
always cheaper than any detour over a third (`Cast.weight_lt_detour`).  The table lists each
conversion once, so the conversions into a type start at different types
(`BuiltinTypes.Sole.nodup_sources`), and each is found where it ends (`Setting.mem_castsTo_of_edge`).

Walks along conversions are counted in rounds.  A round adds up the counts of the round before it
(`Search.walkCounts_succ`).
-/

namespace RangeTyping

/-! ### Weights -/

namespace Cast

variable {cookie : Registration → Nat} {a b c : Scalar}

theorem weight_of_widensTo (h : a.widensTo b = true) (hb : b.size ≤ 8) :
    10 ≤ (ofIntegers a b).weight ∧ (ofIntegers a b).weight ≤ 16 := by
  have hlog : Nat.log2 (b.size / a.size) ≤ 3 := by
    by_cases hzero : b.size / a.size = 0
    · rw [hzero]
      decide
    · have hle : b.size / a.size ≤ 8 := (Nat.div_le_self ..).trans hb
      have hlt := (Nat.log2_lt hzero).2 (show b.size / a.size < 2 ^ 4 by omega)
      omega
  rw [ofIntegers, if_pos h]
  dsimp only
  split <;> grind

theorem weight_of_not_widensTo (h : a.widensTo b ≠ true) : (ofIntegers a b).weight = 30 := by
  rw [ofIntegers, if_neg h]

theorem widensTo_trans (hab : a.widensTo b = true) (hbc : b.widensTo c = true) :
    a.widensTo c = true := by
  simp only [Scalar.widensTo, Bool.and_eq_true, decide_eq_true_eq, Bool.or_eq_true, beq_iff_eq,
    Bool.not_eq_true'] at hab hbc ⊢
  refine ⟨hab.1.trans hbc.1, ?_⟩
  rcases hab.2 with hsign | hsign
  · rw [hsign]
    exact hbc.2
  · exact .inr hsign

theorem weight_bounds (a : Scalar)
    (hb : b ∈ (BuiltinTypes.ofBackend cookie).integers) :
    10 ≤ (ofIntegers a b).weight ∧ (ofIntegers a b).weight ≤ 30 := by
  by_cases h : a.widensTo b = true
  · have hbounds := weight_of_widensTo h (BuiltinTypes.sized_of_integer hb).2
    grind
  · rw [weight_of_not_widensTo h]
    grind

/-- **The direct conversion is cheaper than a detour.** -/
theorem weight_lt_detour (a : Scalar)
    (hb : b ∈ (BuiltinTypes.ofBackend cookie).integers)
    (hc : c ∈ (BuiltinTypes.ofBackend cookie).integers) :
    (ofIntegers a c).weight < (ofIntegers a b).weight + (ofIntegers b c).weight := by
  have hab := weight_bounds a hb
  have hbc := weight_bounds b hc
  have hac := weight_bounds a hc
  by_cases hwide : a.widensTo b = true ∧ b.widensTo c = true
  · -- two steps that keep every value make one that does
    have hdirect := weight_of_widensTo (widensTo_trans hwide.1 hwide.2)
      (BuiltinTypes.sized_of_integer hc).2
    grind
  · rcases not_and_or.1 hwide with h | h
    · rw [weight_of_not_widensTo h]
      grind
    · rw [weight_of_not_widensTo h]
      grind

theorem usable_ofIntegers (a b : Scalar) : (ofIntegers a b).usable true = true := by
  unfold ofIntegers
  dsimp only
  split <;> rfl

end Cast

/-! ### Sources -/

namespace BuiltinTypes

variable {cookie : Registration → Nat} {S : StructStore} {G : CastGraph} {t : Ty} {a b : Scalar}
  {c : Cast}

theorem ofIntegers_mem_casts (ha : a ∈ (ofBackend cookie).integers)
    (hb : b ∈ (ofBackend cookie).integers) (hab : a ≠ b) :
    .ofIntegers a b ∈ (ofBackend cookie).casts.casts := by
  have hdiffer : a.same b = false := by
    rw [← Bool.not_eq_true]
    exact fun h => hab (eq_of_same (mem_all_of_integer ha) (mem_all_of_integer hb) h)
  refine List.mem_flatMap.2 ⟨_, List.mem_append_left _ (List.mem_map.2 ⟨b, hb, rfl⟩), ?_⟩
  refine List.mem_append_left _ (List.mem_map.2 ⟨a, List.mem_filter.2 ⟨ha, ?_⟩, rfl⟩)
  rw [hdiffer]
  rfl

/-- Builtin scalars that are the same type are equal. -/
theorem eq_of_same_ofScalar (ha : a ∈ (ofBackend cookie).all) (hb : b ∈ (ofBackend cookie).all)
    (h : (Ty.ofScalar a).same S (.ofScalar b) = true) : a = b := by
  refine eq_of_same ha hb ?_
  simpa [Ty.ofScalar, Ty.same, Ty.sameWith] using h

theorem nodup_integers (cookie : Registration → Nat) : (ofBackend cookie).integers.Nodup := by
  refine List.Nodup.of_map shape ?_
  show ([(4, 4, .signedInt), (8, 8, .signedInt), (4, 4, .unsignedInt), (8, 8, .unsignedInt),
    (2, 2, .signedInt), (2, 2, .unsignedInt), (1, 1, .signedInt), (1, 1, .unsignedInt)] :
      List (Nat × Nat × ScalarKind)).Nodup
  decide

/-- The conversions of an entry start at different scalars. -/
theorem nodup_sources_of_mem_casts {entry : Ty × List Cast} (h : entry ∈ (ofBackend cookie).casts) :
    (entry.2.map (·.source)).Nodup := by
  have hinj : Function.Injective Ty.ofScalar := fun a b hab => (Ty.scalar.inj hab).2
  simp only [casts, List.mem_append, List.mem_map, List.mem_singleton] at h
  rcases h with ⟨b, hb, rfl⟩ | rfl
  · have hints : (((ofBackend cookie).integers.filter fun a => !a.same b).map fun a =>
        (Cast.ofIntegers a b).source).Nodup := by
      simp only [Cast.ofIntegers_source]
      exact List.Nodup.map hinj ((nodup_integers cookie).filter _)
    dsimp only
    rw [List.map_append, List.map_map]
    split
    · refine List.Nodup.append hints (List.nodup_singleton _) ?_
      -- the character is no integer
      intro u hu hchar
      obtain ⟨a, ha, rfl⟩ := List.mem_map.1 hu
      have hsource : (Cast.ofIntegers a b).source = .ofScalar (ofBackend cookie).c8 :=
        List.mem_singleton.1 hchar
      rw [Cast.ofIntegers_source] at hsource
      have hint := isInteger_of_mem (List.mem_filter.1 ha).1
      rw [hinj hsource] at hint
      cases hint
    · rw [List.map_nil, List.append_nil]
      exact hints
  · exact List.nodup_singleton _

/-- The entries of the table are for different types. -/
theorem nodup_keys : ((ofBackend cookie).casts.map (·.1)).Nodup := by
  have hinj : Function.Injective Ty.ofScalar := fun a b hab => (Ty.scalar.inj hab).2
  have hkeys : (ofBackend cookie).casts.map (·.1) =
      ((ofBackend cookie).integers ++ [(ofBackend cookie).c8]).map Ty.ofScalar := by
    simp [casts, Function.comp_def]
  rw [hkeys]
  refine List.Nodup.map hinj (List.Nodup.append (nodup_integers cookie) (List.nodup_singleton _) ?_)
  -- the character is no integer
  intro a ha hchar
  have hint := isInteger_of_mem ha
  rw [List.mem_singleton.1 hchar] at hint
  cases hint

end BuiltinTypes

/-- What is found in a table for a type is an entry for it, if there is one. -/
theorem CastTable.find_cases (S : StructStore) (t : Ty) (table : CastTable) :
    table.find S t = [] ∧ (∀ entry ∈ table, entry.1.same S t = false) ∨
      ∃ entry ∈ table, entry.1.same S t = true ∧ table.find S t = entry.2 := by
  induction table with
  | nil => exact .inl ⟨rfl, nofun⟩
  | cons entry rest ih =>
    obtain ⟨key, casts⟩ := entry
    rw [find]
    split
    · rename_i hsame
      exact .inr ⟨_, List.mem_cons_self .., hsame, rfl⟩
    · rename_i hdiffer
      rcases ih with ⟨hnone, hall⟩ | ⟨other, hother, hfound⟩
      · exact .inl ⟨hnone, List.forall_mem_cons.2 ⟨by simpa using hdiffer, hall⟩⟩
      · exact .inr ⟨other, List.mem_cons_of_mem _ hother, hfound⟩

theorem Flags.isEmpty_iff {f : Flags} : f.isEmpty = true ↔ f = .none := by
  obtain ⟨a, b⟩ := f
  cases a <;> cases b <;> decide

namespace BuiltinTypes

variable {cookie : Registration → Nat} {S : StructStore} {G : CastGraph} {t : Ty} {c : Cast}

/-- **A builtin conversion is found** in the table for the type where it ends. -/
theorem mem_find (h : c ∈ (ofBackend cookie).casts.casts) (ht : c.destination.same S t = true) :
    c ∈ CastTable.find S t (ofBackend cookie).casts := by
  obtain ⟨entry, hentry, hc⟩ := List.mem_flatMap.1 h
  obtain ⟨b, hb, hkey, hdest⟩ := entry_of_mem_casts hentry
  rw [hdest c hc] at ht
  rcases CastTable.find_cases S t (ofBackend cookie).casts with
    ⟨-, hnone⟩ | ⟨other, hother, hsame, hfound⟩
  · have hdiffer := hnone entry hentry
    rw [ht] at hdiffer
    cases hdiffer
  · -- the entry that is found has the same key, so it is this one
    obtain ⟨b', hb', hkey', -⟩ := entry_of_mem_casts hother
    have hkeys : other.1 = entry.1 := by
      rw [Ty.same_comm] at ht
      have hboth := Ty.same_trans hsame ht
      rw [hkey, hkey'] at hboth ⊢
      rw [eq_of_same_ofScalar hb' hb hboth]
    rw [hfound, List.inj_on_of_nodup_map nodup_keys hother hentry hkeys]
    exact hc

/-- **The conversions to a type start at different types.** -/
theorem Sole.nodup_sources (h : (ofBackend cookie).Sole G) (S : StructStore) (t : Ty) :
    ((G.castsTo S t).map (·.source.toClass S)).Nodup := by
  have hscalar : ∀ c ∈ CastTable.find S t (ofBackend cookie).casts,
      ∃ a ∈ (ofBackend cookie).all, c.source = .ofScalar a := by
    intro c hc
    rcases mem_casts (mem_casts_of_find hc).1 with ⟨a, ha, b, -, -, rfl⟩ | rfl | rfl
    · exact ⟨a, mem_all_of_integer ha, Cast.ofIntegers_source⟩
    · exact ⟨(ofBackend cookie).c8, by simp [all], rfl⟩
    · exact ⟨(ofBackend cookie).u8, by simp [all], rfl⟩
  have hclasses : ∀ casts : List Cast,
      casts.map (·.source.toClass S) = (casts.map (·.source)).map (Ty.toClass S) := fun casts => by
    rw [List.map_map]
    rfl
  rw [h.castsTo_eq, List.map_append, List.nodup_append]
  refine ⟨?_, ?_, ?_⟩
  · have hnodup : ((CastTable.find S t (ofBackend cookie).casts).map (·.source)).Nodup := by
      rcases CastTable.find_cases S t (ofBackend cookie).casts with
        ⟨hnil, -⟩ | ⟨entry, hentry, -, hfound⟩
      · rw [hnil]
        exact List.nodup_nil
      · rw [hfound]
        exact nodup_sources_of_mem_casts hentry
    rw [hclasses]
    refine List.Nodup.map_on (fun x hx y hy hxy => ?_) hnodup
    obtain ⟨c, hc, rfl⟩ := List.mem_map.1 hx
    obtain ⟨c', hc', rfl⟩ := List.mem_map.1 hy
    obtain ⟨a, ha, hsource⟩ := hscalar c hc
    obtain ⟨a', ha', hsource'⟩ := hscalar c' hc'
    rw [hsource, hsource', Ty.toClass_eq] at hxy
    rw [hsource, hsource', eq_of_same_ofScalar ha ha' hxy]
  · split
    · rename_i hempty
      have hflags := Flags.isEmpty_iff.1 hempty
      have hne : ∀ f g : Flags, f ≠ g →
          (t.addFlags f).toClass S ≠ (t.addFlags g).toClass S := by
        intro f g hfg hclass
        have hsame := Ty.flags_eq_of_same (Ty.toClass_eq.1 hclass)
        rw [Ty.addFlags, Ty.addFlags, Ty.flags_withFlags, Ty.flags_withFlags, hflags] at hsame
        exact hfg hsame
      simp [Cast.decays, hne .ref .refMut (by decide), hne .ref .mutOnly (by decide),
        hne .refMut .mutOnly (by decide)]
    · exact List.nodup_nil
  · intro x hx y hy hxy
    obtain ⟨c, hc, rfl⟩ := List.mem_map.1 hx
    obtain ⟨d, hd, rfl⟩ := List.mem_map.1 hy
    split at hd
    · rename_i hempty
      -- builtin conversions start at plain types, and decays do not
      refine (Cast.source_of_decay (Flags.isEmpty_iff.1 hempty) hd).1 ?_
      obtain ⟨a, -, hsource⟩ := hscalar c hc
      rw [← Ty.flags_eq_of_same (Ty.toClass_eq.1 hxy), hsource]
      rfl
    · cases hd

end BuiltinTypes

namespace Setting

variable {X : Setting} {G : CastGraph} {t u : Ty} {c : Cast}

theorem carries_of_sole (hG : X.types.Sole G) : X.Carries G := by
  intro table htable
  obtain ⟨n, hn⟩ := hG.tables
  rw [hn, List.mem_append, List.mem_singleton] at htable
  rcases htable with h | h
  · exact .inl (List.eq_of_mem_replicate h)
  · exact .inr h

theorem nodup_sources (hG : X.types.Sole G) (t : Ty) :
    ((G.castsTo X.structs t).map (·.source)).Nodup := by
  refine List.Nodup.of_map (Ty.toClass X.structs) ?_
  rw [List.map_map]
  exact hG.nodup_sources X.structs t

/-- **A conversion is among those that end at its destination.** -/
theorem mem_castsTo_of_edge (hG : X.types.Sole G) (h : X.Edge c) :
    c ∈ G.castsTo X.structs c.destination := by
  rw [hG.castsTo_eq]
  rcases h with h | ⟨t, ht, h⟩
  · exact List.mem_append_left _ (BuiltinTypes.mem_find h (Ty.same_self _ _))
  · refine List.mem_append_right _ ?_
    rw [destination_of_mem_decays h, if_pos (Flags.isEmpty_iff.2 ht.flags)]
    exact h

end Setting

/-! ### Counting walks -/

/-- Saturating sums are sums that stop at the greatest weight. -/
theorem foldl_addWeight {β : Type} (f : β → Weight) (l : List β) (v : Weight) :
    l.foldl (fun w e => addWeight w (f e)) (min v maxWeight) =
      min (v + (l.map f).sum) maxWeight := by
  induction l generalizing v with
  | nil => simp
  | cons e rest ih =>
    have hhead : addWeight (min v maxWeight) (f e) = min (v + f e) maxWeight := by
      simp only [addWeight, Weight]
      omega
    rw [List.foldl_cons, hhead, ih, List.map_cons, List.sum_cons, Nat.add_assoc]

namespace Search

/-- What the conversions that start at a node add to its count. -/
theorem getD_foldl_addWeight {before sums : Array Weight} {edges : List SearchEdge} {i : Nat}
    (hi : i < sums.size) :
    (edges.foldl (fun sums e => sums.modify e.source (addWeight · (before.getD e.target 0)))
      sums).getD i 0 =
      (edges.filter (·.source == i)).foldl (fun w e => addWeight w (before.getD e.target 0))
        (sums.getD i 0) := by
  induction edges generalizing sums with
  | nil => rfl
  | cons e rest ih =>
    have hsize : i < (sums.modify e.source (addWeight · (before.getD e.target 0))).size := by
      simpa using hi
    rw [List.foldl_cons, ih hsize]
    by_cases hsource : e.source = i
    · rw [List.filter_cons_of_pos (by simpa using hsource), List.foldl_cons]
      congr 1
      subst hsource
      simp [Array.getD_eq_getD_getElem?, Array.getElem?_modify, Array.getElem?_eq_getElem hi]
    · rw [List.filter_cons_of_neg (by simpa using hsource)]
      congr 1
      simp [Array.getD_eq_getD_getElem?, Array.getElem?_modify, hsource]

/-- One walk leads from the destination to itself. -/
theorem walkCounts_zero {edges : List SearchEdge} {size : Nat} (hsize : 0 < size) (rounds : Nat) :
    (walkCounts edges size (rounds + 1)).getD 0 0 = 1 := by
  rw [walkCounts]
  have hfold : ∀ (edges : List SearchEdge) (f : SearchEdge → Weight → Weight)
      (sums : Array Weight), (edges.foldl (fun sums e => sums.modify e.source (f e)) sums).size =
        sums.size := by
    intro edges f sums
    induction edges generalizing sums with
    | nil => rfl
    | cons e rest ih => rw [List.foldl_cons, ih, Array.size_modify]
  simp [Array.getD_eq_getD_getElem?, hfold, hsize]

/-- The walks from another node go on with one of the conversions that start there. -/
theorem walkCounts_succ {edges : List SearchEdge} {size rounds i : Nat} (hpos : 0 < i)
    (hi : i < size) : (walkCounts edges size (rounds + 1)).getD i 0 =
      (edges.filter (·.source == i)).foldl
        (fun w e => addWeight w ((walkCounts edges size rounds).getD e.target 0)) 0 := by
  have hfold := @getD_foldl_addWeight (walkCounts edges size rounds) (Array.replicate size 0) edges
    i (by simpa using hi)
  rw [walkCounts]
  simp only [Array.getD_eq_getD_getElem?] at hfold ⊢
  rw [Array.getElem?_setIfInBounds_ne (by omega), hfold]
  simp [hi]

end Search

/-! ### Queries -/

/-- **Carrying a range along fails only because of the range.** -/
theorem CastQuery.eq_rangeUnsafe_of_steps {q : CastQuery} {casts : List Cast}
    {r : Option ValueRange} {error : CastError} (h : q.steps r casts = .error (.error error)) :
    ∃ r', error = .rangeUnsafe q.source q.destination r' := by
  induction casts generalizing r with
  | nil => cases h
  | cons c rest ih =>
    rcases Outcome.bind_error h with hafter | ⟨after, -, hsteps⟩
    · -- the rule refuses the range, or the transformation does; other errors are internal
      rcases Outcome.bind_error hafter with hadmits | ⟨admitted, -, hafter⟩
      · exact absurd hadmits Outcome.ofInternal_ne_error
      · cases admitted with
        | false =>
          cases hafter
          exact ⟨_, rfl⟩
        | true =>
          cases r with
          | none => exact absurd hafter Outcome.ofInternal_ne_error
          | some p =>
            rcases Outcome.bind_error hafter with htransform | ⟨o, -, hafter⟩
            · exact absurd htransform Outcome.ofInternal_ne_error
            · cases o with
              | none =>
                cases hafter
                exact ⟨_, rfl⟩
              | some r => cases hafter
    · rcases Outcome.bind_error hsteps with hrest | ⟨others, -, hcons⟩
      · exact ih hrest
      · cases hcons

end RangeTyping
