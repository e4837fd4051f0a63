import Mathlib
import RangeTyping.Proofs.Equality.Structural
import RangeTyping.Proofs.Order.Structs

/-!
# Types in a larger store

The structs of a store can be found in a larger one under other numbers (`StructStore.Embeds`).
Whatever is asked about a type then has the same answer in both: its size, its text, its symbol, and
whether it is equal to another type.

Structs may refer to themselves, so equality and symbols follow them with fuel that depends on the
size of the store.  The fuel is never used up: a comparison does not nest deeper than there are pairs
of structs, since it does not enter a pair twice (`StructStore.Embeds.sameStruct`).
-/

namespace RangeTyping

/-- **The structs of `S` are found in `T` under other numbers**, with the same names and layouts. -/
structure StructStore.Embeds (ρ : StructId → StructId) (S T : StructStore) : Prop where
  injective : Function.Injective ρ
  size : S.size ≤ T.size
  name : ∀ i, T.name? (ρ i) = S.name? i
  layout : ∀ i, T.layout? (ρ i) = (S.layout? i).map (Layout.mapTypes (Ty.renumber ρ))

/-! ### Types built alike -/

mutual
theorem Ty.sameWith_renumber {ρ : StructId → StructId} {same same' : StructId → StructId → Bool}
    (h : ∀ i j, same' (ρ i) (ρ j) = same i j) :
    ∀ t u : Ty, sameWith same' (t.renumber ρ) (u.renumber ρ) = sameWith same t u
  | .scalar f s, u => by cases u <;> rfl
  | .function f as r, u => by
    cases u with
    | function g bs q =>
      rw [renumber, renumber, sameWith, sameWith, sameWith_renumber h r q,
        sameAllWith_renumber h as bs]
    | _ => rfl
  | .pointer f t, u => by
    cases u with
    | pointer g u => rw [renumber, renumber, sameWith, sameWith, sameWith_renumber h t u]
    | _ => rfl
  | .array f t n, u => by
    cases u with
    | array g u m => rw [renumber, renumber, sameWith, sameWith, sameWith_renumber h t u]
    | _ => rfl
  | .struct f i, u => by
    cases u with
    | struct g j => rw [renumber, renumber, sameWith, sameWith, h]
    | _ => rfl

theorem Ty.sameAllWith_renumber {ρ : StructId → StructId}
    {same same' : StructId → StructId → Bool} (h : ∀ i j, same' (ρ i) (ρ j) = same i j) :
    ∀ ts us : List Ty, sameAllWith same' (renumberAll ρ ts) (renumberAll ρ us) =
      sameAllWith same ts us
  | [], us => by cases us <;> rfl
  | t :: ts, us => by
    cases us with
    | nil => rfl
    | cons u us =>
      rw [renumberAll, renumberAll, sameAllWith, sameAllWith, sameWith_renumber h t u,
        sameAllWith_renumber h ts us]
end

theorem Member.sameAllWith_mapTypes {f : Ty → Ty} {same same' : Ty → Ty → Bool}
    (h : ∀ t u, same' (f t) (f u) = same t u) (ms ns : List Member) :
    sameAllWith same' (ms.map fun m => { m with type := f m.type })
      (ns.map fun m => { m with type := f m.type }) = sameAllWith same ms ns := by
  induction ms generalizing ns with
  | nil => cases ns <;> rfl
  | cons m ms ih =>
    cases ns with
    | nil => rfl
    | cons n ns =>
      rw [List.map_cons, List.map_cons, sameAllWith, sameAllWith, ih, h]

mutual
theorem Ty.symbolWith_congr {ρ : StructId → StructId} {struct struct' : StructId → String}
    (h : ∀ i, struct' (ρ i) = struct i) :
    ∀ t : Ty, (t.renumber ρ).symbolWith struct' = t.symbolWith struct
  | .scalar f s => rfl
  | .function f as r => by
    rw [renumber, symbolWith, symbolWith, symbolsWith_congr h as, symbolWith_congr h r]
  | .pointer f t => by rw [renumber, symbolWith, symbolWith, symbolWith_congr h t]
  | .array f t n => by rw [renumber, symbolWith, symbolWith, symbolWith_congr h t]
  | .struct f i => by rw [renumber, symbolWith, symbolWith, h]

theorem Ty.symbolsWith_congr {ρ : StructId → StructId} {struct struct' : StructId → String}
    (h : ∀ i, struct' (ρ i) = struct i) :
    ∀ ts : List Ty, symbolsWith struct' (renumberAll ρ ts) = symbolsWith struct ts
  | [] => rfl
  | t :: ts => by
    rw [renumberAll, symbolsWith, symbolsWith, symbolWith_congr h t, symbolsWith_congr h ts]
end

theorem Member.symbolsWith_mapTypes {f : Ty → Ty} {type type' : Ty → String}
    (h : ∀ t, type' (f t) = type t) (ms : List Member) :
    symbolsWith type' (ms.map fun m => { m with type := f m.type }) = symbolsWith type ms := by
  induction ms with
  | nil => rfl
  | cons m ms ih => rw [List.map_cons, symbolsWith, symbolsWith, ih, h]

/-- There are no more pairs than pairs of numbers. -/
theorem length_le_of_pairs {n : Nat} {pairs : List (StructId × StructId)} (hnodup : pairs.Nodup)
    (hbounds : ∀ p ∈ pairs, p.1 < n ∧ p.2 < n) : pairs.length ≤ n * n := by
  have hsub : pairs.toFinset ⊆ Finset.range n ×ˢ Finset.range n := by
    intro p hp
    have hbound := hbounds p (List.mem_toFinset.1 hp)
    exact Finset.mem_product.2 ⟨Finset.mem_range.2 hbound.1, Finset.mem_range.2 hbound.2⟩
  have hcard := Finset.card_le_card hsub
  rwa [List.toFinset_card_of_nodup hnodup, Finset.card_product, Finset.card_range] at hcard

namespace StructStore.Embeds

variable {ρ : StructId → StructId} {S T : StructStore}

theorem isComplete (h : Embeds ρ S T) (i : StructId) : T.isComplete (ρ i) = S.isComplete i := by
  rw [StructStore.isComplete, StructStore.isComplete, h.layout, Option.isSome_map]

theorem displayName (h : Embeds ρ S T) (i : StructId) :
    T.displayName (ρ i) = S.displayName i := by
  rw [StructStore.displayName, StructStore.displayName, h.name]

/-! ### Equality -/

/-- **Structs are the same in both stores**, whatever the fuel, if it is enough for all pairs that
were not entered yet. -/
theorem sameStruct (h : Embeds ρ S T) {fuel fuel' : Nat} {assumed : List (StructId × StructId)}
    (hnodup : assumed.Nodup) (hbounds : ∀ p ∈ assumed, p.1 < S.size ∧ p.2 < S.size)
    (hfuel : S.size * S.size < fuel + assumed.length)
    (hfuel' : S.size * S.size < fuel' + assumed.length) (i j : StructId) :
    T.sameStruct fuel' (assumed.map (Prod.map ρ ρ)) (ρ i) (ρ j) = S.sameStruct fuel assumed i j := by
  induction fuel generalizing fuel' assumed i j with
  | zero =>
    have hlength := length_le_of_pairs hnodup hbounds
    omega
  | succ fuel ih =>
    cases fuel' with
    | zero =>
      have hlength := length_le_of_pairs hnodup hbounds
      omega
    | succ fuel' =>
      have hcontains :
          (assumed.map (Prod.map ρ ρ)).contains (ρ i, ρ j) = assumed.contains (i, j) := by
        rw [Bool.eq_iff_iff, List.contains_iff_mem, List.contains_iff_mem]
        show Prod.map ρ ρ (i, j) ∈ _ ↔ _
        exact List.mem_map_of_injective (h.injective.prodMap h.injective)
      have heq : (ρ i == ρ j) = (i == j) := by
        rw [Bool.eq_iff_iff, beq_iff_eq, beq_iff_eq, h.injective.eq_iff]
      rw [StructStore.sameStruct, StructStore.sameStruct, heq, h.name, h.name, hcontains, h.layout,
        h.layout]
      split
      · rfl
      split
      · rfl
      split
      · rfl
      rename_i hnew
      cases hi : S.layout? i with
      | none => cases S.layout? j <;> rfl
      | some a =>
        cases hj : S.layout? j with
        | none => rfl
        | some b =>
          -- the pair is a new one
          have hnodup' : ((i, j) :: assumed).Nodup :=
            List.nodup_cons.2 ⟨fun hmem => hnew (List.contains_iff_mem.2 hmem), hnodup⟩
          have hbounds' : ∀ p ∈ (i, j) :: assumed, p.1 < S.size ∧ p.2 < S.size :=
            List.forall_mem_cons.2 ⟨⟨lt_size_of_layout? hi, lt_size_of_layout? hj⟩, hbounds⟩
          refine Member.sameAllWith_mapTypes (fun t u => Ty.sameWith_renumber (fun i' j' => ?_) t u)
            a.members b.members
          exact ih hnodup' hbounds' (by rw [List.length_cons]; omega)
            (by rw [List.length_cons]; omega) i' j'

/-- **Types are equal in both stores, or in neither.** -/
theorem same (h : Embeds ρ S T) (t u : Ty) :
    (t.renumber ρ).same T (u.renumber ρ) = t.same S u :=
  Ty.sameWith_renumber (fun i j => h.sameStruct .nil nofun (Nat.lt_succ_self _)
    (Nat.lt_succ_of_le (Nat.mul_le_mul h.size h.size)) i j) t u

theorem sameAll (h : Embeds ρ S T) (ts us : List Ty) :
    Ty.sameAll T (ts.map (Ty.renumber ρ)) (us.map (Ty.renumber ρ)) = Ty.sameAll S ts us := by
  rw [← Ty.renumberAll_eq_map, ← Ty.renumberAll_eq_map]
  exact Ty.sameAllWith_renumber (fun i j => h.sameStruct .nil nofun (Nat.lt_succ_self _)
    (Nat.lt_succ_of_le (Nat.mul_le_mul h.size h.size)) i j) ts us

/-! ### Symbols -/

/-- A struct is written the same in both stores, whatever the fuel, if it is enough for all structs
that are not open yet. -/
theorem structSymbol (h : Embeds ρ S T) {fuel fuel' : Nat} {outer : List StructId}
    (hnodup : outer.Nodup) (hbounds : ∀ i ∈ outer, i < S.size)
    (hfuel : S.size < fuel + outer.length) (hfuel' : S.size < fuel' + outer.length) (i : StructId) :
    T.symbol fuel' (outer.map ρ) (ρ i) = S.symbol fuel outer i := by
  -- the structs that are open are different ones of the store, so that the fuel lasts
  have hlength : ∀ {l : List StructId}, l.Nodup → (∀ i ∈ l, i < S.size) → l.length ≤ S.size := by
    intro l hl hlbounds
    have hsub : l.toFinset ⊆ Finset.range S.size := fun j hj =>
      Finset.mem_range.2 (hlbounds j (List.mem_toFinset.1 hj))
    have hcard := Finset.card_le_card hsub
    rwa [List.toFinset_card_of_nodup hl, Finset.card_range] at hcard
  induction fuel generalizing fuel' outer i with
  | zero =>
    have := hlength hnodup hbounds
    omega
  | succ fuel ih =>
    cases fuel' with
    | zero =>
      have := hlength hnodup hbounds
      omega
    | succ fuel' =>
      have hcontains : (outer.map ρ).contains (ρ i) = outer.contains i := by
        rw [Bool.eq_iff_iff, List.contains_iff_mem, List.contains_iff_mem]
        exact List.mem_map_of_injective h.injective
      rw [StructStore.symbol, StructStore.symbol, h.name, h.layout, hcontains]
      cases S.name? i with
      | some name => rfl
      | none =>
        dsimp only
        split
        · rfl
        rename_i hnew
        cases hi : S.layout? i with
        | none => rfl
        | some l =>
          have hnodup' : (i :: outer).Nodup :=
            List.nodup_cons.2 ⟨fun hmem => hnew (List.contains_iff_mem.2 hmem), hnodup⟩
          have hbounds' : ∀ j ∈ i :: outer, j < S.size :=
            List.forall_mem_cons.2 ⟨lt_size_of_layout? hi, hbounds⟩
          have hstruct : ∀ i', T.symbol fuel' ((i :: outer).map ρ) (ρ i') =
              S.symbol fuel (i :: outer) i' := fun i' =>
            ih hnodup' hbounds' (by rw [List.length_cons]; omega)
              (by rw [List.length_cons]; omega) i'
          have hmembers := Member.symbolsWith_mapTypes (f := Ty.renumber ρ)
            (fun t => Ty.symbolWith_congr hstruct t) l.members
          rw [Option.map_some]
          show s!"S0{(l.members.map _).length}_" ++ _ = _
          rw [List.length_map]
          exact congrArg _ hmembers

/-- **A type has the same symbol in both stores.** -/
theorem symbol (h : Embeds ρ S T) (t : Ty) : (t.renumber ρ).symbol T = t.symbol S :=
  Ty.symbolWith_congr (fun i => h.structSymbol .nil nofun (Nat.lt_succ_self _)
    (Nat.lt_succ_of_le h.size) i) t

/-! ### Texts and sizes -/

mutual
/-- **A type has the same text in both stores.** -/
theorem text (h : Embeds ρ S T) : ∀ t : Ty, (t.renumber ρ).text T = t.text S
  | .scalar f s => rfl
  | .function f as r => by
    rw [Ty.renumber, Ty.text, Ty.text, texts h as, text h r]
  | .pointer f t => by rw [Ty.renumber, Ty.text, Ty.text, text h t]
  | .array f t n => by rw [Ty.renumber, Ty.text, Ty.text, text h t]
  | .struct f i => by rw [Ty.renumber, Ty.text, Ty.text, h.displayName, h.isComplete]

theorem texts (h : Embeds ρ S T) :
    ∀ ts : List Ty, Ty.texts T (Ty.renumberAll ρ ts) = Ty.texts S ts
  | [] => rfl
  | t :: ts => by rw [Ty.renumberAll, Ty.texts, Ty.texts, text h t, texts h ts]
end

theorem typeSize (h : Embeds ρ S T) (t : Ty) : (t.renumber ρ).size T = t.size S :=
  (Ty.size_renumber fun i _ => h.layout i).1

theorem alignment (h : Embeds ρ S T) (t : Ty) : (t.renumber ρ).alignment T = t.alignment S :=
  (Ty.size_renumber fun i _ => h.layout i).2

end StructStore.Embeds

end RangeTyping
