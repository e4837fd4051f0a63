import Mathlib
import RangeTyping.Proofs.Order.Structs
import RangeTyping.Proofs.Renaming.Functions
import RangeTyping.Proofs.Symbols

/-!
# Registration in any order

The structs of a module are numbered in the order of their definitions, so another order means other
numbers and nothing else: `DeclaredStruct.exists_renumbering` gives the renumbering.  Names of types
stand for the same in both contexts (`LookupContext.Registered.type?_renumber`), signatures that are
read are the same and have the same symbols (`LookupContext.Registered.read_renumber`), and whether
signatures clash does not depend on their order.  So the same functions are registered, and their
names stand for the same overloads in another order (`LookupContext.Registered.matches_of_lists`).
-/

namespace RangeTyping

/-! ### Lists of names and numbers -/

/-- Where no name occurs twice, what is found under a name is what is listed under it. -/
theorem lookup_eq_some_iff {β : Type} {name : String} {b : β} {l : List (String × β)}
    (h : (l.map (·.1)).Nodup) : l.lookup name = some b ↔ (name, b) ∈ l := by
  refine ⟨mem_of_lookup, fun hmem => ?_⟩
  induction l with
  | nil => exact absurd hmem List.not_mem_nil
  | cons p l ih =>
    obtain ⟨k, c⟩ := p
    rw [List.map_cons, List.nodup_cons] at h
    rw [List.lookup_cons]
    rcases List.mem_cons.1 hmem with heq | hrest
    · cases heq
      rw [beq_self_eq_true]
    · have hne : name ≠ k := by
        rintro rfl
        exact h.1 (List.mem_map.2 ⟨_, hrest, rfl⟩)
      rw [beq_false_of_ne hne]
      exact ih h.2 hrest

/-- Numbers that are listed side by side without repetition are paired. -/
theorem Paired.zip {a b c d : Nat} {ls rs : List Nat} (hl : ls.Nodup) (hr : rs.Nodup)
    (hlen : ls.length = rs.length) (hab : a ≤ b) (hcd : c ≤ d) (hls : ∀ i ∈ ls, a ≤ i ∧ i < b)
    (hrs : ∀ i ∈ rs, c ≤ i ∧ i < d) : Paired a b c d (ls.zip rs) := by
  have hfst := List.map_fst_zip hlen.le
  have hsnd := List.map_snd_zip hlen.ge
  refine ⟨hab, hcd, fun p hp => ?_, fun p hp q hq => ⟨fun heq => ?_, fun heq => ?_⟩⟩
  · exact ⟨hls p.1 (List.of_mem_zip hp).1, hrs p.2 (List.of_mem_zip hp).2⟩
  · rw [← hfst] at hl
    rw [List.inj_on_of_nodup_map hl hp hq heq]
  · rw [← hsnd] at hr
    rw [List.inj_on_of_nodup_map hr hp hq heq]

/-! ### Structs -/

/-- Structs are declared under the names of their definitions. -/
def StructStore.declareAll (S : StructStore) (defs : List Source.StructDef) : StructStore :=
  ⟨S.bodies ++ (defs.map fun d => (⟨some d.name.text, none⟩ : StructBody)).toArray⟩

namespace StructStore

variable {S : StructStore} {defs : List Source.StructDef} {i : StructId}

theorem size_declareAll : (S.declareAll defs).size = S.size + defs.length := by
  simp [declareAll, size]

/-- What is only declared has no layout. -/
theorem layout?_declareAll (h : S.size ≤ i) : (S.declareAll defs).layout? i = none := by
  rw [size] at h
  rw [declareAll, layout?, Array.getElem?_append_right h]
  simp

theorem declareAll_declare {d : Source.StructDef} :
    (S.declare (some d.name.text)).1.declareAll defs = S.declareAll (d :: defs) := by
  simp [declareAll, declare]

end StructStore

/-- The context with further types in its innermost scope. -/
def LookupContext.addTypes (c : LookupContext) (types : List (String × Ty)) : LookupContext :=
  { c with current := { c.current with types := c.current.types ++ types } }

theorem LookupContext.addTypes_addTypes (c : LookupContext) (types types' : List (String × Ty)) :
    (c.addTypes types).addTypes types' = c.addTypes (types ++ types') := by
  simp [addTypes]

namespace DeclaredStruct

variable {defs defs' : List Source.StructDef} {S : StructStore} {c : LookupContext}

/-- Structs that are numbered in the order of their definitions. -/
def number (base : StructId) (defs : List Source.StructDef) : List DeclaredStruct :=
  (defs.zipIdx base).map fun p => ⟨p.1, .struct .none p.2⟩

theorem definition_number (base : StructId) (defs : List Source.StructDef) :
    (number base defs).map (·.definition) = defs := by
  rw [number, List.map_map]
  exact List.zipIdx_map_fst base defs

theorem nodup_number (base : StructId) (defs : List Source.StructDef) :
    ((number base defs).map id?).Nodup := by
  have hids : (number base defs).map id? = (List.range' base defs.length).map some := by
    rw [number, List.map_map, ← List.zipIdx_map_snd base defs, List.map_map]
    rfl
  rw [hids]
  exact List.Nodup.map (Option.some_injective _) List.nodup_range'

/-- A struct that is declared has its place in the store, and no layout yet. -/
theorem layout?_of_mem_number {d : DeclaredStruct} {i : StructId} (h : d ∈ number S.size defs)
    (hi : d.id? = some i) :
    i < (S.declareAll defs).size ∧ (S.declareAll defs).layout? i = none := by
  obtain ⟨⟨definition, j⟩, hp, rfl⟩ := List.mem_map.1 h
  cases hi
  have hbounds := List.mem_zipIdx hp
  rw [StructStore.size_declareAll]
  exact ⟨hbounds.2.1, StructStore.layout?_declareAll hbounds.1⟩

/-- **Structs are declared if all names are different.** -/
theorem collect_declare (h : (c.current.types.map (·.1) ++ defs.map (·.name.text)).Nodup) :
    collect declare (S, c) defs = .ok (number S.size defs, [], S.declareAll defs,
      c.addTypes ((number S.size defs).map entry)) := by
  induction defs generalizing S c with
  | nil => simp [collect, number, StructStore.declareAll, LookupContext.addTypes]
  | cons d defs ih =>
    have hnew : c.current.type? d.name.text = none := by
      rw [List.map_cons, List.nodup_middle, List.nodup_cons, List.mem_append, not_or] at h
      rw [Scope.type?, List.lookup_eq_none_iff]
      intro p hp
      exact bne_iff_ne.2 fun heq => h.1.1 (List.mem_map.2 ⟨p, hp, heq.symm⟩)
    have hadd : c.addType d.name.text (.struct .none S.size) =
        .ok (c.addTypes [(d.name.text, .struct .none S.size)]) := by
      unfold LookupContext.addType Scope.addType
      rw [hnew]
      rfl
    have hd : declare (S, c) d = .ok (⟨d, .struct .none S.size⟩,
        (S.declare (some d.name.text)).1,
        c.addTypes [(d.name.text, .struct .none S.size)]) := by
      show (Outcome.mapError _ (c.addType d.name.text (.struct .none S.size)) >>= _) = _
      rw [hadd]
      rfl
    have hrest := ih (S := (S.declare (some d.name.text)).1)
      (c := c.addTypes [(d.name.text, .struct .none S.size)]) (by
        simpa [LookupContext.addTypes] using h)
    -- the next struct has the next number
    have hsize : (S.declare (some d.name.text)).1.size = S.size + 1 := by
      simp [StructStore.declare, StructStore.size]
    rw [collect, hd]
    dsimp only
    rw [hrest, hsize, StructStore.declareAll_declare, LookupContext.addTypes_addTypes]
    rfl

/-- **Another order of the definitions means other numbers.** -/
theorem exists_renumbering (base base' : StructId) (h : defs'.Perm defs) :
    ∃ ρ : StructId → StructId, Function.Injective ρ ∧ ∃ ds : List DeclaredStruct,
      ds.Perm (number base defs) ∧ number base' defs' = ds.map (renumber ρ) := by
  have hfst : defs'.Perm ((defs.zipIdx base).map Prod.fst) := by
    rw [List.zipIdx_map_fst]
    exact h
  obtain ⟨ps, hps, hdefs⟩ := exists_perm_map_eq hfst
  -- the numbers of the first run, in the order of the second, beside those of the second
  have hls : (ps.map Prod.snd).Perm (List.range' base defs.length) := by
    rw [← List.zipIdx_map_snd base defs]
    exact hps.map _
  have hlength : (ps.map Prod.snd).length = (List.range' base' defs.length).length := by
    rw [hls.length_eq, List.length_range', List.length_range']
  have hpaired : Paired base (base + defs.length) base' (base' + defs.length)
      ((ps.map Prod.snd).zip (List.range' base' defs.length)) := by
    refine Paired.zip (hls.nodup_iff.2 List.nodup_range') List.nodup_range' hlength (by omega)
      (by omega) (fun i hi => ?_) fun i hi => ?_
    · simpa using List.mem_range'_1.1 (hls.subset hi)
    · simpa using List.mem_range'_1.1 hi
  obtain ⟨ρ, hρ, hvalues⟩ := hpaired.exists_injective
  refine ⟨ρ, hρ, ps.map fun p => ⟨p.1, .struct .none p.2⟩, hps.map _, ?_⟩
  have hnumbers : (ps.map fun p => ρ p.2) = List.range' base' defs.length := by
    calc (ps.map fun p => ρ p.2)
        = (((ps.map Prod.snd).zip (List.range' base' defs.length)).map Prod.fst).map ρ := by
          rw [List.map_fst_zip hlength.le, List.map_map]
          rfl
      _ = ((ps.map Prod.snd).zip (List.range' base' defs.length)).map Prod.snd := by
          rw [List.map_map]
          exact List.map_congr_left hvalues
      _ = List.range' base' defs.length := List.map_snd_zip hlength.ge
  have hzip : defs'.zipIdx base' = ps.map fun p => (p.1, ρ p.2) := by
    rw [List.zipIdx_eq_zip_range', h.length_eq, ← hnumbers, ← hdefs, List.zip_map']
  rw [number, hzip, List.map_map, List.map_map]
  rfl

end DeclaredStruct

/-! ### Types -/

namespace Ty

variable {types : BuiltinTypes} {declared : StructId → Prop} {ρ : StructId → StructId}

/-- What a known type holds is declared. -/
theorem declared_of_held {i : StructId} :
    ∀ {t : Ty}, t.KnownIn types declared → t.held? = some i → declared i
  | .array _ t _, ht, hi => declared_of_held (t := t) ht.1 hi
  | .struct _ _, ht, rfl => ht

/-- A type has the same symbol if structs are written the same. -/
theorem symbolWith_renumber {struct struct' : StructId → String}
    (h : ∀ i, declared i → struct' (ρ i) = struct i) :
    ∀ {t : Ty}, t.KnownIn types declared →
      (t.renumber ρ).symbolWith struct' = t.symbolWith struct
  | .scalar _ _, _ => rfl
  | .pointer _ t, ht => by
    rw [renumber, symbolWith, symbolWith, symbolWith_renumber h (t := t) ht.1]
  | .array _ t _, ht => by
    rw [renumber, symbolWith, symbolWith, symbolWith_renumber h (t := t) ht.1]
  | .struct _ i, ht => by rw [renumber, symbolWith, symbolWith, h i ht]

theorem symbolsWith_renumber {struct struct' : StructId → String}
    (h : ∀ i, declared i → struct' (ρ i) = struct i) {ts : List Ty}
    (hts : ∀ t ∈ ts, t.KnownIn types declared) :
    symbolsWith struct' (ts.map (renumber ρ)) = symbolsWith struct ts := by
  induction ts with
  | nil => rfl
  | cons t ts ih =>
    rw [List.forall_mem_cons] at hts
    rw [List.map_cons, symbolsWith, symbolsWith, symbolWith_renumber h hts.1, ih hts.2]

end Ty

/-- Lists of types of a setting are the same exactly if they are equal. -/
theorem Setting.sameAll_iff {X : Setting} {ts us : List Ty} (hts : ∀ t ∈ ts, X.Known t)
    (hus : ∀ u ∈ us, X.Known u) : Ty.sameAll X.structs ts us = true ↔ ts = us := by
  refine ⟨fun h => ?_, fun h => h ▸ Ty.sameAll_self _ _⟩
  induction ts generalizing us with
  | nil =>
    cases us with
    | nil => rfl
    | cons => cases h
  | cons t ts ih =>
    cases us with
    | nil => cases h
    | cons u us =>
      rw [List.forall_mem_cons] at hts hus
      obtain ⟨ht, hts'⟩ := Bool.and_eq_true_iff.1 h
      rw [Setting.eq_of_same hts.1 hus.1 ht, ih hts.2 hus.2 hts']

/-! ### Two contexts of a module -/

namespace LookupContext.Registered

variable {cookie : Registration → Nat} {S S' : StructStore} {sigs sigs' : List Signature}
  {c c' : LookupContext} {ρ : StructId → StructId}

/-- The structs of the second context are those of the first under other numbers. -/
def Renumbers (ρ : StructId → StructId) (c c' : LookupContext) : Prop :=
  c'.current.types.Perm (c.current.types.map fun e => (e.1, e.2.renumber ρ))

theorem renumbers_id (c : LookupContext) : Renumbers id c c := by
  rw [Renumbers, List.map_congr_left fun e _ => by rw [Ty.renumber_id], List.map_id']

/-- A name that the module does not use stands for what it is in the builtin scope. -/
theorem type?_eq (hc : c.Registered cookie S sigs) (name : String) : c.type? name =
    (c.current.type? name).or ((Builtins.prepare cookie).root.current.type? name) := by
  rw [LookupContext.type?, LookupContext.scopes, hc.outer]
  cases h : c.current.type? name <;> simp [h]

theorem object?_eq (hc : c.Registered cookie S sigs) (name : String) : c.object? name =
    (c.current.object? name).or ((Builtins.prepare cookie).root.current.object? name) := by
  rw [LookupContext.object?, LookupContext.scopes, hc.outer]
  cases h : c.current.object? name <;> simp [h]

theorem root_type? (name : String) :
    ((Builtins.prepare cookie).root.current.type? name).map (Ty.renumber ρ) =
      (Builtins.prepare cookie).root.current.type? name := by
  cases ht : (Builtins.prepare cookie).root.current.type? name with
  | none => rfl
  | some t =>
    obtain ⟨s, -, hs⟩ := List.mem_map.1 (mem_of_lookup ht)
    cases hs
    rfl

/-- **Names of types stand for the same.** -/
theorem type?_renumber (hc : c.Registered cookie S sigs) (hc' : c'.Registered cookie S' sigs')
    (h : Renumbers ρ c c') (name : String) :
    c'.type? name = (c.type? name).map (Ty.renumber ρ) := by
  have hcurrent : c'.current.type? name = (c.current.type? name).map (Ty.renumber ρ) := by
    refine Option.ext fun t => ?_
    rw [Option.map_eq_some_iff, Scope.type?, Scope.type?, lookup_eq_some_iff hc'.names, h.mem_iff,
      List.mem_map]
    constructor
    · rintro ⟨⟨n, u⟩, hmem, heq⟩
      cases heq
      exact ⟨u, (lookup_eq_some_iff hc.names).2 hmem, rfl⟩
    · rintro ⟨u, hu, rfl⟩
      exact ⟨(name, u), mem_of_lookup hu, rfl⟩
  rw [hc.type?_eq, hc'.type?_eq, hcurrent, Option.map_or, root_type?]

/-- A struct has the same name under its other number. -/
theorem exists_struct (hc : c.Registered cookie S sigs) (hc' : c'.Registered cookie S' sigs')
    (h : Renumbers ρ c c') {name : String} {t : Ty} (hmem : (name, t) ∈ c.current.types) :
    ∃ i, t = .struct .none i ∧ (name, .struct .none (ρ i)) ∈ c'.current.types ∧
      S.name? i = some name ∧ S'.name? (ρ i) = some name := by
  obtain ⟨i, rfl, hname⟩ := hc.structs _ _ hmem
  have hmem' : (name, .struct .none (ρ i)) ∈ c'.current.types :=
    h.mem_iff.2 (List.mem_map.2 ⟨_, hmem, rfl⟩)
  obtain ⟨j, hj, hname'⟩ := hc'.structs _ _ hmem'
  cases hj
  exact ⟨i, rfl, hmem', hname, hname'⟩

/-- The setting of the second context renumbers that of the first. -/
theorem renumbers (hc : c.Registered cookie S sigs) (hc' : c'.Registered cookie S' sigs')
    (h : Renumbers ρ c c') (hρ : Function.Injective ρ) : hc.setting.Renumbers hc'.setting ρ where
  cookie := rfl
  injective := hρ
  declared i hi := by
    obtain ⟨name, hmem⟩ := hi
    obtain ⟨j, hj, hmem', -⟩ := hc.exists_struct hc' h hmem
    cases hj
    exact ⟨name, hmem'⟩

/-! ### Signatures -/

/-- Types that are written mean the same. -/
theorem types_renumber (hc : c.Registered cookie S sigs) (hc' : c'.Registered cookie S' sigs')
    (h : Renumbers ρ c c') {written : List Source.TypeExpr} {ts : List Ty}
    (hts : Signature.types c written = .ok ts) :
    Signature.types c' written = .ok (ts.map (Ty.renumber ρ)) := by
  induction written generalizing ts with
  | nil =>
    cases hts
    rfl
  | cons w ws ih =>
    obtain ⟨u, hu, hts⟩ := Outcome.bind_ok hts
    obtain ⟨rest, hrest, hts⟩ := Outcome.bind_ok hts
    cases hts
    rw [Signature.types, LookupContext.resolveType_renumber (hc.type?_renumber hc' h), hu, ih hrest]
    rfl

/-- A function type has the same symbol under the other numbers. -/
theorem symbol_renumber (hc : c.Registered cookie S sigs) (hc' : c'.Registered cookie S' sigs')
    (h : Renumbers ρ c c') {parameters : List Ty} {result : Ty}
    (hps : ∀ t ∈ parameters, hc.setting.Plain t) (hr : hc.setting.Plain result) :
    (Ty.arrow (parameters.map (Ty.renumber ρ)) (result.renumber ρ)).symbol S' =
      (Ty.arrow parameters result).symbol S := by
  have hstruct : ∀ i, hc.setting.declared i →
      S'.symbol (S'.size + 1) [] (ρ i) = S.symbol (S.size + 1) [] i := by
    rintro i ⟨name, hmem⟩
    obtain ⟨j, hj, -, hname, hname'⟩ := hc.exists_struct hc' h hmem
    cases hj
    rw [StructStore.symbol_of_name hname, StructStore.symbol_of_name hname']
  rw [Ty.arrow, Ty.arrow, Ty.symbol, Ty.symbol, Ty.symbolWith, Ty.symbolWith,
    Ty.symbolsWith_renumber hstruct fun t ht => (hps t ht).known,
    Ty.symbolWith_renumber hstruct hr.known]

/-- **A signature is read the same**, but for the numbers of structs. -/
theorem read_renumber (hc : c.Registered cookie S sigs) (hc' : c'.Registered cookie S' sigs')
    (h : Renumbers ρ c c') {f : Source.FunctionDef} {sig : Signature}
    (hread : Signature.read S (BuiltinTypes.ofBackend cookie).voidTy c f = .ok sig) :
    Signature.read S' (BuiltinTypes.ofBackend cookie).voidTy c' f = .ok (sig.renumber ρ) := by
  have hplain := (hc.plain_of_read rfl hread).1
  obtain ⟨parameters, hparameters, hsig⟩ := Outcome.bind_ok hread
  rw [Signature.read, hc.types_renumber hc' h hparameters]
  cases hreturns : f.returns with
  | none =>
    rw [hreturns] at hsig
    cases hsig
    have hsymbol := hc.symbol_renumber hc' h hplain.1 hplain.2
    rw [Ty.renumber_voidTy] at hsymbol
    show Except.ok _ = _
    rw [hsymbol]
    rfl
  | some written =>
    rw [hreturns] at hsig
    obtain ⟨result, hresult, hsig⟩ := Outcome.bind_ok hsig
    cases hsig
    have hsymbol := hc.symbol_renumber hc' h hplain.1 hplain.2
    dsimp only
    rw [LookupContext.resolveType_renumber (hc.type?_renumber hc' h), hresult]
    show Except.ok _ = _
    rw [hsymbol]
    rfl

end LookupContext.Registered

/-! ### Functions -/

/-- The two have different names or different parameter types. -/
def Signature.Distinct (a b : Signature) : Prop :=
  ¬ (a.definition.name.text = b.definition.name.text ∧ a.parameters = b.parameters)

namespace Signature

variable {X Y : Setting} {ρ : StructId → StructId} {sigs sigs' : List Signature} {a b : Signature}

theorem distinct_symm (h : a.Distinct b) : b.Distinct a :=
  fun heq => h ⟨heq.1.symm, heq.2.symm⟩

theorem differ_iff_distinct (ha : ∀ t ∈ a.parameters, X.Plain t)
    (hb : ∀ t ∈ b.parameters, X.Plain t) : a.Differ X.structs b ↔ a.Distinct b := by
  rw [Differ, Distinct,
    Setting.sameAll_iff (fun t ht => (ha t ht).known) fun t ht => (hb t ht).known]
  exact Iff.rfl

theorem distinct_renumber (hρ : Function.Injective ρ) (h : a.Distinct b) :
    (a.renumber ρ).Distinct (b.renumber ρ) := by
  rintro ⟨hname, hparameters⟩
  refine h ⟨hname, ?_⟩
  exact List.map_injective_iff.2 (fun t u => Ty.renumber_injective hρ t u) hparameters

/-- **Whether signatures clash depends neither on their order nor on the numbers of structs.** -/
theorem pairwise_differ_renumber (h : X.Renumbers Y ρ)
    (hplain : ∀ sig ∈ sigs, ∀ t ∈ sig.parameters, X.Plain t)
    (hdiffer : sigs.Pairwise (Differ X.structs)) (hperm : sigs'.Perm sigs) :
    (sigs'.map (renumber ρ)).Pairwise (Differ Y.structs) := by
  have hdistinct : sigs.Pairwise Distinct := hdiffer.imp_of_mem fun ha hb hab =>
    (differ_iff_distinct (hplain _ ha) (hplain _ hb)).1 hab
  have hplain' : ∀ sig ∈ sigs', ∀ t ∈ (sig.renumber ρ).parameters, Y.Plain t := by
    intro sig hsig
    rw [renumber, List.forall_mem_map]
    exact fun t ht => h.plain (hplain sig (hperm.subset hsig) t ht)
  rw [List.pairwise_map]
  refine ((hperm.pairwise_iff distinct_symm).2 hdistinct).imp_of_mem fun ha hb hab => ?_
  exact (differ_iff_distinct (hplain' _ ha) (hplain' _ hb)).2 (distinct_renumber h.injective hab)

/-- The overloads of a name are the same in another order. -/
theorem perm_named_renumber (hperm : sigs'.Perm (sigs.map (renumber ρ))) (name : String) :
    (named sigs' name).Perm ((named sigs name).map (Overload.renumber ρ)) := by
  have hoverload : ∀ sig : Signature, (sig.renumber ρ).overload = sig.overload.renumber ρ := by
    intro sig
    rw [overload, overload, Overload.renumber, type_renumber]
    rfl
  refine ((hperm.filter _).map _).trans (List.Perm.of_eq ?_)
  rw [named, List.filter_map, List.map_map, List.map_map]
  exact List.map_congr_left fun sig _ => hoverload sig

end Signature

/-- **Signatures that can be read and differ are registered.** -/
theorem LookupContext.Lists.collect_register_of_differ {c : LookupContext} {names : List String}
    {S : StructStore} {nothing : Ty} {before sigs : List Signature} (h : c.Lists names before)
    (hnames : ∀ sig ∈ sigs, sig.definition.name.text ∈ names)
    (hread : ∀ sig ∈ sigs, Signature.read S nothing c sig.definition = .ok sig)
    (hdiffer : (before ++ sigs).Pairwise (Signature.Differ S)) :
    ∃ objects, collect (Signature.register S nothing) c (sigs.map (·.definition)) =
        .ok (sigs, [], c.withObjects objects) ∧
      (c.withObjects objects).Lists names (before ++ sigs) := by
  induction sigs generalizing c before with
  | nil => exact ⟨c.current.objects, rfl, by rwa [List.append_nil]⟩
  | cons sig sigs ih =>
    rw [List.forall_mem_cons] at hnames hread
    have hclash : sig.clashes S before = false := by
      rw [Signature.clashes_eq_false_iff]
      exact fun other hother => (List.pairwise_append.1 hdiffer).2.2 other hother sig
        (List.mem_cons_self ..)
    obtain ⟨objects, hregister, hlists⟩ := h.register_eq S nothing hnames.1 hread.1 rfl
    rw [hclash, if_neg Bool.false_ne_true] at hregister
    -- reading looks at types only, and none was added
    have hread' : ∀ sig' ∈ sigs,
        Signature.read S nothing (c.withObjects objects) sig'.definition = .ok sig' := by
      intro sig' hsig'
      rw [read_congr (c.type?_withObjects objects)]
      exact hread.2 sig' hsig'
    rw [List.append_cons] at hdiffer
    obtain ⟨objects', hrest, hlists'⟩ := ih hlists hnames.2 hread' hdiffer
    refine ⟨objects', ?_, ?_⟩
    · rw [List.map_cons, collect, hregister]
      dsimp only
      rw [hrest]
      rfl
    · rw [List.append_cons]
      exact hlists'

namespace Source.Module

variable {m : Source.Module} {S : StructStore} {nothing : Ty} {c c' : LookupContext}
  {sigs : List Signature}

/-- **What registering the functions of a module without errors leads to.** -/
theorem signatures_of_registerFunctions (hc : c.current.objects = [])
    (h : m.registerFunctions S nothing c = .ok (sigs, [], c')) :
    sigs.map (·.definition) = m.functions ∧
      (∀ sig ∈ sigs, Signature.read S nothing c sig.definition = .ok sig) ∧
      sigs.Pairwise (Signature.Differ S) ∧ (∃ objects, c' = c.withObjects objects) ∧
      c'.Lists (m.functions.map (·.name.text)) sigs := by
  obtain ⟨objects, hlists, hregister⟩ := registerFunctions_ok hc h
  obtain ⟨⟨objects', hc'⟩, hlists', hdiffer, hread⟩ := hlists.collect_register
    (fun f hf => List.mem_map.2 ⟨f, hf, rfl⟩) hregister
  refine ⟨?_, ?_, hdiffer, ⟨objects', hc'⟩, hlists'⟩
  · have hdefs := (collect_ok hregister).forall₂ (R := fun f sig => sig.definition = f) ?_
    · rw [← List.forall₂_eq_eq_eq, List.forall₂_map_left_iff]
      exact hdefs.flip
    · intro c₁ f sig c₂ hstep
      exact Signature.definition_of_read (Signature.register_ok hstep).1
  · intro sig hsig
    obtain ⟨f, -, hf⟩ := hread sig hsig
    rw [LookupContext.read_congr (c.type?_withObjects objects)] at hf
    rwa [Signature.definition_of_read hf]

/-- Functions whose signatures can be read and differ are registered. -/
theorem exists_registerFunctions (hc : c.current.objects = [])
    (hdefs : sigs.map (·.definition) = m.functions)
    (hread : ∀ sig ∈ sigs, Signature.read S nothing c sig.definition = .ok sig)
    (hdiffer : sigs.Pairwise (Signature.Differ S)) :
    ∃ c', m.registerFunctions S nothing c = .ok (sigs, [], c') ∧
      (∃ objects, c' = c.withObjects objects) ∧
      c'.Lists (m.functions.map (·.name.text)) sigs := by
  obtain ⟨objects, hreserve, hlists⟩ := (LookupContext.Lists.of_nil hc).collect_reserve m.functions
  rw [List.nil_append] at hlists
  have hnames : ∀ sig ∈ sigs, sig.definition.name.text ∈ m.functions.map (·.name.text) := by
    intro sig hsig
    rw [← hdefs]
    exact List.mem_map.2 ⟨_, List.mem_map.2 ⟨sig, hsig, rfl⟩, rfl⟩
  have hread' : ∀ sig ∈ sigs,
      Signature.read S nothing (c.withObjects objects) sig.definition = .ok sig := by
    intro sig hsig
    rw [LookupContext.read_congr (c.type?_withObjects objects)]
    exact hread sig hsig
  obtain ⟨objects', hregister, hlists'⟩ :=
    hlists.collect_register_of_differ hnames hread' hdiffer
  refine ⟨_, ?_, ⟨objects', rfl⟩, hlists'⟩
  rw [hdefs] at hregister
  simp only [registerFunctions, bind, Except.bind, hreserve, hregister]
  rfl

end Source.Module

/-! ### What names stand for -/

/-- Builtin operators are about scalars. -/
theorem BuiltinTypes.renumber_overload {types : BuiltinTypes} {ρ : StructId → StructId}
    {f : OverloadSet} (hf : f ∈ types.operators) {o : Overload} (ho : o ∈ f.overloads) :
    o.renumber ρ = o := by
  have hoperator : ∀ name operator arity operand result,
      (Overload.ofOperator name operator arity operand result).renumber ρ =
        .ofOperator name operator arity operand result := by
    intro name operator arity operand result
    simp [Overload.renumber, Overload.ofOperator]
  simp only [operators, List.mem_cons, List.not_mem_nil, or_false] at hf
  rcases hf with rfl | rfl | rfl | rfl | rfl | rfl | rfl | rfl | rfl | rfl | rfl
  case inl | inr.inl | inr.inr.inl | inr.inr.inr.inl =>
    obtain ⟨s, -, hs⟩ := List.mem_filterMap.1 ho
    obtain ⟨op, -, rfl⟩ := Option.map_eq_some_iff.1 hs
    exact hoperator ..
  case inr.inr.inr.inr.inr.inr.inr.inr.inr.inr =>
    rw [List.mem_singleton.1 ho]
    exact hoperator ..
  all_goals
    obtain ⟨s, -, rfl⟩ := List.mem_map.1 ho
    exact hoperator ..

namespace LookupContext.Registered

variable {cookie : Registration → Nat} {S S' : StructStore} {sigs sigs' : List Signature}
  {c c' : LookupContext} {names names' : List String} {L : Link}

/-- Builtin operators stand for themselves. -/
theorem root_object? (L : Link) (name : String) :
    Option.Rel (Object.Matches L) ((Builtins.prepare cookie).root.current.object? name)
      ((Builtins.prepare cookie).root.current.object? name) := by
  cases ho : (Builtins.prepare cookie).root.current.object? name with
  | none => exact .none
  | some object =>
    obtain ⟨f, hf, heq⟩ := List.mem_map.1 (mem_of_lookup ho)
    cases heq
    refine .some (.function (List.Perm.of_eq ?_))
    rw [List.map_congr_left fun o ho => BuiltinTypes.renumber_overload hf ho, List.map_id']

/-- **Names stand for the same in both contexts.** -/
theorem matches_of_lists (hc : c.Registered cookie S sigs) (hc' : c'.Registered cookie S' sigs')
    (h : Renumbers L.struct c c') (hlists : c.Lists names sigs) (hlists' : c'.Lists names' sigs')
    (hnames : ∀ name, name ∈ names' ↔ name ∈ names)
    (hsigs : sigs'.Perm (sigs.map (Signature.renumber L.struct))) : c.Matches L c' where
  type := hc.type?_renumber hc' h
  object name := by
    rw [hc.object?_eq, hc'.object?_eq, hlists name, hlists' name]
    by_cases hmem : name ∈ names
    · rw [if_pos hmem, if_pos ((hnames name).2 hmem)]
      exact .some (.function (Signature.perm_named_renumber hsigs name))
    · rw [if_neg hmem, if_neg (mt (hnames name).1 hmem)]
      exact root_object? L name
  taken name := by
    rw [hlists name, hlists' name]
    by_cases hmem : name ∈ names
    · rw [if_pos hmem, if_pos ((hnames name).2 hmem)]
      rfl
    · rw [if_neg hmem, if_neg (mt (hnames name).1 hmem)]
  casts := by
    simp only [LookupContext.castGraph, LookupContext.scopes, hc.outer, hc'.outer, List.map_cons,
      hc.casts, hc'.casts]

end LookupContext.Registered

end RangeTyping
