import Mathlib
import RangeTyping.Proofs.Order.Registration

/-!
# Definitions in any order

A module means the same whatever the order of its definitions: it is analysed without errors in one
order exactly if it is in every other, and then each definition comes to the same, up to the numbers
of structs and the identities that the analysis chose (`Session.analyze_perm`).

The three stages of an analysis are compared one by one: structs
(`Source.Module.exists_declareStructs`), signatures
(`Source.Module.exists_registerFunctions_renumber`) and bodies
(`LookupContext.Registered.exists_bodies`).  The two analyses may also start from different
sessions (`Session.Reached.exists_renamed`).
-/

namespace RangeTyping

/-! ### Structs -/

namespace LookupContext.Registered

variable {cookie : Registration → Nat} {S : StructStore} {sigs : List Signature}
  {c : LookupContext}

/-- What the members of a struct hold is declared. -/
theorem declares_of_held (hc : c.Registered cookie S sigs) {written : List Source.MemberDef}
    {ms : List (String × Ty)} (h : DeclaredStruct.members c written = .ok ms) {j : StructId} :
    ∀ m ∈ ms, m.2.held? = some j → c.Declares j := by
  induction written generalizing ms with
  | nil =>
    cases h
    exact fun m hm => absurd hm List.not_mem_nil
  | cons w ws ih =>
    obtain ⟨t, ht, h⟩ := Outcome.bind_ok h
    obtain ⟨rest, hrest, h⟩ := Outcome.bind_ok h
    cases h
    rw [List.forall_mem_cons]
    exact ⟨Ty.declared_of_held (LookupContext.plain_of_resolveType hc.scopes ht).known, ih hrest⟩

end LookupContext.Registered

namespace DeclaredStruct

variable {declared ds : List DeclaredStruct} {c : LookupContext}

theorem exists_of_declares (h : c.current.types = declared.map entry) {j : StructId}
    (hj : c.Declares j) : ∃ e ∈ declared, e.id? = some j := by
  obtain ⟨name, hmem⟩ := hj
  rw [h] at hmem
  obtain ⟨e, he, heq⟩ := List.mem_map.1 hmem
  refine ⟨e, he, ?_⟩
  rw [id?, (Prod.mk.inj heq).2]
  rfl

/-- The structs of a typed module follow the order of their definitions. -/
theorem reordered_typed (r : Renaming) (h : ds.Perm declared) :
    Reordered r.structOf (declared.map (·.definition)) (declared.map (·.typed))
      (ds.map (·.definition)) ((ds.map (renumber r.struct)).map (·.typed)) := by
  refine ⟨declared.map fun d => (d.definition, d.typed), ds.map fun d => (d.definition, d.typed),
    h.map _, ?_, ?_, ?_, ?_⟩
  · rw [List.map_map]
    rfl
  · rw [List.map_map]
    rfl
  · rw [List.map_map]
    rfl
  · rw [List.map_map, List.map_map]
    rfl

end DeclaredStruct

namespace Source.Module

variable {cookie : Registration → Nat} {m m' : Source.Module} {S F : StructStore}
  {c : LookupContext} {declared : List DeclaredStruct}

/-- **How the structs of a module without errors are declared.** -/
theorem declared_of_declareStructs
    (h : m.declareStructs S (Builtins.prepare cookie).moduleContext = .ok (declared, [], F, c)) :
    (m.structs.map (·.name.text)).Nodup ∧ declared = DeclaredStruct.number S.size m.structs ∧
      c = (Builtins.prepare cookie).moduleContext.addTypes (declared.map DeclaredStruct.entry) ∧
      DeclaredStruct.defineAll c (S.declareAll m.structs) declared = .ok (F, []) := by
  obtain ⟨S₁, hcollect, hdefine⟩ := declareStructs_ok h
  have hc := (LookupContext.Registered.moduleContext cookie S).declareStructs h
  have hdefs : declared.map (·.definition) = m.structs := by
    have hall := (collect_ok hcollect).forall₂ (R := fun f d => d.definition = f)
      fun s f d s' hd => by rw [(DeclaredStruct.declare_ok hd).1]
    rw [← List.forall₂_eq_eq_eq, List.forall₂_map_left_iff]
    exact hall.flip
  -- the names of the scope are different, those of the structs among them
  have hnodup : (m.structs.map (·.name.text)).Nodup := by
    have hnames := hc.names
    rw [(DeclaredStruct.types_collect_declare hcollect).1, List.map_append, List.nodup_append]
      at hnames
    rw [← hdefs, List.map_map]
    have hentries := hnames.2.1
    rw [List.map_map] at hentries
    exact hentries
  have heq := DeclaredStruct.collect_declare (S := S)
    (c := (Builtins.prepare cookie).moduleContext) hnodup
  rw [hcollect] at heq
  simp only [Except.ok.injEq, Prod.mk.injEq] at heq
  obtain ⟨rfl, -, rfl, rfl⟩ := heq
  exact ⟨hnodup, rfl, rfl, hdefine⟩

/-- **The structs of a module can be defined in any order.** -/
theorem exists_declareStructs (hperm : m'.structs.Perm m.structs) (T : StructStore)
    (h : m.declareStructs S (Builtins.prepare cookie).moduleContext = .ok (declared, [], F, c)) :
    ∃ (ρ : StructId → StructId) (ds : List DeclaredStruct) (F' : StructStore) (c' : LookupContext),
      Function.Injective ρ ∧ ds.Perm declared ∧ declared.map (·.definition) = m.structs ∧
      ds.map (·.definition) = m'.structs ∧
      m'.declareStructs T (Builtins.prepare cookie).moduleContext =
        .ok (ds.map (DeclaredStruct.renumber ρ), [], F', c') ∧
      LookupContext.Registered.Renumbers ρ c c' ∧
      ∀ d ∈ declared, ∃ i l, d.id? = some i ∧ F.layout? i = some l ∧
        F'.layout? (ρ i) = some (l.mapTypes (Ty.renumber ρ)) := by
  have hc := (LookupContext.Registered.moduleContext cookie S).declareStructs h
  obtain ⟨hnodup, hdeclared, rfl, hdefine⟩ := declared_of_declareStructs h
  obtain ⟨ρ, hρ, ds, hds, hnumber⟩ := DeclaredStruct.exists_renumbering S.size T.size hperm
  rw [← hdeclared] at hds
  -- the second run declares the same structs
  have hnames : (m'.structs.map (·.name.text)).Nodup := (hperm.map _).nodup_iff.2 hnodup
  have hcollect := DeclaredStruct.collect_declare (S := T)
    (c := (Builtins.prepare cookie).moduleContext) hnames
  have hc' := (LookupContext.Registered.moduleContext cookie T).collect_declare hcollect
  rw [hnumber] at hcollect hc'
  have hrenumbers : LookupContext.Registered.Renumbers ρ
      ((Builtins.prepare cookie).moduleContext.addTypes (declared.map DeclaredStruct.entry))
      ((Builtins.prepare cookie).moduleContext.addTypes
        ((ds.map (DeclaredStruct.renumber ρ)).map DeclaredStruct.entry)) := by
    show ((ds.map _).map _).Perm ((declared.map _).map _)
    rw [List.map_map, List.map_map]
    exact hds.map _
  have hbound : ∀ d ∈ declared, ∀ i, d.id? = some i → i < (S.declareAll m.structs).size :=
    fun d hd i hi => (DeclaredStruct.layout?_of_mem_number (hdeclared ▸ hd) hi).1
  have hT : ∀ d ∈ declared, ∀ i, d.id? = some i →
      ρ i < (T.declareAll m'.structs).size ∧ (T.declareAll m'.structs).layout? (ρ i) = none := by
    intro d hd i hi
    refine DeclaredStruct.layout?_of_mem_number (d := d.renumber ρ) ?_ ?_
    · rw [hnumber]
      exact List.mem_map_of_mem (hds.symm.subset hd)
    · rw [DeclaredStruct.id?_renumber, hi]
      rfl
  obtain ⟨F', hF', hlayouts⟩ := DeclaredStruct.exists_defineAll hdefine hbound
    (fun _ _ _ hms m hm _ hj => DeclaredStruct.exists_of_declares rfl
      (hc.declares_of_held hms m hm hj))
    (hc.type?_renumber hc' hrenumbers) hρ
    (hdeclared ▸ DeclaredStruct.nodup_number S.size m.structs) hT hds
  have hdefs' : ds.map (·.definition) = m'.structs := by
    have hdefs := DeclaredStruct.definition_number T.size m'.structs
    rw [hnumber, List.map_map] at hdefs
    exact hdefs
  refine ⟨ρ, ds, F', _, hρ, hds, hdeclared ▸ DeclaredStruct.definition_number S.size m.structs,
    hdefs', ?_, hrenumbers, hlayouts⟩
  simp only [declareStructs, bind, Except.bind, hcollect, hF']
  rfl

/-! ### Functions -/

/-- **The functions of a module can be registered in any order.** -/
theorem exists_registerFunctions_renumber {F' : StructStore} {c' c₁ : LookupContext}
    {ρ : StructId → StructId} {sigs : List Signature} (hperm : m'.functions.Perm m.functions)
    (hc : c.Registered cookie F []) (hc' : c'.Registered cookie F' [])
    (h : LookupContext.Registered.Renumbers ρ c c') (hρ : Function.Injective ρ)
    (hobjects : c.current.objects = []) (hobjects' : c'.current.objects = [])
    (hregister : m.registerFunctions F (BuiltinTypes.ofBackend cookie).voidTy c =
      .ok (sigs, [], c₁)) :
    ∃ (sigs' : List Signature) (c₁' : LookupContext), sigs'.Perm sigs ∧
      sigs.map (·.definition) = m.functions ∧ sigs'.map (·.definition) = m'.functions ∧
      m'.registerFunctions F' (BuiltinTypes.ofBackend cookie).voidTy c' =
        .ok (sigs'.map (Signature.renumber ρ), [], c₁') ∧
      LookupContext.Registered.Renumbers ρ c₁ c₁' ∧
      ∀ L : Link, L.struct = ρ → c₁.Matches L c₁' := by
  obtain ⟨hdefs, hread, hdiffer, ⟨objects, hc₁⟩, hlists⟩ :=
    signatures_of_registerFunctions hobjects hregister
  have hregistered := hc.registerFunctions rfl hregister
  -- signatures are put in the order of their definitions
  obtain ⟨sigs', hsigs', hdefs'⟩ := exists_perm_map_eq (hdefs ▸ hperm)
  have hread' : ∀ sig ∈ sigs'.map (Signature.renumber ρ),
      Signature.read F' (BuiltinTypes.ofBackend cookie).voidTy c' sig.definition = .ok sig := by
    rw [List.forall_mem_map]
    exact fun sig hsig => hc.read_renumber hc' h (hread sig (hsigs'.subset hsig))
  have hdiffer' : (sigs'.map (Signature.renumber ρ)).Pairwise (Signature.Differ F') := by
    refine Signature.pairwise_differ_renumber (hc.renumbers hc' h hρ) (fun sig hsig => ?_) hdiffer
      hsigs'
    exact (hc.plain_of_read rfl (hread sig hsig)).1.1
  have hdefs'' : (sigs'.map (Signature.renumber ρ)).map (·.definition) = m'.functions := by
    rw [List.map_map]
    exact hdefs'
  obtain ⟨c₁', hregister', ⟨objects', hc₁'⟩, hlists'⟩ :=
    exists_registerFunctions hobjects' hdefs'' hread' hdiffer'
  have hregistered' := hc'.registerFunctions rfl hregister'
  have hrenumbers : LookupContext.Registered.Renumbers ρ c₁ c₁' := by
    rw [hc₁, hc₁']
    exact h
  refine ⟨sigs', c₁', hsigs', hdefs, hdefs', hregister', hrenumbers, ?_⟩
  rintro L rfl
  refine hregistered.matches_of_lists hregistered' hrenumbers hlists hlists' (fun name => ?_)
    (hsigs'.map _)
  exact (hperm.map _).mem_iff

end Source.Module

/-! ### Bodies -/

namespace LookupContext.Registered

variable {cookie : Registration → Nat} {S S' : StructStore} {sigs sigs' : List Signature}
  {c c' : LookupContext} {ρ : StructId → StructId} {options options' : Options}

/-- **A function is analysed in the same way in both contexts**, whatever identities were drawn
before and possibly with more to spend. -/
theorem simulates_analyze (hc : c.Registered cookie S sigs) (hc' : c'.Registered cookie S' sigs')
    (h : Renumbers ρ c c') (hρ : Function.Injective ρ)
    (hmatches : ∀ L : Link, L.struct = ρ → c.Matches L c') (hoptions : options.RaisedTo options')
    {sig : Signature} (hsig : sig ∈ sigs) {s t : Fresh} (hs : 0 < s.nextValue) (ht : 0 < t.nextValue) :
    (Link.new ρ s t).Simulates (fun L' => L'.Same Renaming.function)
      (sig.analyze ⟨S, .ofBackend cookie, options, "", (BuiltinTypes.ofBackend cookie).voidTy, c⟩ s)
      ((sig.renumber ρ).analyze
        ⟨S', .ofBackend cookie, options', "", (BuiltinTypes.ofBackend cookie).voidTy, c'⟩ t) := by
  have hparallel : Env.Parallel hc.setting hc'.setting (Link.new ρ s t) [] [] s t
      ⟨S, .ofBackend cookie, options, "", (BuiltinTypes.ofBackend cookie).voidTy, c⟩
      ⟨S', .ofBackend cookie, options', "", (BuiltinTypes.ofBackend cookie).voidTy, c'⟩ :=
    { renumbers := hc.renumbers hc' h hρ
      returnType := rfl
      fits := Link.fits_new ρ hs ht
      left := hc.proper options "" hs
      right := hc'.proper options' "" ht
      same := ⟨hoptions, hmatches _ rfl⟩ }
  exact Signature.simulates_analyze hparallel (hc.plain sig hsig).1 (hc.plain sig hsig).2
    (hc.arity sig hsig)

/-- **The functions of a module can be analysed in any order.** -/
theorem exists_bodies (hc : c.Registered cookie S sigs)
    (hc' : c'.Registered cookie S' (sigs'.map (Signature.renumber ρ))) (hperm : sigs'.Perm sigs)
    (h : Renumbers ρ c c') (hρ : Function.Injective ρ)
    (hmatches : ∀ L : Link, L.struct = ρ → c.Matches L c') {s s' t : Fresh}
    (hs : 0 < s.nextValue) (ht : 0 < t.nextValue) {fs : List TypedFunction}
    (hrun : collect (fun fresh (sig : Signature) => sig.analyze ⟨S, .ofBackend cookie, options, "",
      (BuiltinTypes.ofBackend cookie).voidTy, c⟩ fresh) s sigs = .ok (fs, [], s')) :
    ∃ (fs' : List TypedFunction) (t' : Fresh) (r : Renaming),
      collect (fun fresh (sig : Signature) => sig.analyze ⟨S', .ofBackend cookie, options, "",
        (BuiltinTypes.ofBackend cookie).voidTy, c'⟩ fresh) t (sigs'.map (Signature.renumber ρ)) =
          .ok (fs', [], t') ∧
      r.struct = ρ ∧ Function.Injective r.value ∧ Function.Injective r.point ∧
      Reordered r.function sigs fs sigs' fs' := by
  refine Link.exists_collect_perm (fun sig hsig u v hu hv => ?_) (fun sig hsig u f u' hu hf => ?_)
    (fun sig hsig u f u' hu hf => ?_) hperm hs ht hrun
  · exact hc.simulates_analyze hc' h hρ hmatches (.refl options) hsig hu hv
  · exact ((hc.implements hu hsig hf).2 "").grew
  · have hmem : sig.renumber ρ ∈ sigs'.map (Signature.renumber ρ) :=
      List.mem_map_of_mem (hperm.symm.subset hsig)
    exact ((hc'.implements hu hmem hf).2 "").grew

end LookupContext.Registered

/-! ### Modules -/

/-- **The typed modules of two modules are the same up to a renaming**, which is one to one.  Each
function and each struct of the first is found in the second at the place of its definition, and
each struct has its name and its layout.  The structs are in the stores `S` and `S'`. -/
structure TypedModule.Renamed (r : Renaming) (m m' : Source.Module) (S S' : StructStore)
    (typed typed' : TypedModule) : Prop where
  struct : Function.Injective r.struct
  value : Function.Injective r.value
  point : Function.Injective r.point
  functions : Reordered r.function m.functions typed.functions m'.functions typed'.functions
  structs : Reordered r.structOf m.structs typed.structs m'.structs typed'.structs
  layouts : ∀ d ∈ typed.structs, ∃ i l, d.type = .struct .none i ∧
    S.name? i = some d.name ∧ S'.name? (r.struct i) = some d.name ∧
    S.layout? i = some l ∧ S'.layout? (r.struct i) = some (r.layout l)

namespace Session

variable {cookie : Registration → Nat} {s s' t : Session} {options : Options} {m m' : Source.Module}

/-- A typed module has the name and the place of its module. -/
theorem head_of_analyze {typed : TypedModule} (h : s.analyze options m = .ok (.ok typed, s')) :
    typed.id = s.nextModule ∧ typed.name = m.name ∧ typed.location = m.node.location := by
  obtain ⟨declared, c, sigs, c₁, hdeclare, hregister, hbodies, -⟩ := analyze_ok h
  have heq := analyze_eq hdeclare hregister hbodies
  rw [h] at heq
  have htyped := Except.ok.inj (Prod.mk.inj (Except.ok.inj heq)).1
  exact ⟨congrArg TypedModule.id htyped, congrArg TypedModule.name htyped,
    congrArg TypedModule.location htyped⟩

/-- **Modules with the same definitions have the same meaning**, in whatever order these stand and
whatever was analysed before. -/
theorem Reached.exists_renamed (hs : Reached cookie s) (ht : Reached cookie t)
    (hfunctions : m'.functions.Perm m.functions) (hstructs : m'.structs.Perm m.structs)
    {typed : TypedModule} (h : s.analyze options m = .ok (.ok typed, s')) :
    ∃ (typed' : TypedModule) (t' : Session) (r : Renaming),
      t.analyze options m' = .ok (.ok typed', t') ∧
      typed.Renamed r m m' s'.structs t'.structs typed' := by
  obtain ⟨hb, hpos⟩ := hs.invariant
  obtain ⟨hb', hpos'⟩ := ht.invariant
  obtain ⟨declared, c, sigs, c₁, hdeclare, hregister, hbodies, htyped⟩ := analyze_ok h
  have htypes : s.builtins.types = .ofBackend cookie := by
    rw [hb]
    rfl
  rw [hb] at hdeclare
  rw [htypes] at hregister hbodies
  -- the structs, which say how numbers change
  obtain ⟨ρ, ds, F, c', hρ, hds, hdefs, hdefs', hdeclare', hrenumbers, hlayouts⟩ :=
    Source.Module.exists_declareStructs hstructs t.structs hdeclare
  have hc := (LookupContext.Registered.moduleContext cookie s.structs).declareStructs hdeclare
  have hc' := (LookupContext.Registered.moduleContext cookie t.structs).declareStructs hdeclare'
  -- the signatures
  obtain ⟨sigs', c₁', hsigs, hsigdefs, hsigdefs', hregister', hrenumbers₁, hmatches⟩ :=
    Source.Module.exists_registerFunctions_renumber hfunctions hc hc' hrenumbers hρ
      (Source.Module.objects_of_declareStructs hdeclare)
      (Source.Module.objects_of_declareStructs hdeclare') hregister
  have hc₁ := hc.registerFunctions rfl hregister
  have hc₁' := hc'.registerFunctions rfl hregister'
  -- the bodies, which say how identities change
  obtain ⟨fs', fresh, r, hbodies', rfl, hvalue, hpoint, hreordered⟩ :=
    hc₁.exists_bodies hc₁' hsigs hrenumbers₁ hρ hmatches hpos hpos' hbodies
  have htypes' : t.builtins.types = .ofBackend cookie := by
    rw [hb']
    rfl
  rw [← hb'] at hdeclare'
  rw [← htypes'] at hregister' hbodies'
  refine ⟨_, _, r, analyze_eq hdeclare' hregister' hbodies', hρ, hvalue, hpoint, ?_, ?_, ?_⟩
  · rw [← hsigdefs, ← hsigdefs']
    exact hreordered.map _
  · rw [htyped, ← hdefs, ← hdefs']
    exact DeclaredStruct.reordered_typed r hds
  · rw [htyped, List.forall_mem_map]
    intro d hd
    obtain ⟨i, l, hi, hl, hl'⟩ := hlayouts d hd
    have hentry : (d.definition.name.text, d.type) ∈ c.current.types := by
      rw [(Source.Module.declared_of_declareStructs hdeclare).2.2.1]
      exact List.mem_map_of_mem hd
    obtain ⟨j, hj, -, hname, hname'⟩ := hc.exists_struct hc' hrenumbers hentry
    rw [DeclaredStruct.id?, hj] at hi
    cases hi
    exact ⟨i, l, hj, hname, hname', hl, hl'⟩

/-- **The order of definitions does not matter.**  A module is analysed without errors exactly if
it is so with its definitions in any other order.  Then the two typed modules have the same
functions and the same structs, each at the place of its definition: bodies, types, ranges, symbols
and layouts are the same up to a renaming that is one to one. -/
theorem analyze_perm (hs : Reached cookie s) (options : Options) (m : Source.Module)
    {definitions : List Source.Definition} (h : definitions.Perm m.definitions) :
    ((∃ typed s₁, s.analyze options m = .ok (.ok typed, s₁)) ↔
      ∃ typed s₁, s.analyze options { m with definitions } = .ok (.ok typed, s₁)) ∧
    ∀ typed s₁ typed' s₂, s.analyze options m = .ok (.ok typed, s₁) →
      s.analyze options { m with definitions } = .ok (.ok typed', s₂) →
      (typed'.id = typed.id ∧ typed'.name = typed.name ∧ typed'.location = typed.location) ∧
      ∃ r, typed.Renamed r m { m with definitions } s₁.structs s₂.structs typed' := by
  have hfunctions : ({ m with definitions } : Source.Module).functions.Perm m.functions :=
    h.filterMap _
  have hstructs : ({ m with definitions } : Source.Module).structs.Perm m.structs :=
    h.filterMap _
  refine ⟨⟨?_, ?_⟩, ?_⟩
  · rintro ⟨typed, s₁, hm⟩
    obtain ⟨typed', s₂, _, hm', -⟩ := hs.exists_renamed hs hfunctions hstructs hm
    exact ⟨typed', s₂, hm'⟩
  · rintro ⟨typed, s₁, hm⟩
    obtain ⟨typed', s₂, _, hm', -⟩ := hs.exists_renamed hs hfunctions.symm hstructs.symm hm
    exact ⟨typed', s₂, hm'⟩
  · intro typed s₁ typed' s₂ hm hm'
    obtain ⟨typed'', s₃, r, heq, hr⟩ := hs.exists_renamed hs hfunctions hstructs hm
    rw [hm'] at heq
    cases heq
    obtain ⟨hid, hname, hlocation⟩ := head_of_analyze hm
    obtain ⟨hid', hname', hlocation'⟩ := head_of_analyze hm'
    exact ⟨⟨hid'.trans hid.symm, hname'.trans hname.symm, hlocation'.trans hlocation.symm⟩, r, hr⟩

/-- A module whose first struct holds the second and points to itself, with two functions of one
name that call each other. -/
def weave : Source.Module :=
  let node : Source.Node := ⟨0, ⟨1, 1, "weave"⟩⟩
  let name (text : String) : Source.Name := ⟨node, text⟩
  let byte : Source.TypeExpr := .simple node "U8"
  let line : Source.TypeExpr := .pointer node (.simple node "Line")
  ⟨node, "weave",
    [ .function ⟨node, name "pick", [⟨node, name "n", byte⟩, ⟨node, name "l", line⟩],
        some (.simple node "U32"),
        .value node [] (.ifElse node
          (.binary node .lt (.identifier (name "n")) (.number node "10"))
          (.value node [] (.number node "7"))
          (.value node [] (.call node (name "pick") [.identifier (name "l")])))⟩,
      .struct ⟨node, name "Line",
        [⟨node, name "ends", .array node (.simple node "Point") 2⟩, ⟨node, name "next", line⟩]⟩,
      .function ⟨node, name "pick", [⟨node, name "l", line⟩], some (.simple node "U32"),
        .value node [] (.call node (name "pick") [.number node "3", .identifier (name "l")])⟩,
      .struct ⟨node, name "Point", [⟨node, name "x", byte⟩, ⟨node, name "y", byte⟩]⟩ ]⟩

set_option maxRecDepth 10000 in
theorem analyze_perm_weave :
    Reached (fun _ => 0) (start fun _ => 0) ∧ weave.definitions.reverse.Perm weave.definitions ∧
      ∃ typed s₁ typed' s₂ r, (start fun _ => 0).analyze .default weave = .ok (.ok typed, s₁) ∧
        (start fun _ => 0).analyze .default
          { weave with definitions := weave.definitions.reverse } = .ok (.ok typed', s₂) ∧
        typed.structs.map (·.name) = ["Line", "Point"] ∧
        typed.functions.map (·.name) = ["pick", "pick"] ∧
        typed.Renamed r weave { weave with definitions := weave.definitions.reverse } s₁.structs
          s₂.structs typed' := by
  have hperm := weave.definitions.reverse_perm
  obtain ⟨typed, s₁, h, htest⟩ := exists_typed_of_test
    (x := (start fun _ => 0).analyze .default weave)
    (p := fun typed => decide (typed.structs.map (·.name) = ["Line", "Point"] ∧
      typed.functions.map (·.name) = ["pick", "pick"])) (by decide +kernel)
  obtain ⟨hiff, hrenamed⟩ := analyze_perm .start .default weave hperm
  obtain ⟨typed', s₂, h'⟩ := hiff.1 ⟨typed, s₁, h⟩
  obtain ⟨-, r, hr⟩ := hrenamed typed s₁ typed' s₂ h h'
  obtain ⟨hstructs, hfunctions⟩ := of_decide_eq_true htest
  exact ⟨.start, hperm, typed, s₁, typed', s₂, r, h, h', hstructs, hfunctions, hr⟩

end Session

end RangeTyping
