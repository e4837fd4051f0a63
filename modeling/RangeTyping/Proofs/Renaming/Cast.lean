import Mathlib
import RangeTyping.Proofs.Cast.Chain
import RangeTyping.Proofs.Renaming.Runs

/-!
# Conversions after renumbering

The search for a cheapest chain of conversions compares types and adds up weights; it does not look
at the numbers of structs.  So when structs are renumbered, the search goes through the same steps on
renumbered types (`Search.explore_renumber`), and a query is answered by the renumbered chain or
refused for the same reason (`CastQuery.resolve_renumber`).

What this takes is that renumbered types are equal if the types are, and that the same conversions
lead to them (`CastGraph.Renumbers`).  It holds between the types of two settings
(`Setting.Renumbers.castGraph`).
-/

namespace RangeTyping

/-! ### Renumbering conversions -/

/-- The conversion between the renumbered types. -/
def Cast.renumber (ρ : StructId → StructId) (c : Cast) : Cast :=
  { c with
    source := c.source.renumber ρ
    destination := c.destination.renumber ρ }

/-- The node with its type renumbered. -/
def SearchNode.renumber (ρ : StructId → StructId) (n : SearchNode) : SearchNode :=
  { n with type := n.type.renumber ρ }

/-- The edge with its conversion renumbered. -/
def SearchEdge.renumber (ρ : StructId → StructId) (e : SearchEdge) : SearchEdge :=
  { e with cast := e.cast.renumber ρ }

/-- The search on renumbered types. -/
def Search.renumber (ρ : StructId → StructId) (s : Search) : Search :=
  ⟨s.nodes.map (SearchNode.renumber ρ), s.edges.map (SearchEdge.renumber ρ), s.origin⟩

/-- The query between the renumbered types. -/
def CastQuery.renumber (ρ : StructId → StructId) (q : CastQuery) : CastQuery :=
  { q with
    source := q.source.renumber ρ
    destination := q.destination.renumber ρ }

/-- The step with its conversion renumbered. -/
def ChainStep.renumber (ρ : StructId → StructId) (s : ChainStep) : ChainStep :=
  { s with cast := s.cast.renumber ρ }

/-- The chain with its conversions renumbered. -/
def Chain.renumber (ρ : StructId → StructId) (c : Chain) : Chain :=
  { c with steps := c.steps.map (ChainStep.renumber ρ) }

/-- The error with its types renumbered. -/
def CastError.renumber (ρ : StructId → StructId) : CastError → CastError
  | .noPath t u => .noPath (t.renumber ρ) (u.renumber ρ)
  | .ambiguous t u paths => .ambiguous (t.renumber ρ) (u.renumber ρ) paths
  | .tooExpensive weight limit => .tooExpensive weight limit
  | .rangeUnsafe t u range => .rangeUnsafe (t.renumber ρ) (u.renumber ρ) range

/-! ### The graph -/

/-- **The graph looks the same after renumbering** to types with the property `P`, which conversions
hand on backwards. -/
structure CastGraph.Renumbers (G : CastGraph) (S S' : StructStore) (ρ : StructId → StructId)
    (P : Ty → Prop) : Prop where
  same : ∀ t u, P t → P u → (t.renumber ρ).same S' (u.renumber ρ) = t.same S u
  castsTo : ∀ t, P t → G.castsTo S' (t.renumber ρ) = (G.castsTo S t).map (Cast.renumber ρ)
  source : ∀ t, P t → ∀ c ∈ G.castsTo S t, P c.source
  transform : ∀ t, P t → ∀ c ∈ G.castsTo S t, ∀ (r : ValueRange) (implicit : Bool),
    c.transform (c.source.renumber ρ) (c.destination.renumber ρ) r implicit =
      c.transform c.source c.destination r implicit

namespace BuiltinTypes

variable {cookie : Registration → Nat} {ρ : StructId → StructId} {S S' : StructStore} {t : Ty}
  {c : Cast}

/-- Builtin conversions mention no structs. -/
theorem renumber_of_mem_casts (hc : c ∈ (ofBackend cookie).casts.casts) : c.renumber ρ = c := by
  rcases mem_casts hc with ⟨a, -, b, -, -, rfl⟩ | rfl | rfl
  · rw [Cast.ofIntegers]
    split <;> rfl
  · rfl
  · rfl

/-- The builtin conversions to a renumbered type are those to the type, if the same scalars are equal
to it. -/
theorem find_renumber (h : ∀ b ∈ (ofBackend cookie).all,
      (Ty.ofScalar b).same S' (t.renumber ρ) = (Ty.ofScalar b).same S t) :
    CastTable.find S' (t.renumber ρ) (ofBackend cookie).casts =
      (CastTable.find S t (ofBackend cookie).casts).map (Cast.renumber ρ) := by
  suffices hfind : ∀ table : CastTable, (∀ entry ∈ table, entry ∈ (ofBackend cookie).casts) →
      CastTable.find S' (t.renumber ρ) table =
        (CastTable.find S t table).map (Cast.renumber ρ) from
    hfind _ fun _ hentry => hentry
  intro table hsub
  induction table with
  | nil => rfl
  | cons entry rest ih =>
    rw [List.forall_mem_cons] at hsub
    obtain ⟨key, casts⟩ := entry
    obtain ⟨b, hb, hkey, -⟩ := entry_of_mem_casts hsub.1
    have hkey : key = .ofScalar b := hkey
    rw [CastTable.find, CastTable.find, hkey, h b hb]
    split
    · -- the conversions of an entry are builtin ones
      have hfixed : ∀ c ∈ casts, c.renumber ρ = id c := fun c hc =>
        renumber_of_mem_casts (List.mem_flatMap.2 ⟨_, hsub.1, hc⟩)
      rw [List.map_congr_left hfixed, List.map_id]
    · exact ih hsub.2

/-- The range rule of a builtin conversion or of a decay does not look at structs. -/
theorem transform_renumber {u : Ty} (hc : c ∈ (ofBackend cookie).casts.casts ∨ c ∈ Cast.decays u)
    (p : ValueRange) (implicit : Bool) :
    c.transform (c.source.renumber ρ) (c.destination.renumber ρ) p implicit =
      c.transform c.source c.destination p implicit := by
  rcases hc with hc | hc
  · have hfixed := renumber_of_mem_casts (ρ := ρ) hc
    rw [show c.source.renumber ρ = c.source from congrArg Cast.source hfixed,
      show c.destination.renumber ρ = c.destination from congrArg Cast.destination hfixed]
  · rw [Setting.transform_of_mem_decays hc]
    rfl

end BuiltinTypes

theorem Cast.decays_renumber {ρ : StructId → StructId} (t : Ty) :
    Cast.decays (t.renumber ρ) = (Cast.decays t).map (Cast.renumber ρ) := by
  simp [Cast.decays, Cast.renumber]

namespace Setting.Renumbers

variable {X Y : Setting} {ρ : StructId → StructId} {t : Ty} {c : Cast} {G : CastGraph}

/-- **The conversions that end at a renumbered type** are those that end at the type. -/
theorem castsTo_renumber (h : X.Renumbers Y ρ) (hG : X.Carries G) (ht : X.Known t) :
    G.castsTo Y.structs (t.renumber ρ) = (G.castsTo X.structs t).map (Cast.renumber ρ) := by
  have htables : G.tables.flatMap (CastTable.find Y.structs (t.renumber ρ)) =
      (G.tables.flatMap (CastTable.find X.structs t)).map (Cast.renumber ρ) := by
    rw [List.map_flatMap]
    refine List.flatMap_congr fun table htable => ?_
    rcases hG table htable with rfl | rfl
    · rfl
    · exact BuiltinTypes.find_renumber fun b hb => h.same (plain_ofScalar hb).known ht
  rw [CastGraph.castsTo, CastGraph.castsTo, htables, Ty.flags_renumber, Cast.decays_renumber,
    List.map_append]
  split <;> rfl

/-- **The graph of a setting looks the same after renumbering.** -/
theorem castGraph (h : X.Renumbers Y ρ) (hG : X.Carries G) :
    G.Renumbers X.structs Y.structs ρ X.Known where
  same _ _ ht hu := h.same ht hu
  castsTo _ ht := h.castsTo_renumber hG ht
  source t ht c hc := known_source_of_mem_castsTo hG t ht c hc
  transform _ ht c hc r implicit := by
    have hcases : ∃ u, c ∈ X.types.casts.casts ∨ c ∈ Cast.decays u := by
      rcases (edge_of_mem_castsTo hG ht hc).1 with hbuiltin | ⟨u, -, hdecay⟩
      · exact ⟨c.source, .inl hbuiltin⟩
      · exact ⟨u, .inr hdecay⟩
    obtain ⟨u, hu⟩ := hcases
    exact BuiltinTypes.transform_renumber hu r implicit

end Setting.Renumbers

/-! ### The search -/

namespace Search

variable {S S' : StructStore} {P : Ty → Prop} {ρ : StructId → StructId} {s : Search} {c : Cast}
  {G : CastGraph} {source destination : Ty} {implicit : Bool}

theorem nearest_renumber (nodes : List SearchNode) (k : Nat) :
    nearest k (nodes.map (SearchNode.renumber ρ)) =
      (nearest k nodes).map fun p => (p.1, p.2.renumber ρ) := by
  induction nodes generalizing k with
  | nil => rfl
  | cons n rest ih =>
    rw [List.map_cons, nearest, nearest, ih]
    cases nearest (k + 1) rest with
    | none =>
      show (if (!n.expanded && decide (n.distance < maxWeight)) = true then _ else _) =
        Option.map _ (if (!n.expanded && decide (n.distance < maxWeight)) = true then _ else _)
      split <;> rfl
    | some p =>
      show (if (!n.expanded && decide (n.distance < maxWeight) &&
          decide (n.distance ≤ p.2.distance)) = true then _ else _) =
        Option.map _ (if (!n.expanded && decide (n.distance < maxWeight) &&
          decide (n.distance ≤ p.2.distance)) = true then _ else _)
      split <;> rfl

/-- Changing one node and renumbering can be done in either order. -/
theorem modify_renumber (nodes : List SearchNode) (i : Nat) {f : SearchNode → SearchNode}
    (hf : ∀ n, f (n.renumber ρ) = (f n).renumber ρ) :
    (nodes.map (SearchNode.renumber ρ)).modify i f =
      (nodes.modify i f).map (SearchNode.renumber ρ) := by
  refine List.ext_getElem? fun j => ?_
  rw [List.getElem?_modify, List.getElem?_map, List.getElem?_map, List.getElem?_modify]
  by_cases hij : i = j
  · cases nodes[j]? with
    | none => simp
    | some n => simp [hij, hf]
  · cases nodes[j]? with
    | none => simp
    | some n => simp [hij]

theorem mark_renumber (s : Search) (i : Nat) : (s.renumber ρ).mark i = (s.mark i).renumber ρ := by
  rw [mark, renumber, mark, renumber]
  exact congrArg (Search.mk · _ _) (modify_renumber s.nodes i fun _ => rfl)

theorem findIdx?_renumber (h : G.Renumbers S S' ρ P) {nodes : List SearchNode} {t : Ty}
    (hnodes : ∀ n ∈ nodes, P n.type) (ht : P t) :
    (nodes.map (SearchNode.renumber ρ)).findIdx? (·.type.same S' (t.renumber ρ)) =
      nodes.findIdx? (·.type.same S t) := by
  induction nodes with
  | nil => rfl
  | cons n rest ih =>
    rw [List.forall_mem_cons] at hnodes
    have hsame : (n.renumber ρ).type.same S' (t.renumber ρ) = n.type.same S t :=
      h.same _ _ hnodes.1 ht
    rw [List.map_cons, List.findIdx?_cons, List.findIdx?_cons, hsame, ih hnodes.2]

theorem relax_renumber (h : G.Renumbers S S' ρ P) (hnodes : ∀ n ∈ s.nodes, P n.type)
    (hc : P c.source) (i : Nat) (d : Weight) :
    (s.renumber ρ).relax S' i d (c.renumber ρ) = (s.relax S i d c).renumber ρ := by
  have hfind : (s.renumber ρ).nodes.findIdx? (·.type.same S' (c.renumber ρ).source) =
      s.nodes.findIdx? (·.type.same S c.source) := findIdx?_renumber h hnodes hc
  unfold relax
  dsimp only
  rw [hfind]
  cases s.nodes.findIdx? (·.type.same S c.source) with
  | some j =>
    have hmodify := modify_renumber (ρ := ρ) s.nodes j
      (f := fun n => { n with distance := min (addWeight d c.weight) n.distance }) fun _ => rfl
    simp only [renumber, List.map_append, ← hmodify]
    rfl
  | none =>
    simp only [renumber, List.map_append, List.length_map]
    rfl

theorem foldl_relax_renumber (h : G.Renumbers S S' ρ P) {casts : List Cast} {i : Nat} {d : Weight}
    {t : Ty} (hs : s.Traces S G implicit P source destination)
    (hi : s.typeAt? i = some t)
    (hc : ∀ c ∈ casts, c ∈ G.castsTo S t ∧ c.usable implicit = true ∧ P c.source) :
    (casts.map (Cast.renumber ρ)).foldl (relax S' i d) (s.renumber ρ) =
      (casts.foldl (relax S i d) s).renumber ρ := by
  induction casts generalizing s with
  | nil => rfl
  | cons c rest ih =>
    rw [List.forall_mem_cons] at hc
    obtain ⟨hmem, husable, hknown⟩ := hc.1
    obtain ⟨hs', hkeep⟩ := traces_relax (d := d) hs hi hmem husable hknown
    rw [List.map_cons, List.foldl_cons, List.foldl_cons, relax_renumber h hs.kept hknown]
    exact ih hs' (hkeep _ _ hi) hc.2

/-- **A step of the search** goes the same on renumbered types. -/
theorem step_renumber (h : G.Renumbers S S' ρ P) (hsource : P source)
    (hs : s.Traces S G implicit P source destination) :
    (s.renumber ρ).step S' G (source.renumber ρ) implicit =
      (s.step S G source implicit).map (renumber ρ) := by
  unfold step
  have hnear : nearest 0 (s.renumber ρ).nodes =
      (nearest 0 s.nodes).map fun p => (p.1, p.2.renumber ρ) := nearest_renumber s.nodes 0
  rw [hnear]
  cases hn : nearest 0 s.nodes with
  | none => rfl
  | some p =>
    obtain ⟨i, n⟩ := p
    obtain ⟨-, hni⟩ := getElem?_nearest hn
    rw [Nat.sub_zero] at hni
    have hknown := hs.kept n (List.mem_of_getElem? hni)
    have hsame : (n.renumber ρ).type.same S' (source.renumber ρ) = n.type.same S source :=
      h.same _ _ hknown hsource
    dsimp only [Option.map_some]
    rw [hsame, mark_renumber]
    show (if s.origin.any (·.2 < n.distance) = true then none else _) = _
    split
    · rfl
    split
    · rfl
    · obtain ⟨hmark, htype⟩ := traces_mark hs i
      have hi : (s.mark i).typeAt? i = some n.type := by
        rw [htype, typeAt?, hni]
        rfl
      have hcasts : ((G.castsTo S' (n.renumber ρ).type).filter (·.usable implicit)) =
          ((G.castsTo S n.type).filter (·.usable implicit)).map (Cast.renumber ρ) := by
        rw [show (n.renumber ρ).type = n.type.renumber ρ from rfl, h.castsTo _ hknown,
          List.filter_map]
        rfl
      rw [hcasts]
      refine congrArg some (foldl_relax_renumber h hmark hi fun c hc => ?_)
      obtain ⟨hmem, husable⟩ := List.mem_filter.1 hc
      exact ⟨hmem, husable, h.source _ hknown c hmem⟩

/-- **The whole search** goes the same on renumbered types. -/
theorem explore_renumber (h : G.Renumbers S S' ρ P) (hsource : P source)
    (hdest : P destination) :
    explore S' G (source.renumber ρ) (destination.renumber ρ) implicit =
      (explore S G source destination implicit).renumber ρ := by
  suffices hrun : ∀ fuel (s : Search),
      s.Traces S G implicit P source destination →
      (s.renumber ρ).run S' G (source.renumber ρ) implicit fuel =
        (s.run S G source implicit fuel).renumber ρ from
    hrun G.typeBound (start destination) (traces_start hdest)
  intro fuel
  induction fuel with
  | zero => exact fun s _ => rfl
  | succ fuel ih =>
    intro s hs
    rw [run, run, step_renumber h hsource hs]
    cases hstep : s.step S G source implicit with
    | none => rfl
    | some s' =>
      exact ih s' (traces_step (fun t ht c hc _ => h.source t ht c hc) hs hstep)

/-! ### Chains -/

theorem distance_renumber (s : Search) (i : Nat) : (s.renumber ρ).distance i = s.distance i := by
  rw [distance, distance, renumber, List.getElem?_map, Option.map_map]
  rfl

theorem tight_renumber (s : Search) :
    (s.renumber ρ).tight = s.tight.map (SearchEdge.renumber ρ) := by
  rw [tight, tight, show (s.renumber ρ).edges = s.edges.map (SearchEdge.renumber ρ) from rfl,
    List.filter_map]
  congr 1
  refine List.filter_congr fun e _ => ?_
  show ((s.renumber ρ).distance e.source == addWeight ((s.renumber ρ).distance e.target) _) = _
  rw [distance_renumber, distance_renumber]
  rfl

theorem walkCounts_renumber (edges : List SearchEdge) (size rounds : Nat) :
    walkCounts (edges.map (SearchEdge.renumber ρ)) size rounds = walkCounts edges size rounds := by
  induction rounds with
  | zero => rfl
  | succ rounds ih =>
    rw [walkCounts, walkCounts, ih, List.foldl_map]
    rfl

theorem follow_renumber (edges : List SearchEdge) (fuel i : Nat) :
    follow (edges.map (SearchEdge.renumber ρ)) fuel i =
      (follow edges fuel i).map (List.map (Cast.renumber ρ)) := by
  induction fuel generalizing i with
  | zero =>
    cases i <;> rfl
  | succ fuel ih =>
    cases i with
    | zero => rfl
    | succ i =>
      simp only [follow]
      have hsource : (fun e : SearchEdge => e.source == i + 1) ∘ SearchEdge.renumber ρ =
          fun e => e.source == i + 1 := rfl
      rw [List.find?_map, hsource]
      cases edges.find? (·.source == i + 1) with
      | none => rfl
      | some e =>
        show (follow (edges.map (SearchEdge.renumber ρ)) fuel e.target).map _ = _
        rw [ih, Option.map_map, Option.map_map]
        rfl

theorem chainCount_renumber (s : Search) (i : Nat) :
    (s.renumber ρ).chainCount i = s.chainCount i := by
  rw [chainCount, chainCount, tight_renumber, renumber, List.length_map, walkCounts_renumber]

theorem chain_renumber (s : Search) (i : Nat) :
    (s.renumber ρ).chain i = (s.chain i).map (List.map (Cast.renumber ρ)) := by
  rw [chain, chain, tight_renumber, renumber, List.length_map, follow_renumber]

end Search

/-! ### Queries -/

namespace CastQuery

variable {S S' : StructStore} {P : Ty → Prop} {ρ : StructId → StructId} {q : CastQuery} {c : Cast}
  {G : CastGraph}

theorem cheapestDirect_renumber (h : G.Renumbers S S' ρ P) (hs : P q.source)
    (hd : P q.destination) :
    (q.renumber ρ).cheapestDirect S' G = (q.cheapestDirect S G).map (Cast.renumber ρ) := by
  have hdirect : (G.castsTo S' (q.renumber ρ).destination).filter (fun c =>
      c.usable (q.renumber ρ).implicit && c.source.same S' (q.renumber ρ).source) =
      ((G.castsTo S q.destination).filter fun c =>
        c.usable q.implicit && c.source.same S q.source).map (Cast.renumber ρ) := by
    rw [show (q.renumber ρ).destination = q.destination.renumber ρ from rfl, h.castsTo _ hd,
      List.filter_map]
    congr 1
    refine List.filter_congr fun c hc => ?_
    exact congrArg (c.usable q.implicit && ·) (h.same _ _ (h.source _ hd c hc) hs)
  unfold cheapestDirect
  dsimp only
  rw [hdirect, List.filter_map]
  congr 1
  refine List.filter_congr fun c _ => ?_
  simp only [Function.comp_apply, List.all_map]
  rfl

theorem searchedChain_renumber (h : G.Renumbers S S' ρ P) (hs : P q.source)
    (hd : P q.destination) :
    Outcome.Agrees (fun d e => e = d.renumber ρ) (fun cs cs' => cs' = cs.map (Cast.renumber ρ))
      (q.searchedChain S G) ((q.renumber ρ).searchedChain S' G) := by
  unfold searchedChain
  have hexplore : Search.explore S' G (q.renumber ρ).source (q.renumber ρ).destination
      (q.renumber ρ).implicit =
      (Search.explore S G q.source q.destination q.implicit).renumber ρ :=
    Search.explore_renumber h hs hd
  rw [hexplore]
  dsimp only
  rw [show ((Search.explore S G q.source q.destination q.implicit).renumber ρ).origin =
    (Search.explore S G q.source q.destination q.implicit).origin from rfl]
  cases (Search.explore S G q.source q.destination q.implicit).origin with
  | none => exact .fail rfl
  | some p =>
    dsimp only
    rw [Search.chainCount_renumber, Search.chain_renumber]
    split
    · exact .fail rfl
    · cases (Search.explore S G q.source q.destination q.implicit).chain p.1 with
      | none => exact .internal _ _
      | some casts => exact .ok rfl

theorem casts_renumber (h : G.Renumbers S S' ρ P) (hs : P q.source) (hd : P q.destination) :
    Outcome.Agrees (fun d e => e = d.renumber ρ) (fun cs cs' => cs' = cs.map (Cast.renumber ρ))
      (q.casts S G) ((q.renumber ρ).casts S' G) := by
  unfold casts
  rw [cheapestDirect_renumber h hs hd]
  rcases q.cheapestDirect S G with _ | ⟨c, _ | ⟨c', rest⟩⟩
  · exact searchedChain_renumber h hs hd
  · exact .ok rfl
  · refine .fail ?_
    rw [← List.map_cons, List.length_map]
    rfl

theorem admits_renumber (implicit : Bool) (c : Cast) (r : Option ValueRange) :
    admits implicit (c.renumber ρ) r = admits implicit c r := by
  unfold admits
  rw [show (c.renumber ρ).destination = c.destination.renumber ρ from rfl, Ty.asScalar?_renumber]
  rfl

theorem rangeAfter_renumber (htransform : ∀ (p : ValueRange) (implicit : Bool),
      c.transform (c.source.renumber ρ) (c.destination.renumber ρ) p implicit =
        c.transform c.source c.destination p implicit) (q : CastQuery) (r : Option ValueRange) :
    Outcome.Agrees (fun d e => e = d.renumber ρ) (· = ·) (q.rangeAfter c r)
      ((q.renumber ρ).rangeAfter (c.renumber ρ) r) := by
  unfold rangeAfter
  rw [admits_renumber]
  refine .bind (.ofInternal _) ?_
  rintro admitted _ - - rfl
  cases admitted with
  | false => exact .fail rfl
  | true =>
    cases r with
    | none =>
      show Outcome.Agrees _ _ (Outcome.ofInternal c.destination.fullRange)
        (Outcome.ofInternal (c.destination.renumber ρ).fullRange)
      rw [Ty.fullRange_renumber]
      exact .ofInternal _
    | some p =>
      simp only [if_true]
      rw [show (c.renumber ρ).transform (c.renumber ρ).source (c.renumber ρ).destination p
          (q.renumber ρ).implicit = c.transform c.source c.destination p q.implicit from
        htransform p q.implicit]
      refine .bind (.ofInternal _) ?_
      rintro after _ - - rfl
      cases after with
      | none => exact .fail rfl
      | some after => exact .ok rfl

theorem steps_renumber {casts : List Cast} (htransform : ∀ c ∈ casts, ∀ (p : ValueRange)
      (implicit : Bool), c.transform (c.source.renumber ρ) (c.destination.renumber ρ) p implicit =
        c.transform c.source c.destination p implicit) (q : CastQuery) (r : Option ValueRange) :
    Outcome.Agrees (fun d e => e = d.renumber ρ) (fun ss ss' => ss' = ss.map (ChainStep.renumber ρ))
      (q.steps r casts) ((q.renumber ρ).steps r (casts.map (Cast.renumber ρ))) := by
  induction casts generalizing r with
  | nil => exact .ok rfl
  | cons c rest ih =>
    rw [List.forall_mem_cons] at htransform
    refine .bind (rangeAfter_renumber htransform.1 q r) ?_
    rintro after _ - - rfl
    refine .bind (ih htransform.2 after) ?_
    rintro others _ - - rfl
    exact .ok rfl

theorem totalWeight_renumber (casts : List Cast) :
    totalWeight (casts.map (Cast.renumber ρ)) = totalWeight casts := by
  rw [totalWeight, totalWeight, List.foldl_map]
  rfl

/-- **A query between renumbered types** has the renumbered answer. -/
theorem resolve_renumber (h : G.Renumbers S S' ρ P) (hs : P q.source) (hd : P q.destination) :
    Outcome.Agrees (fun d e => e = d.renumber ρ) (fun c c' => c' = c.renumber ρ) (q.resolve S G)
      ((q.renumber ρ).resolve S' G) := by
  unfold resolve
  have hsame : (q.renumber ρ).source.same S' (q.renumber ρ).destination =
      q.source.same S q.destination := h.same _ _ hs hd
  rw [hsame]
  split
  · exact .ok rfl
  · refine .bind (casts_renumber h hs hd) ?_
    rintro casts _ hcasts - rfl
    dsimp only
    rw [totalWeight_renumber, show (q.renumber ρ).limit = q.limit from rfl]
    split
    · exact .fail rfl
    · -- every conversion of the chain ends at a type with the property
      obtain ⟨t, -, hleads⟩ := CastGraph.leads_of_casts (P := P)
        (fun t ht c hc _ => h.source t ht c hc) hd hcasts
      have htransform := fun c hc =>
        let ⟨u, hu, hmem⟩ := hleads.exists_of_mem hd c hc
        h.transform u hu c hmem
      refine .bind (steps_renumber htransform q q.range) ?_
      rintro steps _ - - rfl
      refine .ok ?_
      rw [Chain.renumber, List.getLast?_map, Option.map_map]
      rfl

end CastQuery

end RangeTyping
