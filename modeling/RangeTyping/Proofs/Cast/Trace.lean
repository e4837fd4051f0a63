import Mathlib
import RangeTyping.Cast.Resolve
import RangeTyping.Proofs.Equality
import RangeTyping.Proofs.Outcome

/-!
# Where the conversions of a chain lead

The search for a cheapest chain keeps an invariant (`Search.Traces`): every conversion it has seen
starts at the type of one node and ends at the type of another.  So the conversions that answer a
query lead from its source to its destination (`CastGraph.leads_of_casts`).

This holds in every graph.  Types count up to `Ty.same`, as they do for the search itself; a
property of types that conversions hand on backwards, from where they end to where they start, is
one of all types that were met.
-/

namespace RangeTyping

/-- The conversions of the graph lead from `t` to `u` over types with the property `P`. -/
inductive CastGraph.Leads (S : StructStore) (G : CastGraph) (implicit : Bool) (P : Ty → Prop) :
    Ty → List Cast → Ty → Prop where
  | nil (t : Ty) : Leads S G implicit P t [] t
  | cons {t v u : Ty} {c : Cast} {rest : List Cast} (start : P t)
      (same : t.same S c.source = true) (mem : c ∈ G.castsTo S v)
      (usable : c.usable implicit = true) (tail : Leads S G implicit P v rest u) :
      Leads S G implicit P t (c :: rest) u

/-- Where the end has the property, so has the start. -/
theorem CastGraph.Leads.start_of_end {S : StructStore} {G : CastGraph} {implicit : Bool}
    {P : Ty → Prop} {t u : Ty} {casts : List Cast} (h : G.Leads S implicit P t casts u)
    (hu : P u) : P t := by
  cases h with
  | nil => exact hu
  | cons start => exact start

/-- Every conversion ends at a type with the property, if the last one does. -/
theorem CastGraph.Leads.exists_of_mem {S : StructStore} {G : CastGraph} {implicit : Bool}
    {P : Ty → Prop} {t u : Ty} {casts : List Cast} (h : G.Leads S implicit P t casts u)
    (hu : P u) : ∀ c ∈ casts, ∃ v, P v ∧ c ∈ G.castsTo S v := by
  induction h with
  | nil => exact fun c hc => absurd hc List.not_mem_nil
  | cons _ _ mem _ tail ih =>
    rw [List.forall_mem_cons]
    exact ⟨⟨_, tail.start_of_end hu, mem⟩, ih hu⟩

namespace Search

variable {S : StructStore} {G : CastGraph} {implicit : Bool} {P : Ty → Prop}
  {source destination t : Ty} {s s' : Search} {c : Cast}

/-! ### Nodes -/

/-- The type of a node. -/
def typeAt? (s : Search) (i : Nat) : Option Ty := s.nodes[i]?.map (·.type)

/-- Changing anything but the type of a node does not show in the types. -/
theorem typeAt?_modify (nodes : List SearchNode) (j i : Nat) {f : SearchNode → SearchNode}
    (hf : ∀ n, (f n).type = n.type) :
    (nodes.modify j f)[i]?.map (·.type) = nodes[i]?.map (·.type) := by
  rw [List.getElem?_modify]
  split
  · cases nodes[i]? with
    | none => rfl
    | some n => exact congrArg some (hf n)
  · rw [id_map']

theorem forall_type_modify {nodes : List SearchNode} {j : Nat} {f : SearchNode → SearchNode}
    (hf : ∀ n, (f n).type = n.type) (h : ∀ n ∈ nodes, P n.type) :
    ∀ n ∈ nodes.modify j f, P n.type := by
  intro n hn
  obtain ⟨i, hi⟩ := List.mem_iff_getElem?.1 hn
  have htype := typeAt?_modify nodes j i hf
  rw [hi] at htype
  cases hm : nodes[i]? with
  | none =>
    rw [hm] at htype
    cases htype
  | some m =>
    rw [hm] at htype
    rw [show n.type = m.type from Option.some.inj htype]
    exact h m (List.mem_of_getElem? hm)

/-- The nearest node is one of the nodes. -/
theorem getElem?_nearest {nodes : List SearchNode} {i k : Nat} {n : SearchNode}
    (h : nearest k nodes = some (i, n)) : k ≤ i ∧ nodes[i - k]? = some n := by
  induction nodes generalizing k i n with
  | nil => cases h
  | cons m rest ih =>
    -- either the head is the answer, or the answer of the rest is
    have hcases : (i, n) = (k, m) ∨ nearest (k + 1) rest = some (i, n) := by
      rw [nearest] at h
      split at h
      · split at h
        · exact .inl (Option.some.inj h).symm
        · cases h
      · rename_i j m' hrest
        split at h
        · exact .inl (Option.some.inj h).symm
        · exact .inr (hrest.trans h)
    rcases hcases with hhead | hrest
    · cases hhead
      exact ⟨le_rfl, by rw [Nat.sub_self]; rfl⟩
    · obtain ⟨hle, hn⟩ := ih hrest
      refine ⟨by omega, ?_⟩
      rw [show i - k = i - (k + 1) + 1 by omega, List.getElem?_cons_succ]
      exact hn

/-! ### The invariant -/

/-- **What the search keeps**: the types it met have the property `P`, node zero is the destination,
every conversion it has seen is a usable one that starts at the type of one node and ends at the type
of another, and the origin has the type of the source. -/
structure Traces (S : StructStore) (G : CastGraph) (implicit : Bool) (P : Ty → Prop)
    (source destination : Ty) (s : Search) : Prop where
  kept : ∀ n ∈ s.nodes, P n.type
  zero : s.typeAt? 0 = some destination
  edge : ∀ e ∈ s.edges, e.cast.usable implicit = true ∧
    (∃ t, s.typeAt? e.source = some t ∧ t.same S e.cast.source = true) ∧
    ∃ u, s.typeAt? e.target = some u ∧ e.cast ∈ G.castsTo S u
  origin : ∀ i w, s.origin = some (i, w) → ∃ t, s.typeAt? i = some t ∧ t.same S source = true

theorem Traces.kept_typeAt? (h : s.Traces S G implicit P source destination) {i : Nat}
    (hi : s.typeAt? i = some t) : P t := by
  obtain ⟨n, hn, rfl⟩ := Option.map_eq_some_iff.1 hi
  exact h.kept n (List.mem_of_getElem? hn)

theorem traces_start (hdest : P destination) :
    (start destination).Traces S G implicit P source destination := by
  refine ⟨fun n hn => ?_, rfl, fun e he => absurd he List.not_mem_nil, nofun⟩
  cases List.mem_singleton.1 hn
  exact hdest

/-- What was seen stays seen while types are only added. -/
theorem Traces.of_typeAt? (h : s.Traces S G implicit P source destination)
    (htype : ∀ i u, s.typeAt? i = some u → s'.typeAt? i = some u)
    (hkept : ∀ n ∈ s'.nodes, P n.type) (horigin : s'.origin = s.origin)
    (hedges : ∀ e ∈ s'.edges, e ∈ s.edges ∨ e.cast.usable implicit = true ∧
      (∃ t, s'.typeAt? e.source = some t ∧ t.same S e.cast.source = true) ∧
      ∃ u, s.typeAt? e.target = some u ∧ e.cast ∈ G.castsTo S u) :
    s'.Traces S G implicit P source destination := by
  refine ⟨hkept, htype 0 _ h.zero, fun e he => ?_, fun i w hi => ?_⟩
  · rcases hedges e he with hold | ⟨husable, hsource, u, hu, hmem⟩
    · obtain ⟨husable, ⟨t, ht, hsame⟩, u, hu, hmem⟩ := h.edge e hold
      exact ⟨husable, ⟨t, htype _ _ ht, hsame⟩, u, htype _ _ hu, hmem⟩
    · exact ⟨husable, hsource, u, htype _ _ hu, hmem⟩
  · rw [horigin] at hi
    obtain ⟨t, ht, hsame⟩ := h.origin i w hi
    exact ⟨t, htype _ _ ht, hsame⟩

theorem traces_mark (h : s.Traces S G implicit P source destination) (i : Nat) :
    (s.mark i).Traces S G implicit P source destination ∧
      ∀ j, (s.mark i).typeAt? j = s.typeAt? j := by
  have htype : ∀ j, (s.mark i).typeAt? j = s.typeAt? j := fun j =>
    typeAt?_modify s.nodes i j fun _ => rfl
  refine ⟨h.of_typeAt? (fun j u hu => (htype j).trans hu) ?_ rfl fun e he => .inl he, htype⟩
  exact forall_type_modify (fun _ => rfl) h.kept

/-- **Seeing one more conversion** into a node at whose type it ends keeps the invariant. -/
theorem traces_relax {target : Nat} {d : Weight} (h : s.Traces S G implicit P source destination)
    (ht : s.typeAt? target = some t) (hmem : c ∈ G.castsTo S t) (husable : c.usable implicit = true)
    (hc : P c.source) :
    (s.relax S target d c).Traces S G implicit P source destination ∧
      ∀ i u, s.typeAt? i = some u → (s.relax S target d c).typeAt? i = some u := by
  unfold relax
  cases hfind : s.nodes.findIdx? (·.type.same S c.source) with
  | some j =>
    -- the source of the conversion is the type of node `j`
    have htype : ∀ i, (s.nodes.modify j fun n =>
        { n with distance := min (addWeight d c.weight) n.distance })[i]?.map (·.type) =
        s.typeAt? i := fun i => typeAt?_modify s.nodes j i fun _ => rfl
    obtain ⟨hj, hsame, -⟩ := List.findIdx?_eq_some_iff_getElem.1 hfind
    have hsource : s.typeAt? j = some s.nodes[j].type := by
      rw [typeAt?, List.getElem?_eq_getElem hj]
      rfl
    refine ⟨h.of_typeAt? (fun i u hu => (htype i).trans hu) ?_ rfl fun e he => ?_,
      fun i u hu => (htype i).trans hu⟩
    · exact forall_type_modify (fun _ => rfl) h.kept
    · rcases List.mem_append.1 he with he | he
      · exact .inl he
      · cases List.mem_singleton.1 he
        exact .inr ⟨husable, ⟨_, (htype _).trans hsource, hsame⟩, t, ht, hmem⟩
  | none =>
    -- the source of the conversion is a new node
    have htype : ∀ i u, s.typeAt? i = some u →
        (s.nodes ++ [⟨c.source, addWeight d c.weight, false⟩])[i]?.map (·.type) = some u := by
      intro i u hu
      obtain ⟨n, hn, rfl⟩ := Option.map_eq_some_iff.1 hu
      rw [List.getElem?_append_left (List.getElem?_eq_some_iff.1 hn).1, hn]
      rfl
    refine ⟨h.of_typeAt? htype ?_ rfl fun e he => ?_, htype⟩
    · intro n hn
      rcases List.mem_append.1 hn with hn | hn
      · exact h.kept n hn
      · cases List.mem_singleton.1 hn
        exact hc
    · rcases List.mem_append.1 he with he | he
      · exact .inl he
      · cases List.mem_singleton.1 he
        refine .inr ⟨husable, ⟨c.source, ?_, Ty.same_self S _⟩, t, ht, hmem⟩
        show (s.nodes ++ [_])[s.nodes.length]?.map (·.type) = some c.source
        rw [List.getElem?_concat_length]
        rfl

theorem traces_foldl_relax {target : Nat} {d : Weight} {casts : List Cast}
    (h : s.Traces S G implicit P source destination) (ht : s.typeAt? target = some t)
    (hcasts : ∀ c ∈ casts, c ∈ G.castsTo S t ∧ c.usable implicit = true ∧ P c.source) :
    (casts.foldl (relax S target d) s).Traces S G implicit P source destination := by
  induction casts generalizing s with
  | nil => exact h
  | cons c rest ih =>
    rw [List.forall_mem_cons] at hcasts
    obtain ⟨hmem, husable, hc⟩ := hcasts.1
    obtain ⟨h', hkeep⟩ := traces_relax h ht hmem husable hc
    exact ih h' (hkeep _ _ ht) hcasts.2

theorem traces_step (hP : ∀ t, P t → ∀ c ∈ G.castsTo S t, c.usable implicit = true → P c.source)
    (h : s.Traces S G implicit P source destination)
    (hstep : s.step S G source implicit = some s') :
    s'.Traces S G implicit P source destination := by
  unfold step at hstep
  split at hstep
  · cases hstep
  · rename_i i n hnear
    obtain ⟨-, hn⟩ := getElem?_nearest hnear
    rw [Nat.sub_zero] at hn
    have hni : s.typeAt? i = some n.type := by rw [typeAt?, hn]; rfl
    obtain ⟨hmark, htype⟩ := traces_mark h i
    split at hstep
    · cases hstep
    · split at hstep
      · -- the source was met
        rename_i hsame
        cases hstep
        refine ⟨hmark.kept, hmark.zero, hmark.edge, fun j w hj => ?_⟩
        cases hj
        exact ⟨n.type, (htype i).trans hni, hsame⟩
      · -- the conversions into any other node are seen
        cases hstep
        refine traces_foldl_relax hmark ((htype i).trans hni) fun c hc => ?_
        obtain ⟨hmem, husable⟩ := List.mem_filter.1 hc
        exact ⟨hmem, husable, hP n.type (h.kept_typeAt? hni) c hmem husable⟩

/-- **The finished search** keeps what a step keeps. -/
theorem traces_explore (hP : ∀ t, P t → ∀ c ∈ G.castsTo S t, c.usable implicit = true → P c.source)
    (hdest : P destination) :
    (explore S G source destination implicit).Traces S G implicit P source destination := by
  suffices hrun : ∀ fuel (s : Search), s.Traces S G implicit P source destination →
      (s.run S G source implicit fuel).Traces S G implicit P source destination from
    hrun _ _ (traces_start hdest)
  intro fuel
  induction fuel with
  | zero => exact fun s h => h
  | succ fuel ih =>
    intro s h
    rw [run]
    split
    · exact h
    · rename_i s' hstep
      exact ih s' (traces_step hP h hstep)

/-- Following seen conversions from a node leads from its type to the destination. -/
theorem leads_of_follow {edges : List SearchEdge} {fuel i : Nat} {casts : List Cast}
    (h : s.Traces S G implicit P source destination) (hsub : ∀ e ∈ edges, e ∈ s.edges)
    (ht : s.typeAt? i = some t) (hf : follow edges fuel i = some casts) :
    G.Leads S implicit P t casts destination := by
  have hzero : ∀ {u}, s.typeAt? 0 = some u → G.Leads S implicit P u [] destination := by
    intro u hu
    cases h.zero.symm.trans hu
    exact .nil _
  induction fuel generalizing i t casts with
  | zero =>
    cases i with
    | zero =>
      cases hf
      exact hzero ht
    | succ i => cases hf
  | succ fuel ih =>
    cases i with
    | zero =>
      cases hf
      exact hzero ht
    | succ i =>
      simp only [follow] at hf
      split at hf
      · cases hf
      · rename_i e he
        obtain ⟨rest, hrest, rfl⟩ := Option.map_eq_some_iff.1 hf
        have hsource : e.source = i + 1 := by simpa using List.find?_some he
        obtain ⟨husable, ⟨v, hv, hsame⟩, u, hu, hmem⟩ :=
          h.edge e (hsub e (List.mem_of_find?_eq_some he))
        rw [hsource, ht] at hv
        cases hv
        exact .cons (h.kept_typeAt? ht) hsame hmem husable (ih hu hrest)

end Search

/-! ### Queries -/

namespace CastGraph

variable {S : StructStore} {G : CastGraph} {P : Ty → Prop} {q : CastQuery} {casts : List Cast}

/-- **The conversions that answer a query** lead from its source to its destination. -/
theorem leads_of_casts
    (hP : ∀ t, P t → ∀ c ∈ G.castsTo S t, c.usable q.implicit = true → P c.source)
    (hdest : P q.destination) (h : q.casts S G = .ok casts) :
    ∃ t, t.same S q.source = true ∧ G.Leads S q.implicit P t casts q.destination := by
  unfold CastQuery.casts at h
  split at h
  · unfold CastQuery.searchedChain at h
    have htraces : (Search.explore S G q.source q.destination q.implicit).Traces S G q.implicit P
        q.source q.destination := Search.traces_explore hP hdest
    dsimp only at h
    split at h
    · cases h
    · rename_i i w horigin
      split at h
      · cases h
      · split at h
        · rename_i casts' hchain
          cases h
          obtain ⟨t, ht, hsame⟩ := htraces.origin i w horigin
          exact ⟨t, hsame, Search.leads_of_follow htraces
            (fun e he => (List.mem_filter.1 he).1) ht hchain⟩
        · cases h
  · rename_i c hdirect
    cases h
    have hmem : c ∈ q.cheapestDirect S G := by
      rw [hdirect]
      exact List.mem_singleton.2 rfl
    obtain ⟨hc, hcond⟩ := List.mem_filter.1 (List.mem_filter.1 hmem).1
    obtain ⟨husable, hsame⟩ := Bool.and_eq_true_iff.1 hcond
    exact ⟨c.source, hsame,
      .cons (hP _ hdest c hc husable) (Ty.same_self S _) hc husable (.nil _)⟩
  · cases h

end CastGraph

end RangeTyping
