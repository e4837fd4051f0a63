import Mathlib
import RangeTyping.Proofs.Cast.Class
import RangeTyping.Proofs.Intact.Search

/-!
# A finished search has found all cheapest chains

The weights at which conversions lead from a class of types to the destination, without coming
through the source, do not depend on any search (`Reaches`).  A search keeps a chart of them
(`Search.Charts`): every distance it holds is such a weight, and no conversion it has seen makes it
smaller.  It has seen all conversions into the types it has expanded, each once
(`Search.Surveys`).

A search expands another type at each step, so it ends before its fuel does
(`Search.step_explore_eq_none`).  It has then expanded every type that is as near as the source, so
its distances are the least weights (`Search.Surveys.exists_node`), and what it has found is
determined by the classes alone.
-/

namespace RangeTyping

variable {S : StructStore} {into : Ty.Class S → Multiset (Cast.Class S)} {a d x : Ty.Class S}
  {w : Weight}

/-- **Conversions lead from a class to the destination at the weight**, none of them into the
source. -/
inductive Reaches (into : Ty.Class S → Multiset (Cast.Class S)) (a d : Ty.Class S) :
    Ty.Class S → Weight → Prop where
  | refl : Reaches into a d d 0
  | step {x : Ty.Class S} {w : Weight} {c : Cast.Class S} (h : Reaches into a d x w) (hx : x ≠ a)
      (hc : c ∈ into x) : Reaches into a d c.source (addWeight w c.weight)

theorem Reaches.le_maxWeight (h : Reaches into a d x w) : w ≤ maxWeight := by
  cases h with
  | refl => exact Nat.zero_le _
  | step => exact Nat.min_le_right ..

/-- The graph's usable conversions into a type are those of `into`. -/
structure CastGraph.Offers (S : StructStore) (G : CastGraph) (implicit : Bool)
    (into : Ty.Class S → Multiset (Cast.Class S)) : Prop where
  usable : ∀ t, (((G.castsTo S t).filter (·.usable implicit)).map (Cast.toClass S) :
    Multiset (Cast.Class S)) = into (t.toClass S)
  destination : ∀ y, ∀ c ∈ into y, c.destination = y

namespace Search

variable {s s' : Search} {c : Cast} {i j : Nat} {n m : SearchNode} {G : CastGraph}
  {source : Ty} {implicit : Bool}

/-! ### What one step does to nodes and edges -/

/-- The types that were expanded. -/
def expandedTypes (s : Search) : List Ty := (s.nodes.filter (·.expanded)).map (·.type)

/-- **Seeing a conversion** brings the node of its source nearer, or adds this node. -/
theorem relax_cases (S : StructStore) (i : Nat) (w : Weight) (s : Search) (c : Cast) :
    (∃ j n, s.nodes[j]? = some n ∧ n.type.toClass S = c.source.toClass S ∧
      s.relax S i w c =
        ⟨s.nodes.set j { n with distance := min (addWeight w c.weight) n.distance },
          s.edges ++ [⟨j, i, c⟩], s.origin⟩) ∨
    (∀ n ∈ s.nodes, n.type.toClass S ≠ c.source.toClass S) ∧
      s.relax S i w c = ⟨s.nodes ++ [⟨c.source, addWeight w c.weight, false⟩],
        s.edges ++ [⟨s.nodes.length, i, c⟩], s.origin⟩ := by
  cases hfind : s.nodes.findIdx? (·.type.same S c.source) with
  | some j =>
    left
    obtain ⟨hj, hsame, -⟩ := List.findIdx?_eq_some_iff_getElem.1 hfind
    refine ⟨j, s.nodes[j], List.getElem?_eq_getElem hj, Ty.toClass_eq.2 hsame, ?_⟩
    simp [relax, hfind, List.modify_eq_set_getElem?, List.getElem?_eq_getElem hj]
  | none =>
    right
    refine ⟨fun n hn hclass => ?_, by simp [relax, hfind]⟩
    rw [List.findIdx?_eq_none_iff] at hfind
    rw [Ty.toClass_eq, hfind n hn] at hclass
    cases hclass

/-- A list of nodes around one of them, and with another in its place. -/
theorem exists_split {nodes : List SearchNode} (hn : nodes[i]? = some n) (m : SearchNode) :
    ∃ before after, nodes = before ++ n :: after ∧ nodes.set i m = before ++ m :: after := by
  obtain ⟨hi, hget⟩ := List.getElem?_eq_some_iff.1 hn
  obtain ⟨before, after, hnodes, -, hset⟩ := List.exists_of_set hi
  rw [hget] at hnodes
  exact ⟨before, after, hnodes, hset⟩

theorem map_toClass_set {nodes : List SearchNode} (hn : nodes[i]? = some n) (distance : Weight)
    (expanded : Bool) : (nodes.set i ⟨n.type, distance, expanded⟩).map (·.type.toClass S) =
      nodes.map (·.type.toClass S) := by
  obtain ⟨before, after, hnodes, hset⟩ := exists_split hn ⟨n.type, distance, expanded⟩
  rw [hset, hnodes, List.map_append, List.map_append, List.map_cons, List.map_cons]

theorem expandedTypes_relax : (s.relax S i w c).expandedTypes = s.expandedTypes := by
  rcases relax_cases S i w s c with ⟨j, n, hn, -, hrelax⟩ | ⟨-, hrelax⟩
  · obtain ⟨before, after, hnodes, hset⟩ :=
      exists_split hn { n with distance := min (addWeight w c.weight) n.distance }
    rw [expandedTypes, expandedTypes, hrelax, hset, hnodes]
    cases hexp : n.expanded <;> simp [hexp]
  · simp [hrelax, expandedTypes]

theorem expandedTypes_foldl_relax (casts : List Cast) :
    (casts.foldl (relax S i w) s).expandedTypes = s.expandedTypes := by
  induction casts generalizing s with
  | nil => rfl
  | cons c rest ih => rw [List.foldl_cons, ih, expandedTypes_relax]

theorem nodes_mark (hn : s.nodes[i]? = some n) :
    (s.mark i).nodes = s.nodes.set i { n with expanded := true } := by
  simp [mark, List.modify_eq_set_getElem?, hn]

theorem expandedTypes_mark (hn : s.nodes[i]? = some n) (hfresh : n.expanded = false) :
    (s.mark i).expandedTypes.Perm (n.type :: s.expandedTypes) := by
  obtain ⟨before, after, hnodes, hset⟩ := exists_split hn { n with expanded := true }
  rw [expandedTypes, expandedTypes, nodes_mark hn, hset, hnodes]
  simp [hfresh]

theorem casts_foldl_relax (casts : List Cast) :
    (casts.foldl (relax S i w) s).edges.map (·.cast) = s.edges.map (·.cast) ++ casts := by
  induction casts generalizing s with
  | nil => simp
  | cons c rest ih =>
    rw [List.foldl_cons, ih]
    rcases relax_cases S i w s c with ⟨j, n, -, -, hrelax⟩ | ⟨-, hrelax⟩ <;> simp [hrelax]

theorem origin_foldl_relax (casts : List Cast) :
    (casts.foldl (relax S i w) s).origin = s.origin := by
  induction casts generalizing s with
  | nil => rfl
  | cons c rest ih => rw [List.foldl_cons, ih, origin_relax]

/-- Seeing a conversion only brings nodes nearer. -/
theorem exists_getElem?_relax (hn : s.nodes[j]? = some n) :
    ∃ n', (s.relax S i w c).nodes[j]? = some n' ∧ n'.type = n.type ∧ n'.distance ≤ n.distance := by
  rcases relax_cases S i w s c with ⟨k, m, hm, -, hrelax⟩ | ⟨-, hrelax⟩
  · rw [hrelax]
    by_cases hkj : k = j
    · subst hkj
      cases hn.symm.trans hm
      refine ⟨_, List.getElem?_set_self (List.getElem?_eq_some_iff.1 hn).1, rfl, ?_⟩
      exact Nat.min_le_right ..
    · exact ⟨n, (List.getElem?_set_ne hkj).trans hn, rfl, le_rfl⟩
  · rw [hrelax]
    exact ⟨n, (List.getElem?_append_left (List.getElem?_eq_some_iff.1 hn).1).trans hn, rfl, le_rfl⟩

/-- A node is what it was before a conversion was seen, or of the class where this one starts. -/
theorem mem_relax (hn : n ∈ (s.relax S i w c).nodes) :
    n ∈ s.nodes ∨ n.type.toClass S = c.source.toClass S ∧ n.distance = addWeight w c.weight := by
  rcases relax_cases S i w s c with ⟨k, m, hm, hclass, hrelax⟩ | ⟨-, hrelax⟩
  · rw [hrelax] at hn
    rcases List.mem_or_eq_of_mem_set hn with hn | rfl
    · exact .inl hn
    · rcases Nat.le_total (addWeight w c.weight) m.distance with hle | hle
      · exact .inr ⟨hclass, Nat.min_eq_left hle⟩
      · left
        rw [Nat.min_eq_right hle]
        exact List.mem_of_getElem? hm
  · rw [hrelax] at hn
    rcases List.mem_append.1 hn with hn | hn
    · exact .inl hn
    · cases List.mem_singleton.1 hn
      exact .inr ⟨rfl, rfl⟩

/-- The conversion that was seen starts at a node that is not farther away than along it. -/
theorem edges_relax_eq (S : StructStore) (i : Nat) (w : Weight) (s : Search) (c : Cast) :
    ∃ j n, (s.relax S i w c).edges = s.edges ++ [⟨j, i, c⟩] ∧
      (s.relax S i w c).nodes[j]? = some n ∧ n.type.toClass S = c.source.toClass S ∧
      n.distance ≤ addWeight w c.weight := by
  rcases relax_cases S i w s c with ⟨j, n, hn, hclass, hrelax⟩ | ⟨-, hrelax⟩
  · rw [hrelax]
    refine ⟨j, _, rfl, List.getElem?_set_self (List.getElem?_eq_some_iff.1 hn).1, hclass, ?_⟩
    exact Nat.min_le_left ..
  · rw [hrelax]
    exact ⟨_, _, rfl, List.getElem?_concat_length, rfl, le_rfl⟩

/-! ### Charts -/

/-- **What the search keeps about classes**: its nodes are of different classes, each can reach the
destination at its distance, and the conversions that were seen lead from node to node without being
a shorter way. -/
structure Charts (into : Ty.Class S → Multiset (Cast.Class S)) (a d : Ty.Class S) (s : Search) :
    Prop where
  nodup : (s.nodes.map (·.type.toClass S)).Nodup
  reaches : ∀ n ∈ s.nodes, Reaches into a d (n.type.toClass S) n.distance
  zero : ∃ n, s.nodes[0]? = some n ∧ n.type.toClass S = d ∧ n.distance = 0
  source : ∀ e ∈ s.edges, ∃ n, s.nodes[e.source]? = some n ∧
    n.type.toClass S = e.cast.source.toClass S
  target : ∀ e ∈ s.edges, ∃ m, s.nodes[e.target]? = some m ∧
    m.type.toClass S = e.cast.destination.toClass S
  shorter : ∀ e ∈ s.edges, ∀ n m, s.nodes[e.source]? = some n → s.nodes[e.target]? = some m →
    n.distance ≤ addWeight m.distance e.cast.weight

namespace Charts

/-- The node is the only one of its class. -/
theorem index_eq (h : s.Charts into a d) (hi : s.nodes[i]? = some n) (hj : s.nodes[j]? = some m)
    (hclass : n.type.toClass S = m.type.toClass S) : i = j := by
  refine (List.getElem?_inj ?_ h.nodup).1 ?_
  · rw [List.length_map]
    exact (List.getElem?_eq_some_iff.1 hi).1
  · rw [List.getElem?_map, List.getElem?_map, hi, hj, Option.map_some, Option.map_some, hclass]

theorem mark (h : s.Charts into a d) (hn : s.nodes[i]? = some n) :
    (s.mark i).Charts into a d := by
  -- marking a node changes neither types nor distances, which is used in both directions
  have hold : ∀ {j : Nat} {m : SearchNode}, (s.mark i).nodes[j]? = some m →
      ∃ m', s.nodes[j]? = some m' ∧ m.type = m'.type ∧ m.distance = m'.distance := by
    intro j m hm
    rw [nodes_mark hn, List.getElem?_set] at hm
    split at hm
    · rename_i hij
      subst hij
      split at hm
      · cases hm
        exact ⟨n, hn, rfl, rfl⟩
      · cases hm
    · exact ⟨m, hm, rfl, rfl⟩
  have hnew : ∀ {j : Nat} {m : SearchNode}, s.nodes[j]? = some m →
      ∃ m', (s.mark i).nodes[j]? = some m' ∧ m'.type = m.type ∧ m'.distance = m.distance := by
    intro j m hm
    rw [nodes_mark hn, List.getElem?_set]
    split
    · rename_i hij
      subst hij
      cases hn.symm.trans hm
      exact ⟨_, if_pos (List.getElem?_eq_some_iff.1 hn).1, rfl, rfl⟩
    · exact ⟨m, hm, rfl, rfl⟩
  refine ⟨?_, ?_, ?_, ?_, ?_, ?_⟩
  · rw [nodes_mark hn, map_toClass_set hn]
    exact h.nodup
  · intro m hm
    obtain ⟨j, hj⟩ := List.mem_iff_getElem?.1 hm
    obtain ⟨m', hm', htype, hdist⟩ := hold hj
    rw [htype, hdist]
    exact h.reaches m' (List.mem_of_getElem? hm')
  · obtain ⟨m, hm, hclass, hdist⟩ := h.zero
    obtain ⟨m', hm', htype, hdist'⟩ := hnew hm
    exact ⟨m', hm', by rw [htype, hclass], hdist'.trans hdist⟩
  · intro e he
    obtain ⟨m, hm, hclass⟩ := h.source e he
    obtain ⟨m', hm', htype, -⟩ := hnew hm
    exact ⟨m', hm', by rw [htype, hclass]⟩
  · intro e he
    obtain ⟨m, hm, hclass⟩ := h.target e he
    obtain ⟨m', hm', htype, -⟩ := hnew hm
    exact ⟨m', hm', by rw [htype, hclass]⟩
  · intro e he p q hp hq
    obtain ⟨p', hp', -, hdist⟩ := hold hp
    obtain ⟨q', hq', -, hdist'⟩ := hold hq
    rw [hdist, hdist']
    exact h.shorter e he p' q' hp' hq'

theorem relax (h : s.Charts into a d) (hsettled : s.Settled w) (hw : w ≤ maxWeight)
    (hn : s.nodes[i]? = some n) (hexp : n.expanded = true) (hdist : n.distance = w)
    (hna : n.type.toClass S ≠ a) (hc : c.toClass S ∈ into (n.type.toClass S))
    (hdest : c.destination.toClass S = n.type.toClass S) :
    (s.relax S i w c).Charts into a d := by
  have hle : w ≤ addWeight w c.weight := le_addWeight hw
  -- expanded nodes are too near to be changed
  have hkeep : ∀ (j : Nat) (m : SearchNode), s.nodes[j]? = some m → m.expanded = true →
      (s.relax S i w c).nodes[j]? = some m := fun j m hm hx =>
    getElem?_relax_of_le hm ((hsettled.near j m hm hx).trans hle)
  obtain ⟨k, p, hedges, hp, hclass, hshort⟩ := edges_relax_eq S i w s c
  refine ⟨?_, ?_, ?_, ?_, ?_, ?_⟩
  · rcases relax_cases S i w s c with ⟨j, m, hm, -, hrelax⟩ | ⟨hnone, hrelax⟩
    · rw [hrelax, map_toClass_set hm]
      exact h.nodup
    · rw [hrelax, List.map_append, List.nodup_append_comm]
      refine List.nodup_cons.2 ⟨fun hmem => ?_, h.nodup⟩
      obtain ⟨m, hm, hm'⟩ := List.mem_map.1 hmem
      exact hnone m hm hm'
  · intro m hm
    rcases mem_relax hm with hm | ⟨hm, hm'⟩
    · exact h.reaches m hm
    · rw [hm, hm']
      have hreach := h.reaches n (List.mem_of_getElem? hn)
      rw [hdist] at hreach
      exact hreach.step hna hc
  · obtain ⟨m, hm, hzero, hdist⟩ := h.zero
    obtain ⟨m', hm', htype, hdist'⟩ := exists_getElem?_relax (S := S) (i := i) (w := w) (c := c) hm
    exact ⟨m', hm', by rw [htype, hzero],
      Nat.eq_zero_of_le_zero (hdist'.trans hdist.le)⟩
  · intro e he
    rw [hedges] at he
    rcases List.mem_append.1 he with he | he
    · obtain ⟨m, hm, hsource⟩ := h.source e he
      obtain ⟨m', hm', htype, -⟩ := exists_getElem?_relax (S := S) (i := i) (w := w) (c := c) hm
      exact ⟨m', hm', by rw [htype, hsource]⟩
    · cases List.mem_singleton.1 he
      exact ⟨p, hp, hclass⟩
  · intro e he
    rw [hedges] at he
    rcases List.mem_append.1 he with he | he
    · obtain ⟨m, hm, htarget⟩ := h.target e he
      obtain ⟨m', hm', htype, -⟩ := exists_getElem?_relax (S := S) (i := i) (w := w) (c := c) hm
      exact ⟨m', hm', by rw [htype, htarget]⟩
    · cases List.mem_singleton.1 he
      exact ⟨n, hkeep i n hn hexp, hdest.symm⟩
  · intro e he p' q hp' hq
    rw [hedges] at he
    rcases List.mem_append.1 he with he | he
    · -- the end of a conversion that was seen is expanded, and its start can only have come nearer
      obtain ⟨m, hm, -⟩ := h.source e he
      obtain ⟨m', hm', -, hcloser⟩ :=
        exists_getElem?_relax (S := S) (i := i) (w := w) (c := c) hm
      cases hm'.symm.trans hp'
      obtain ⟨q', hq', hx⟩ := hsettled.target e he
      cases (hkeep _ q' hq' hx).symm.trans hq
      exact hcloser.trans (h.shorter e he m q hm hq')
    · cases List.mem_singleton.1 he
      cases hp.symm.trans hp'
      cases (hkeep i n hn hexp).symm.trans hq
      rw [hdist]
      exact hshort

theorem foldl_relax {casts : List Cast} (h : s.Charts into a d) (hsettled : s.Settled w)
    (hw : w ≤ maxWeight) (hn : s.nodes[i]? = some n) (hexp : n.expanded = true)
    (hdist : n.distance = w) (hna : n.type.toClass S ≠ a)
    (hcasts : ∀ c ∈ casts, c.toClass S ∈ into (n.type.toClass S) ∧
      c.destination.toClass S = n.type.toClass S) :
    (casts.foldl (Search.relax S i w) s).Charts into a d := by
  induction casts generalizing s with
  | nil => exact h
  | cons c rest ih =>
    rw [List.forall_mem_cons] at hcasts
    refine ih (h.relax hsettled hw hn hexp hdist hna hcasts.1.1 hcasts.1.2)
      (hsettled.relax hw hn hexp hdist) (getElem?_relax_of_le hn ?_) hcasts.2
    rw [hdist]
    exact le_addWeight hw

end Charts

theorem charts_start (t : Ty) : (start t).Charts into a (t.toClass S) := by
  refine ⟨List.nodup_singleton _, ?_, ⟨_, rfl, rfl, rfl⟩, nofun, nofun, nofun⟩
  intro n hn
  cases List.mem_singleton.1 hn
  exact .refl

/-! ### The whole search -/

/-- The classes of the types that were expanded. -/
def expandedClasses (S : StructStore) (s : Search) : Multiset (Ty.Class S) :=
  (s.expandedTypes.map (Ty.toClass S) : List _)

/-- The classes of the conversions that were seen. -/
def seenClasses (S : StructStore) (s : Search) : Multiset (Cast.Class S) :=
  (s.edges.map (·.cast.toClass S) : List _)

theorem mem_expandedClasses {y : Ty.Class S} :
    y ∈ s.expandedClasses S ↔ ∃ n ∈ s.nodes, n.expanded = true ∧ n.type.toClass S = y := by
  simp [expandedClasses, expandedTypes, and_assoc]

theorem mem_seenClasses {c : Cast.Class S} :
    c ∈ s.seenClasses S ↔ ∃ e ∈ s.edges, e.cast.toClass S = c := by
  simp [seenClasses]

theorem expandedClasses_mark (hn : s.nodes[i]? = some n) (hfresh : n.expanded = false) :
    (s.mark i).expandedClasses S = n.type.toClass S ::ₘ s.expandedClasses S :=
  Multiset.coe_eq_coe.2 ((expandedTypes_mark hn hfresh).map _)

theorem expandedClasses_foldl_relax (casts : List Cast) :
    (casts.foldl (relax S i w) s).expandedClasses S = s.expandedClasses S := by
  rw [expandedClasses, expandedTypes_foldl_relax, expandedClasses]

theorem seenClasses_foldl_relax (casts : List Cast) :
    (casts.foldl (relax S i w) s).seenClasses S =
      s.seenClasses S + (casts.map (Cast.toClass S) : List _) := by
  have hmap : ∀ s : Search, s.edges.map (·.cast.toClass S) =
      (s.edges.map (·.cast)).map (Cast.toClass S) := fun s => by rw [List.map_map]; rfl
  rw [seenClasses, hmap, casts_foldl_relax, List.map_append, ← hmap]
  rfl

/-- Nodes that are near enough stay what they are. -/
theorem getElem?_foldl_relax_of_le {casts : List Cast} (hw : w ≤ maxWeight)
    (hn : s.nodes[j]? = some n) (hle : n.distance ≤ w) :
    (casts.foldl (relax S i w) s).nodes[j]? = some n := by
  induction casts generalizing s with
  | nil => exact hn
  | cons c rest ih => exact ih (getElem?_relax_of_le hn (hle.trans (le_addWeight hw)))

/-- What holds at first and after each step holds in the end. -/
theorem run_induction {P : Search → Prop}
    (hstep : ∀ s s', P s → s.step S G source implicit = some s' → P s') (fuel : Nat) (h : P s) :
    P (s.run S G source implicit fuel) := by
  induction fuel generalizing s with
  | zero => exact h
  | succ fuel ih =>
    rw [run]
    split
    · exact h
    · rename_i s' hs'
      exact ih (hstep s s' h hs')

/-- **What the search keeps in all**: besides its chart, it has seen exactly the conversions into
the types it has expanded, without the source; and it knows whether the source is one of these. -/
structure Surveys (into : Ty.Class S → Multiset (Cast.Class S)) (a d : Ty.Class S) (s : Search) :
    Prop where
  charts : s.Charts into a d
  settled : ∃ w, s.Settled w
  seen : s.seenClasses S = ((s.expandedClasses S).filter (· ≠ a)).bind into
  met : ∀ i w, s.origin = some (i, w) → w < maxWeight ∧
    (∃ n, s.nodes[i]? = some n ∧ n.expanded = true ∧ n.type.toClass S = a ∧ n.distance = w) ∧
    ∀ m ∈ s.nodes, m.expanded = true → m.distance ≤ w
  unmet : s.origin = none → a ∉ s.expandedClasses S

theorem surveys_start (t : Ty) : (start t).Surveys into a (t.toClass S) :=
  ⟨charts_start t, ⟨0, settled_start t⟩, rfl, nofun, fun _ => List.not_mem_nil⟩

theorem getElem?_of_nearest (h : nearest 0 s.nodes = some (i, n)) : s.nodes[i]? = some n :=
  (getElem?_nearest h).2

theorem getElem?_mark_self (hn : s.nodes[i]? = some n) :
    (s.mark i).nodes[i]? = some { n with expanded := true } := by
  rw [nodes_mark hn, List.getElem?_set_self (List.getElem?_eq_some_iff.1 hn).1]

/-- Expanding the source notes where it is. -/
theorem Surveys.meet (h : s.Surveys into a d) (hnear : nearest 0 s.nodes = some (i, n))
    (hclass : n.type.toClass S = a) :
    ({ s.mark i with origin := some (i, n.distance) } : Search).Surveys into a d := by
  obtain ⟨w, hw⟩ := h.settled
  obtain ⟨hfresh, hreach, -⟩ := nearest_le hnear
  have hn := getElem?_of_nearest hnear
  have hcharts := h.charts.mark hn
  have hmark := hw.mark hnear
  refine ⟨⟨hcharts.nodup, hcharts.reaches, hcharts.zero, hcharts.source, hcharts.target,
    hcharts.shorter⟩, ⟨n.distance, hmark.near, hmark.far, hmark.source, hmark.target, hmark.tight,
    ?_⟩, ?_, ?_, nofun⟩
  · rintro j v hj
    cases hj
    exact (List.getElem?_eq_some_iff.1 (getElem?_mark_self hn)).1
  · show s.seenClasses S = (((s.mark i).expandedClasses S).filter (· ≠ a)).bind into
    rw [expandedClasses_mark hn hfresh, Multiset.filter_cons_of_neg _ (by simpa using hclass),
      h.seen]
  · rintro j v hj
    cases hj
    refine ⟨hreach, ⟨_, getElem?_mark_self hn, rfl, hclass, rfl⟩, fun m hm hexp => ?_⟩
    obtain ⟨k, hk⟩ := List.mem_iff_getElem?.1 hm
    exact hmark.near k m hk hexp

/-- Expanding another type sees all conversions into it. -/
theorem Surveys.expand {casts : List Cast} (h : s.Surveys into a d)
    (hnear : nearest 0 s.nodes = some (i, n)) (hclass : n.type.toClass S ≠ a)
    (hopen : ∀ j v, s.origin = some (j, v) → n.distance ≤ v)
    (hcasts : (casts.map (Cast.toClass S) : Multiset (Cast.Class S)) = into (n.type.toClass S))
    (hdest : ∀ c ∈ into (n.type.toClass S), c.destination = n.type.toClass S) :
    (casts.foldl (relax S i n.distance) (s.mark i)).Surveys into a d := by
  obtain ⟨w, hw⟩ := h.settled
  obtain ⟨hfresh, hreach, -⟩ := nearest_le hnear
  have hn := getElem?_of_nearest hnear
  have hmark := hw.mark hnear
  have hmarked := getElem?_mark_self hn
  have hsettled : (casts.foldl (relax S i n.distance) (s.mark i)).Settled n.distance :=
    hmark.foldl_relax hreach.le hmarked rfl rfl
  have hmem : ∀ c ∈ casts, c.toClass S ∈ into (n.type.toClass S) := by
    intro c hc
    rw [← hcasts]
    exact Multiset.mem_coe.2 (List.mem_map_of_mem hc)
  refine ⟨?_, ⟨_, hsettled⟩, ?_, ?_, ?_⟩
  · exact (h.charts.mark hn).foldl_relax hmark hreach.le hmarked rfl rfl hclass
      fun c hc => ⟨hmem c hc, hdest _ (hmem c hc)⟩
  · -- what was seen grows by the conversions into the node
    rw [seenClasses_foldl_relax, expandedClasses_foldl_relax, expandedClasses_mark hn hfresh,
      Multiset.filter_cons_of_pos (p := (· ≠ a)) _ hclass, Multiset.cons_bind, hcasts, ← h.seen,
      add_comm]
    rfl
  · intro j v hj
    rw [origin_foldl_relax] at hj
    obtain ⟨hlt, ⟨m, hm, hexp, hm'⟩, -⟩ := h.met j v hj
    refine ⟨hlt, ⟨m, ?_, hexp, hm'⟩, fun m hm hexp => ?_⟩
    · -- an expanded node is no farther than this one, so that relaxing leaves it alone
      have hold := getElem?_mark_of_expanded (i := i) hm hexp
      exact getElem?_foldl_relax_of_le hreach.le hold (hmark.near j m hold hexp)
    · obtain ⟨k, hk⟩ := List.mem_iff_getElem?.1 hm
      exact (hsettled.near k m hk hexp).trans (hopen j v hj)
  · intro hnone
    rw [origin_foldl_relax] at hnone
    rw [expandedClasses_foldl_relax, expandedClasses_mark hn hfresh, Multiset.mem_cons, not_or]
    exact ⟨hclass.symm, h.unmet hnone⟩

/-- **One step** keeps what the search keeps. -/
theorem Surveys.step (hG : G.Offers S implicit into) (h : s.Surveys into (source.toClass S) d)
    (hstep : s.step S G source implicit = some s') : s'.Surveys into (source.toClass S) d := by
  unfold Search.step at hstep
  split at hstep
  · cases hstep
  rename_i i n hnear
  split at hstep
  · cases hstep
  rename_i hopen
  split at hstep
  · rename_i hsource
    cases hstep
    exact h.meet hnear (Ty.toClass_eq.2 hsource)
  · rename_i hsource
    cases hstep
    refine h.expand hnear (fun hclass => hsource (Ty.toClass_eq.1 hclass)) ?_ (hG.usable _)
      (hG.destination _)
    intro j v hj
    simpa [hj] using hopen

theorem surveys_explore (hG : G.Offers S implicit into) (source destination : Ty) :
    (explore S G source destination implicit).Surveys into (source.toClass S)
      (destination.toClass S) :=
  run_induction (fun _ _ => Surveys.step hG) _ (surveys_start destination)

/-! ### The end of the search -/

theorem length_expandedTypes_step (hstep : s.step S G source implicit = some s') :
    s'.expandedTypes.length = s.expandedTypes.length + 1 := by
  unfold step at hstep
  split at hstep
  · cases hstep
  rename_i i n hnear
  have hperm := expandedTypes_mark (getElem?_of_nearest hnear) (nearest_le hnear).1
  have hlength : (s.mark i).expandedTypes.length = s.expandedTypes.length + 1 := hperm.length_eq
  split at hstep
  · cases hstep
  split at hstep
  · cases hstep
    exact hlength
  · cases hstep
    rw [expandedTypes_foldl_relax, hlength]

/-- A search that has expanded all its types is over. -/
theorem step_eq_none_of_length (h : s.nodes.length ≤ s.expandedTypes.length) :
    s.step S G source implicit = none := by
  have hnearest : nearest 0 s.nodes = none := by
    cases hnear : nearest 0 s.nodes with
    | none => rfl
    | some p =>
      have hmem := List.mem_of_getElem? (getElem?_of_nearest hnear)
      rw [expandedTypes, List.length_map] at h
      have hlt : (s.nodes.filter (·.expanded)).length < s.nodes.length :=
        List.length_filter_lt_length_iff_exists.2 ⟨p.2, hmem, by simp [(nearest_le hnear).1]⟩
      omega
  rw [step, hnearest]

/-- A search in which at most `bound` types are met is over after as many steps. -/
theorem step_run_eq_none {P : Search → Prop} (bound : Nat) {fuel : Nat}
    (hstep : ∀ s s', P s → s.step S G source implicit = some s' → P s')
    (hbound : ∀ s, P s → s.nodes.length ≤ bound) (h : P s)
    (hfuel : bound ≤ fuel + s.expandedTypes.length) :
    (s.run S G source implicit fuel).step S G source implicit = none := by
  induction fuel generalizing s with
  | zero =>
    rw [Nat.zero_add] at hfuel
    exact step_eq_none_of_length ((hbound s h).trans hfuel)
  | succ fuel ih =>
    rw [run]
    cases hs' : s.step S G source implicit with
    | none => exact hs'
    | some s' =>
      refine ih (hstep s s' h hs') ?_
      rw [length_expandedTypes_step hs']
      omega

end Search

/-! ### The types that a search can meet -/

theorem CastTable.mem_casts_of_mem_find {table : CastTable} {t : Ty} {c : Cast}
    (h : c ∈ find S t table) : c ∈ table.casts := by
  induction table with
  | nil => cases h
  | cons entry rest ih =>
    rw [find] at h
    rw [casts, List.flatMap_cons, List.mem_append]
    split at h
    · exact .inl h
    · exact .inr (ih h)

/-- A type with any qualifiers. -/
def Ty.forms (t : Ty) : List Ty :=
  [t, t.addFlags .ref, t.addFlags .refMut, t.addFlags .mutOnly]

namespace Cast

variable {casts : List Cast} {destination t : Ty} {c : Cast}

/-- The types that can be met on the way of the conversions and decays to the destination. -/
def candidates (casts : List Cast) (destination : Ty) : List Ty :=
  (destination :: casts.map (·.source)).flatMap Ty.forms

theorem length_candidates (casts : List Cast) (destination : Ty) :
    (candidates casts destination).length = 4 * (casts.length + 1) := by
  have hforms : ∀ ts : List Ty, (ts.flatMap Ty.forms).length = 4 * ts.length := by
    intro ts
    induction ts with
    | nil => rfl
    | cons t ts ih =>
      rw [List.flatMap_cons, List.length_append, ih, List.length_cons]
      simp only [Ty.forms, List.length_cons, List.length_nil]
      omega
  rw [candidates, hforms, List.length_cons, List.length_map]

theorem mem_candidates_self (casts : List Cast) (destination : Ty) :
    destination ∈ candidates casts destination :=
  List.mem_flatMap.2 ⟨destination, List.mem_cons_self .., List.mem_cons_self ..⟩

/-- A candidate without qualifiers is the destination, or a conversion starts there. -/
theorem mem_of_mem_candidates (h : t ∈ candidates casts destination)
    (hplain : t.flags.isEmpty = true) : t ∈ destination :: casts.map (·.source) := by
  obtain ⟨u, hu, ht⟩ := List.mem_flatMap.1 h
  simp only [Ty.forms, List.mem_cons, List.not_mem_nil, or_false] at ht
  rcases ht with rfl | rfl | rfl | rfl
  · exact hu
  all_goals simp [Ty.addFlags, Flags.isEmpty, Flags.union, Flags.ref, Flags.refMut, Flags.mutOnly]
    at hplain

/-- Conversions and decays lead from candidates to candidates. -/
theorem source_mem_candidates (h : t ∈ candidates casts destination)
    (hc : c ∈ casts ∨ t.flags.isEmpty = true ∧ c ∈ decays t) :
    c.source ∈ candidates casts destination := by
  rcases hc with hc | ⟨hplain, hc⟩
  · exact List.mem_flatMap.2 ⟨c.source, List.mem_cons_of_mem _ (List.mem_map_of_mem hc),
      List.mem_cons_self ..⟩
  · refine List.mem_flatMap.2 ⟨t, mem_of_mem_candidates h hplain, ?_⟩
    simp only [decays, List.mem_cons, List.not_mem_nil, or_false] at hc
    rcases hc with rfl | rfl | rfl <;> simp [Ty.forms]

end Cast

theorem CastGraph.mem_castsTo {G : CastGraph} {t : Ty} {c : Cast} (hc : c ∈ G.castsTo S t) :
    c ∈ G.tables.flatMap CastTable.casts ∨ t.flags.isEmpty = true ∧ c ∈ Cast.decays t := by
  rcases List.mem_append.1 hc with hc | hc
  · obtain ⟨table, htable, hc⟩ := List.mem_flatMap.1 hc
    exact .inl (List.mem_flatMap.2 ⟨table, htable, CastTable.mem_casts_of_mem_find hc⟩)
  · split at hc
    · rename_i hplain
      exact .inr ⟨(Bool.and_eq_true_iff.1 hplain).2, hc⟩
    · cases hc

namespace Search

variable {s : Search} {n : SearchNode} {G : CastGraph} {source : Ty} {implicit : Bool}

/-- **The fuel of a search is enough**: it is over when it ends. -/
theorem step_explore_eq_none (hG : G.Offers S implicit into) (source destination : Ty) :
    (explore S G source destination implicit).step S G source implicit = none := by
  refine step_run_eq_none (P := fun s => s.Surveys into (source.toClass S) (destination.toClass S) ∧
    s.Traces S G implicit (· ∈ Cast.candidates (G.tables.flatMap CastTable.casts) destination)
      source destination) G.typeBound ?_ ?_
    ⟨surveys_start destination, traces_start (Cast.mem_candidates_self _ _)⟩ (Nat.le_add_right ..)
  · rintro s s' ⟨hsurveys, htraces⟩ hstep
    exact ⟨hsurveys.step hG hstep, traces_step (fun t ht c hc _ =>
      Cast.source_mem_candidates ht (CastGraph.mem_castsTo hc)) htraces hstep⟩
  · rintro s ⟨hsurveys, htraces⟩
    -- the nodes are distinct types out of the candidates, whose number is the bound
    have hnodup : (s.nodes.map (·.type)).Nodup := by
      refine List.Nodup.of_map (Ty.toClass S) ?_
      rw [List.map_map]
      exact hsurveys.charts.nodup
    have hsub : s.nodes.map (·.type) ⊆
        Cast.candidates (G.tables.flatMap CastTable.casts) destination := by
      intro t ht
      obtain ⟨n, hn, rfl⟩ := List.mem_map.1 ht
      exact htraces.kept n hn
    have hle := (hnodup.subperm hsub).length_le
    rwa [List.length_map, Cast.length_candidates] at hle

/-- With the source met, every type that is as near is expanded in the end. -/
theorem Surveys.expanded_of_le {i : Nat} (h : s.Surveys into a d)
    (hover : s.step S G source implicit = none) (horigin : s.origin = some (i, w))
    (hn : n ∈ s.nodes) (hle : n.distance ≤ w) : n.expanded = true := by
  obtain ⟨hlt, -⟩ := h.met i w horigin
  by_contra hexp
  rw [Bool.not_eq_true] at hexp
  rw [Search.step] at hover
  split at hover
  · rename_i hnear
    exact absurd (hle.trans_lt hlt) (nearest_none hnear n hn hexp).not_gt
  · rename_i j m hnear
    have hfar := (nearest_le hnear).2.2 n hn hexp
    rw [horigin, Option.any_some, if_neg (by simpa using hfar.trans hle)] at hover
    split at hover <;> cases hover

/-- Without the source, every type that can be reached is expanded in the end. -/
theorem expanded_of_lt (hover : s.step S G source implicit = none) (horigin : s.origin = none)
    (hn : n ∈ s.nodes) (hlt : n.distance < maxWeight) : n.expanded = true := by
  by_contra hexp
  rw [Bool.not_eq_true] at hexp
  rw [Search.step] at hover
  split at hover
  · rename_i hnear
    exact absurd hlt (nearest_none hnear n hn hexp).not_gt
  · rw [horigin, Option.any_none, if_neg Bool.false_ne_true] at hover
    split at hover <;> cases hover

/-- **No way is missed**: where all types up to a distance were expanded, those that can reach the
destination at this weight were met, and are as near. -/
theorem Surveys.exists_node {bound : Weight} (h : s.Surveys into a d)
    (hdest : ∀ y, ∀ c ∈ into y, c.destination = y)
    (hall : ∀ n ∈ s.nodes, n.distance ≤ bound → n.expanded = true) (hx : Reaches into a d x w)
    (hw : w ≤ bound) : ∃ n ∈ s.nodes, n.type.toClass S = x ∧ n.distance ≤ w := by
  induction hx with
  | refl =>
    obtain ⟨n, hn, hclass, hdist⟩ := h.charts.zero
    exact ⟨n, List.mem_of_getElem? hn, hclass, hdist.le⟩
  | @step y v c hy hya hc ih =>
    have hv : v ≤ bound := (le_addWeight hy.le_maxWeight).trans hw
    obtain ⟨n, hn, hclass, hdist⟩ := ih hv
    have hexp := hall n hn (hdist.trans hv)
    -- the conversion was seen when its end was expanded
    have hseen : c ∈ s.seenClasses S := by
      rw [h.seen, Multiset.mem_bind]
      refine ⟨y, Multiset.mem_filter.2 ⟨mem_expandedClasses.2 ⟨n, hn, hexp, hclass⟩, hya⟩, hc⟩
    obtain ⟨e, he, rfl⟩ := mem_seenClasses.1 hseen
    obtain ⟨p, hp, hsource⟩ := h.charts.source e he
    obtain ⟨q, hq, htarget⟩ := h.charts.target e he
    obtain ⟨k, hk⟩ := List.mem_iff_getElem?.1 hn
    have hqn : q = n := by
      have hindex := h.charts.index_eq hq hk
        (htarget.trans ((hdest _ _ hc).trans hclass.symm))
      rw [hindex, hk] at hq
      exact (Option.some.inj hq).symm
    refine ⟨p, List.mem_of_getElem? hp, hsource, ?_⟩
    calc p.distance ≤ addWeight q.distance e.cast.weight := h.charts.shorter e he p q hp hq
      _ ≤ addWeight v e.cast.weight := by
        rw [hqn]
        exact min_le_min_right _ (Nat.add_le_add_right hdist _)

end Search

end RangeTyping
