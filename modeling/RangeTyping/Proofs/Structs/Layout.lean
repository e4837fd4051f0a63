import Mathlib
import RangeTyping.Proofs.Order.Structs

/-!
# Layouts of structs

In exact numbers, members stand one after another, each at the next multiple of its alignment, and
the struct ends at the next multiple of the greatest one (`Layout.exact`).  That layout is valid
(`Placement.Placeable.valid`), and no valid layout is smaller (`Layout.Valid.size_exact_le`).

Offsets and sizes are words, though, and a number that is no word stops everything.  As long as
members fit into words, they are placed in exact numbers or one of them is wrong
(`Layout.ofMembers_of_fits`); if they do not fit, placing them overflows
(`Layout.ofMembers_of_not_fits`).  Only members that come before anything wrong count here, since
those behind it are not placed.  So a definition succeeds exactly if the struct has no layout yet,
the names of its members differ, every member has a size and the exact size is a word
(`StructStore.define_eq_ok_iff`).
-/

namespace RangeTyping

/-! ### Words -/

namespace WordOperation

variable {op : WordOperation} {n : Nat}

theorem check_of_lt (h : n < wordCount) : op.check n = .ok n := if_pos h

theorem check_of_le (h : wordCount ≤ n) : op.check n = .error (.overflow op) :=
  if_neg (Nat.not_lt.2 h)

end WordOperation

/-! ### Multiples of an alignment -/

/-- The next multiple of `alignment` from `n` on, as an exact number. -/
def roundUp (n alignment : Nat) : Nat := (n + alignment - 1) / alignment * alignment

variable {n m a : Nat}

theorem alignUp_eq (n a : Nat) : alignUp n a = WordOperation.multiply.check (roundUp n a) := rfl

theorem dvd_roundUp (n a : Nat) : a ∣ roundUp n a := Nat.dvd_mul_left a _

theorem le_roundUp (ha : 0 < a) : n ≤ roundUp n a := by
  have hlt := Nat.lt_div_mul_add (a := n + a - 1) ha
  unfold roundUp
  omega

/-- **No multiple is nearer.** -/
theorem roundUp_le (ha : 0 < a) (h : n ≤ m) (hdvd : a ∣ m) : roundUp n a ≤ m := by
  obtain ⟨k, rfl⟩ := hdvd
  unfold roundUp
  rw [Nat.mul_comm a k]
  refine Nat.mul_le_mul_right a ?_
  rw [← Nat.lt_succ_iff, Nat.div_lt_iff_lt_mul ha, Nat.succ_mul, Nat.mul_comm k a]
  omega

theorem roundUp_mono (ha : 0 < a) (h : n ≤ m) : roundUp n a ≤ roundUp m a :=
  roundUp_le ha (h.trans (le_roundUp ha)) (dvd_roundUp m a)

/-- An alignment is never zero. -/
theorem one_le_foldr_max : ∀ as : List Nat, 1 ≤ as.foldr max 1
  | [] => le_rfl
  | _ :: rest => (one_le_foldr_max rest).trans (Nat.le_max_right ..)

/-! ### Layouts in exact numbers -/

/-- The first byte behind a member. -/
def Member.stop (S : StructStore) (m : Member) : Nat := m.offset + m.type.size S

/-- **The layout is valid**: members have different names and stand at multiples of their
alignments, one behind the other and within the struct.  The struct has the greatest alignment, and
it has the smallest positive size that is a multiple of it and holds the last member. -/
structure Layout.Valid (S : StructStore) (l : Layout) : Prop where
  distinct : (l.members.map (·.name)).Nodup
  aligned : ∀ m ∈ l.members, max (m.type.alignment S) 1 ∣ m.offset
  ordered : l.members.Pairwise fun a b => a.stop S ≤ b.offset
  inside : ∀ m ∈ l.members, m.stop S ≤ l.size
  alignment : l.alignment = (l.members.map (·.type.alignment S)).foldr max 1
  size : IsLeast {n | 0 < n ∧ l.alignment ∣ n ∧ ∀ m ∈ l.members.getLast?, m.stop S ≤ n} l.size

namespace Placement

/-- The first free byte behind a member of the given type that is placed from `n` on. -/
def stopFrom (S : StructStore) (n : Nat) (type : Ty) : Nat :=
  roundUp n (max (type.alignment S) 1) + type.size S

/-- The first free byte behind members of the given types that are placed from `n` on. -/
def extent (S : StructStore) : Nat → List Ty → Nat
  | n, [] => n
  | n, t :: rest => extent S (stopFrom S n t) rest

/-- The members that are placed from `n` on. -/
def exact (S : StructStore) : Nat → List (String × Ty) → List Member
  | _, [] => []
  | n, (name, type) :: rest =>
    ⟨name, type, roundUp n (max (type.alignment S) 1)⟩ :: exact S (stopFrom S n type) rest

end Placement

/-- The size of a struct with members of the given types. -/
def Layout.exactSize (S : StructStore) (types : List Ty) : Nat :=
  max (roundUp (Placement.extent S 0 types) ((types.map (·.alignment S)).foldr max 1)) 1

/-- **The layout of a struct in exact numbers.** -/
def Layout.exact (S : StructStore) (members : List (String × Ty)) : Layout :=
  ⟨Placement.exact S 0 members, exactSize S (members.map (·.2)),
    (members.map (·.2.alignment S)).foldr max 1⟩

namespace Placement

variable {S : StructStore} {p placed : Placement} {struct name : String} {type : Ty}
  {types : List Ty} {taken : List String} {members front rest : List (String × Ty)}

theorem le_stopFrom : n ≤ stopFrom S n type :=
  (le_roundUp (Nat.le_max_right ..)).trans (Nat.le_add_right ..)

theorem stopFrom_mono (h : n ≤ m) : stopFrom S n type ≤ stopFrom S m type :=
  Nat.add_le_add_right (roundUp_mono (Nat.le_max_right ..) h) _

theorem extent_mono (h : n ≤ m) : extent S n types ≤ extent S m types := by
  induction types generalizing n m with
  | nil => exact h
  | cons t rest ih => exact ih (stopFrom_mono h)

theorem le_extent : n ≤ extent S n types := by
  induction types generalizing n with
  | nil => exact le_rfl
  | cons t rest ih => exact le_stopFrom.trans ih

/-- The first members end no later than all of them. -/
theorem extent_prefix (h : front <+: members) :
    extent S n (front.map (·.2)) ≤ extent S n (members.map (·.2)) := by
  obtain ⟨rest, rfl⟩ := h
  induction front generalizing n with
  | nil => exact le_extent
  | cons m front ih => exact ih

/-- **No members in order end earlier**, as long as they stand at multiples of their alignments. -/
theorem extent_le {ms : List Member} (haligned : ∀ x ∈ ms, max (x.type.alignment S) 1 ∣ x.offset)
    (hordered : ms.Pairwise fun x y => x.stop S ≤ y.offset) (hinside : ∀ x ∈ ms, x.stop S ≤ m)
    (hfrom : ∀ x ∈ ms, n ≤ x.offset) (hle : n ≤ m) : extent S n (ms.map (·.type)) ≤ m := by
  induction ms generalizing n with
  | nil => exact hle
  | cons x rest ih =>
    rw [List.forall_mem_cons] at haligned hinside hfrom
    rw [List.pairwise_cons] at hordered
    have hplace : stopFrom S n x.type ≤ x.stop S :=
      Nat.add_le_add_right (roundUp_le (Nat.le_max_right ..) hfrom.1 haligned.1) _
    exact (extent_mono hplace).trans (ih haligned.2 hordered.2 hinside.2 hordered.1 hinside.1)

/-! ### Members that are placed -/

theorem map_exact (S : StructStore) (n : Nat) (members : List (String × Ty)) :
    (exact S n members).map (fun m => (m.name, m.type)) = members := by
  induction members generalizing n with
  | nil => rfl
  | cons m rest ih => exact congrArg (m :: ·) (ih _)

theorem map_name_exact : (exact S n members).map (·.name) = members.map (·.1) := by
  rw [← map_exact S n members, List.map_map, map_exact]
  rfl

theorem map_alignment_exact :
    (exact S n members).map (·.type.alignment S) = members.map (·.2.alignment S) := by
  rw [← map_exact S n members, List.map_map, map_exact]
  rfl

theorem size_exact (h : ∀ m ∈ members, m.2.size S ≠ 0) :
    ∀ m ∈ exact S n members, m.type.size S ≠ 0 := by
  intro m hm
  refine h (m.name, m.type) ?_
  rw [← map_exact S n members]
  exact List.mem_map_of_mem hm

theorem aligned_exact : ∀ m ∈ exact S n members, max (m.type.alignment S) 1 ∣ m.offset := by
  induction members generalizing n with
  | nil => exact nofun
  | cons m rest ih =>
    rw [exact, List.forall_mem_cons]
    exact ⟨dvd_roundUp .., ih⟩

theorem le_offset_exact : ∀ m ∈ exact S n members, n ≤ m.offset := by
  induction members generalizing n with
  | nil => exact nofun
  | cons m rest ih =>
    rw [exact, List.forall_mem_cons]
    exact ⟨le_roundUp (Nat.le_max_right ..), fun x hx => le_stopFrom.trans (ih x hx)⟩

theorem ordered_exact : (exact S n members).Pairwise fun a b => a.stop S ≤ b.offset := by
  induction members generalizing n with
  | nil => exact .nil
  | cons m rest ih => exact .cons (fun x hx => le_offset_exact x hx) ih

theorem stop_exact_le :
    ∀ m ∈ exact S n members, m.stop S ≤ extent S n (members.map (·.2)) := by
  induction members generalizing n with
  | nil => exact nofun
  | cons m rest ih =>
    rw [exact, List.forall_mem_cons]
    exact ⟨le_extent, ih⟩

/-- The last member ends where all of them end. -/
theorem stop_last_exact :
    ∀ m ∈ (exact S n members).getLast?, m.stop S = extent S n (members.map (·.2)) := by
  induction members generalizing n with
  | nil => exact nofun
  | cons m rest ih =>
    cases rest with
    | nil =>
      rintro x hx
      cases hx
      rfl
    | cons m' rest =>
      rw [exact, exact, List.getLast?_cons_cons, ← exact]
      exact ih

/-- Members that can be placed behind those called `taken`: all names differ, and every member has a
size. -/
structure Placeable (S : StructStore) (taken : List String) (members : List (String × Ty)) :
    Prop where
  distinct : (taken ++ members.map (·.1)).Nodup
  sizes : ∀ m ∈ members, m.2.size S ≠ 0

theorem placeable_cons : Placeable S taken ((name, type) :: rest) ↔
    type.size S ≠ 0 ∧ Placeable S (taken ++ [name]) rest := by
  constructor
  · rintro ⟨hdistinct, hsizes⟩
    rw [List.forall_mem_cons] at hsizes
    exact ⟨hsizes.1, by simpa using hdistinct, hsizes.2⟩
  · rintro ⟨hsize, hdistinct, hsizes⟩
    exact ⟨by simpa using hdistinct, List.forall_mem_cons.2 ⟨hsize, hsizes⟩⟩

/-- **The layout in exact numbers is valid.** -/
theorem Placeable.valid (h : Placeable S [] members) : (Layout.exact S members).Valid S := by
  have hpos := one_le_foldr_max (members.map (·.2.alignment S))
  have hsize : (Layout.exact S members).size =
      max (roundUp (extent S 0 (members.map (·.2))) (Layout.exact S members).alignment) 1 := by
    rw [Layout.exact, Layout.exactSize, List.map_map]
    rfl
  have hextent : extent S 0 (members.map (·.2)) ≤ (Layout.exact S members).size := by
    rw [hsize]
    exact (le_roundUp hpos).trans (Nat.le_max_left ..)
  refine ⟨?_, aligned_exact, ordered_exact, fun m hm => (stop_exact_le m hm).trans hextent, ?_, ?_⟩
  · rw [show (Layout.exact S members).members = exact S 0 members from rfl, map_name_exact]
    exact h.distinct
  · rw [show (Layout.exact S members).members = exact S 0 members from rfl, map_alignment_exact]
    rfl
  rw [show (Layout.exact S members).members = exact S 0 members from rfl]
  cases hlast : (exact S 0 members).getLast? with
  | none =>
    -- a struct without members has one byte
    have hnil : members = [] := by
      have hempty := List.getLast?_eq_none_iff.1 hlast
      rw [← map_exact S 0 members, hempty]
      rfl
    subst hnil
    have hbyte : (Layout.exact S []).size = 1 := by
      show max (roundUp 0 1) 1 = 1
      decide
    rw [hbyte]
    exact ⟨⟨Nat.one_pos, Nat.dvd_refl 1, nofun⟩, fun n hn => hn.1⟩
  | some m =>
    have hm : m ∈ exact S 0 members := List.mem_of_getLast? hlast
    have hstop : m.stop S = extent S 0 (members.map (·.2)) := stop_last_exact m hlast
    have hfull : 0 < m.stop S :=
      (Nat.pos_of_ne_zero (size_exact h.sizes m hm)).trans_le (Nat.le_add_left ..)
    have hround : (Layout.exact S members).size =
        roundUp (m.stop S) (Layout.exact S members).alignment := by
      rw [hsize, ← hstop]
      exact Nat.max_eq_left (hfull.trans_le (le_roundUp hpos))
    refine ⟨⟨?_, ?_, ?_⟩, ?_⟩
    · exact hfull.trans_le (hstop ▸ hextent)
    · rw [hround]
      exact dvd_roundUp ..
    · rintro x hx
      cases hx
      exact hstop ▸ hextent
    · rintro n ⟨-, hdvd, hle⟩
      rw [hround]
      exact roundUp_le hpos (hle m rfl) hdvd

/-! ### Members that fit into words -/

/-- Members that are placed from `n` on, behind those called `taken`, end at words, as far as nothing
is wrong with them. -/
def Bounded (S : StructStore) (taken : List String) (n : Nat) (members : List (String × Ty)) : Prop :=
  ∀ front, front <+: members → Placeable S taken front → extent S n (front.map (·.2)) < wordCount

/-- If the first member can be placed, it ends at a word, and so do the others behind it. -/
theorem bounded_cons (hn : n < wordCount) (hsize : type.size S ≠ 0) :
    Bounded S taken n ((name, type) :: rest) ↔
      (Placeable S taken [(name, type)] → stopFrom S n type < wordCount) ∧
        Bounded S (taken ++ [name]) (stopFrom S n type) rest := by
  constructor
  · intro h
    refine ⟨h [(name, type)] ⟨rest, rfl⟩, fun front hfront hplaceable => ?_⟩
    exact h ((name, type) :: front) (List.cons_prefix_cons.2 ⟨rfl, hfront⟩)
      (placeable_cons.2 ⟨hsize, hplaceable⟩)
  · rintro ⟨-, hrest⟩ front hfront hplaceable
    cases front with
    | nil => exact hn
    | cons m front =>
      obtain ⟨rfl, hfront'⟩ := List.cons_prefix_cons.1 hfront
      exact hrest front hfront' (placeable_cons.1 hplaceable).2

/-- Behind a member that is wrong nothing is placed. -/
theorem bounded_of_not_placeable (hn : n < wordCount) (h : ¬ Placeable S taken [(name, type)]) :
    Bounded S taken n ((name, type) :: rest) := by
  rintro front hfront hplaceable
  cases front with
  | nil => exact hn
  | cons m front =>
    obtain ⟨rfl, -⟩ := List.cons_prefix_cons.1 hfront
    refine absurd ⟨?_, fun x hx => ?_⟩ h
    · exact hplaceable.distinct.sublist (.append_left (.cons_cons _ (List.nil_sublist _)) _)
    · rw [List.mem_singleton.1 hx]
      exact hplaceable.sizes _ (List.mem_cons_self ..)

theorem any_name_iff : (p.members.any (·.name == name)) = true ↔ name ∈ p.members.map (·.name) := by
  simp [List.any_eq_true, List.mem_map]

theorem map_name_append (p : Placement) (name : String) (type : Ty) (offset : Nat) :
    (p.members ++ [Member.mk name type offset]).map (·.name) = p.members.map (·.name) ++ [name] := by
  simp

theorem nodup_append_of_new (h : taken.Nodup) (hnew : name ∉ taken) : (taken ++ [name]).Nodup := by
  rw [List.nodup_append]
  refine ⟨h, List.nodup_singleton _, fun x hx y hy => ?_⟩
  rw [List.mem_singleton.1 hy]
  rintro rfl
  exact hnew hx

/-- A member that ends at a word is placed in exact numbers. -/
theorem add_of_lt (name : String) (h : stopFrom S p.next type < wordCount) : p.add S name type =
    .ok ⟨p.members ++ [⟨name, type, roundUp p.next (max (type.alignment S) 1)⟩],
      stopFrom S p.next type, max p.alignment (max (type.alignment S) 1)⟩ := by
  have hoffset : roundUp p.next (max (type.alignment S) 1) < wordCount :=
    (Nat.le_add_right ..).trans_lt h
  rw [stopFrom] at h
  simp only [add, alignUp_eq, WordOperation.check_of_lt hoffset, WordOperation.check_of_lt h, bind,
    Except.bind]
  rfl

/-- A member that does not end at a word overflows. -/
theorem add_of_le (name : String) (h : wordCount ≤ stopFrom S p.next type) :
    ∃ op, p.add S name type = .error (.overflow op) := by
  rw [stopFrom] at h
  simp only [add, alignUp_eq]
  by_cases hoffset : roundUp p.next (max (type.alignment S) 1) < wordCount
  · refine ⟨.add, ?_⟩
    simp only [WordOperation.check_of_lt hoffset, WordOperation.check_of_le h, bind, Except.bind]
  · refine ⟨.multiply, ?_⟩
    rw [WordOperation.check_of_le (Nat.not_lt.1 hoffset)]
    rfl

/-- **Members that fit are placed in exact numbers, or one of them is wrong.** -/
theorem addAll_of_bounded (struct : String) (hnames : (p.members.map (·.name)).Nodup)
    (hpos : 1 ≤ p.alignment)
    (h : Bounded S (p.members.map (·.name)) p.next members) :
    (Placeable S (p.members.map (·.name)) members ∧ p.addAll S struct members =
      .ok ⟨p.members ++ exact S p.next members, extent S p.next (members.map (·.2)),
        max p.alignment ((members.map (·.2.alignment S)).foldr max 1)⟩) ∨
    ¬ Placeable S (p.members.map (·.name)) members ∧
      ∃ e, p.addAll S struct members = .fail e := by
  induction members generalizing p with
  | nil =>
    refine .inl ⟨⟨by simpa using hnames, nofun⟩, ?_⟩
    simp [addAll, exact, extent, Nat.max_eq_left hpos]
  | cons m rest ih =>
    obtain ⟨name, type⟩ := m
    have hn : p.next < wordCount := h [] (List.nil_prefix) ⟨by simpa using hnames, nofun⟩
    rw [addAll_cons]
    split
    · rename_i hold
      refine .inr ⟨fun hplaceable => ?_, _, rfl⟩
      have hdisjoint := (List.nodup_append.1 hplaceable.distinct).2.2
      exact hdisjoint name (any_name_iff.1 hold) name (List.mem_cons_self ..) rfl
    rename_i hnew
    split
    · rename_i hzero
      exact .inr ⟨fun hplaceable => hplaceable.sizes _ (List.mem_cons_self ..) hzero, _, rfl⟩
    rename_i hsize
    rw [any_name_iff] at hnew
    have hnames' := nodup_append_of_new hnames hnew
    obtain ⟨hstop, hrest⟩ := (bounded_cons hn hsize).1 h
    have hstop := hstop ⟨hnames', List.forall_mem_singleton.2 hsize⟩
    rw [add_of_lt name hstop, placeable_cons]
    dsimp only
    -- the name of this member is taken for the rest
    have hmap := map_name_append p name type (roundUp p.next (max (type.alignment S) 1))
    have hcases := @ih ⟨_, stopFrom S p.next type, max p.alignment (max (type.alignment S) 1)⟩
      (hmap ▸ hnames') (hpos.trans (Nat.le_max_left ..)) (hmap ▸ hrest)
    rw [hmap] at hcases
    refine hcases.imp (fun hok => ⟨⟨hsize, hok.1⟩, ?_⟩) fun hfail => ⟨fun hp => hfail.1 hp.2, hfail.2⟩
    have hgreatest := one_le_foldr_max (rest.map (·.2.alignment S))
    have halignment : max (max p.alignment (max (type.alignment S) 1))
        ((rest.map (·.2.alignment S)).foldr max 1) =
          max p.alignment (max (type.alignment S) ((rest.map (·.2.alignment S)).foldr max 1)) := by
      omega
    rw [hok.2, List.append_assoc, halignment]
    rfl

/-- **Members that do not fit overflow.** -/
theorem addAll_of_not_bounded (struct : String) (hnames : (p.members.map (·.name)).Nodup)
    (hn : p.next < wordCount)
    (h : ¬ Bounded S (p.members.map (·.name)) p.next members) :
    ∃ op, p.addAll S struct members = .error (.internal (.overflow op)) := by
  induction members generalizing p with
  | nil =>
    refine absurd (fun front hfront _ => ?_) h
    rw [List.prefix_nil.1 hfront]
    exact hn
  | cons m rest ih =>
    obtain ⟨name, type⟩ := m
    rw [addAll_cons]
    split
    · rename_i hold
      refine absurd (bounded_of_not_placeable hn fun hplaceable => ?_) h
      exact (List.nodup_append.1 hplaceable.distinct).2.2 name (any_name_iff.1 hold) name
        (List.mem_cons_self ..) rfl
    rename_i hnew
    rw [any_name_iff] at hnew
    split
    · rename_i hzero
      refine absurd (bounded_of_not_placeable hn fun hplaceable => ?_) h
      exact hplaceable.sizes _ (List.mem_cons_self ..) hzero
    rename_i hsize
    rcases Nat.lt_or_ge (stopFrom S p.next type) wordCount with hstop | hstop
    · -- this member ends at a word, so the rest does not fit
      rw [add_of_lt name hstop]
      rw [bounded_cons hn hsize] at h
      have hmap := map_name_append p name type (roundUp p.next (max (type.alignment S) 1))
      refine ih (hmap ▸ nodup_append_of_new hnames hnew) hstop fun hrest => h ⟨fun _ => hstop, ?_⟩
      exact hmap ▸ hrest
    · obtain ⟨op, hop⟩ := add_of_le name hstop
      rw [hop]
      exact ⟨op, rfl⟩

end Placement

namespace Layout

variable {S : StructStore} {struct : String} {members : List (String × Ty)} {l : Layout}

/-- **The members of a struct fit into words**, as far as nothing is wrong with them: each of them
ends at a word, and so does the struct, if it gets that far. -/
structure Fits (S : StructStore) (members : List (String × Ty)) : Prop where
  each : Placement.Bounded S [] 0 members
  all : Placement.Placeable S [] members → exactSize S (members.map (·.2)) < wordCount

theorem exactSize_lt_iff : exactSize S (members.map (·.2)) < wordCount ↔
    roundUp (Placement.extent S 0 (members.map (·.2)))
      ((members.map (·.2.alignment S)).foldr max 1) < wordCount := by
  rw [exactSize, List.map_map, Nat.max_lt]
  exact and_iff_left (by decide)

/-- Members that can be placed fit exactly if their exact size is a word. -/
theorem fits_iff (h : Placement.Placeable S [] members) :
    Fits S members ↔ exactSize S (members.map (·.2)) < wordCount := by
  refine ⟨fun hfits => hfits.all h, fun hlt => ⟨fun front hfront _ => ?_, fun _ => hlt⟩⟩
  refine (Placement.extent_prefix hfront).trans_lt ?_
  exact (le_roundUp (one_le_foldr_max _)).trans_lt (exactSize_lt_iff.1 hlt)

/-- If all members are placed, only the size of the struct is left to be computed. -/
theorem ofMembers_of_placeable (h : Placement.Placeable S [] members)
    (hbounded : Placement.Bounded S [] 0 members) : ofMembers S struct members =
      .ofInternal ((WordOperation.multiply.check (roundUp (Placement.extent S 0 (members.map (·.2)))
        ((members.map (·.2.alignment S)).foldr max 1))).map fun size =>
          ⟨Placement.exact S 0 members, max size 1, (members.map (·.2.alignment S)).foldr max 1⟩) := by
  rcases Placement.addAll_of_bounded (p := .start) struct List.nodup_nil le_rfl
    hbounded with ⟨-, hplaced⟩ | ⟨hwrong, -⟩
  · have hgreatest : max Placement.start.alignment ((members.map (·.2.alignment S)).foldr max 1) =
        (members.map (·.2.alignment S)).foldr max 1 := Nat.max_eq_right (one_le_foldr_max _)
    rw [hgreatest, show Placement.start.next = 0 from rfl] at hplaced
    rw [ofMembers_of_addAll hplaced, Placement.layout, alignUp_eq]
    dsimp only
    cases WordOperation.multiply.check _ <;> rfl
  · exact absurd h hwrong

/-- **Members that fit have their exact layout, or one of them is wrong.** -/
theorem ofMembers_of_fits (struct : String) (h : Fits S members) :
    (Placement.Placeable S [] members ∧ ofMembers S struct members = .ok (exact S members)) ∨
      ¬ Placement.Placeable S [] members ∧ ∃ e, ofMembers S struct members = .fail e := by
  by_cases hplaceable : Placement.Placeable S [] members
  · refine .inl ⟨hplaceable, ?_⟩
    have hlt := exactSize_lt_iff.1 (h.all hplaceable)
    rw [ofMembers_of_placeable hplaceable h.each, WordOperation.check_of_lt hlt, exact, exactSize,
      List.map_map]
    rfl
  · rcases Placement.addAll_of_bounded (p := .start) struct List.nodup_nil le_rfl
      h.each with ⟨hall, -⟩ | ⟨-, e, hfail⟩
    · exact absurd hall hplaceable
    · refine .inr ⟨hplaceable, e, ?_⟩
      rw [ofMembers, hfail]
      rfl

/-- **Members that do not fit overflow.** -/
theorem ofMembers_of_not_fits (struct : String) (h : ¬ Fits S members) :
    ∃ op, ofMembers S struct members = .error (.internal (.overflow op)) := by
  by_cases hbounded : Placement.Bounded S [] 0 members
  · -- all members are placed, and the struct ends behind the last word
    obtain ⟨hplaceable, hle⟩ : Placement.Placeable S [] members ∧
        ¬ exactSize S (members.map (·.2)) < wordCount := by
      by_contra hall
      exact h ⟨hbounded, fun hplaceable => by_contra fun hle => hall ⟨hplaceable, hle⟩⟩
    rw [exactSize_lt_iff, Nat.not_lt] at hle
    rw [ofMembers_of_placeable hplaceable hbounded, WordOperation.check_of_le hle]
    exact ⟨_, rfl⟩
  · obtain ⟨op, hop⟩ := Placement.addAll_of_not_bounded (p := .start) struct
      List.nodup_nil (by decide) hbounded
    refine ⟨op, ?_⟩
    rw [ofMembers, hop]
    rfl

/-- **When members have a layout**, and which. -/
theorem ofMembers_eq_ok_iff : ofMembers S struct members = .ok l ↔
    Placement.Placeable S [] members ∧ exactSize S (members.map (·.2)) < wordCount ∧
      l = exact S members := by
  by_cases hfits : Fits S members
  · rcases ofMembers_of_fits struct hfits with ⟨hplaceable, hok⟩ | ⟨hwrong, e, hfail⟩
    · rw [hok, Except.ok.injEq, eq_comm (a := exact S members)]
      exact ⟨fun h => ⟨hplaceable, hfits.all hplaceable, h⟩, fun h => h.2.2⟩
    · rw [hfail]
      exact ⟨nofun, fun h => absurd h.1 hwrong⟩
  · obtain ⟨op, hop⟩ := ofMembers_of_not_fits struct hfits
    rw [hop]
    exact ⟨nofun, fun h => absurd ((fits_iff h.1).2 h.2.1) hfits⟩

/-- **When members overflow.** -/
theorem ofMembers_internal_iff (struct : String) :
    (∃ e, ofMembers S struct members = .error (.internal e)) ↔ ¬ Fits S members := by
  constructor
  · rintro ⟨e, he⟩ hfits
    rcases ofMembers_of_fits struct hfits with ⟨-, hok⟩ | ⟨-, e, hfail⟩
    · rw [hok] at he
      cases he
    · rw [hfail] at he
      cases he
  · intro hfits
    obtain ⟨op, hop⟩ := ofMembers_of_not_fits struct hfits
    exact ⟨_, hop⟩

/-- **No valid layout of these members is smaller** than the exact one. -/
theorem Valid.size_exact_le (h : l.Valid S)
    (hmembers : l.members.map (fun m => (m.name, m.type)) = members) :
    (exact S members).size ≤ l.size := by
  have htypes : members.map (·.2) = l.members.map (·.type) := by
    rw [← hmembers, List.map_map]
    rfl
  show exactSize S (members.map (·.2)) ≤ l.size
  rw [htypes]
  obtain ⟨hpos, hdvd, -⟩ := h.size.1
  have hextent :=
    Placement.extent_le h.aligned h.ordered h.inside (fun _ _ => Nat.zero_le _) hpos.le
  refine Nat.max_le.2 ⟨?_, hpos⟩
  rw [List.map_map]
  exact roundUp_le (one_le_foldr_max _) hextent (h.alignment ▸ hdvd)

end Layout

/-! ### The layout of a struct -/

/-- Size and alignment depend only on the layout of the struct that is held. -/
theorem Ty.size_congr {S T : StructStore} {t : Ty}
    (h : ∀ i, t.held? = some i → T.layout? i = S.layout? i) :
    t.size T = t.size S ∧ t.alignment T = t.alignment S := by
  have hsame : (t.renumber id).size T = t.size S ∧ (t.renumber id).alignment T = t.alignment S := by
    refine size_renumber (f := id) fun i hi => ?_
    rw [id_eq, h i hi]
    cases S.layout? i with
    | none => rfl
    | some l => simp [Layout.mapTypes]
  rwa [renumber_id] at hsame

namespace Layout

variable {S T : StructStore} {members : List (String × Ty)}

/-- Members of the same sizes and alignments in two stores are placed alike in exact numbers. -/
theorem places_congr (h : ∀ m ∈ members, m.2.size T = m.2.size S ∧
    m.2.alignment T = m.2.alignment S) (n : Nat) :
    Placement.exact T n members = Placement.exact S n members ∧
      Placement.extent T n (members.map (·.2)) = Placement.extent S n (members.map (·.2)) := by
  induction members generalizing n with
  | nil => exact ⟨rfl, rfl⟩
  | cons m rest ih =>
    rw [List.forall_mem_cons] at h
    have hstop : Placement.stopFrom T n m.2 = Placement.stopFrom S n m.2 := by
      rw [Placement.stopFrom, Placement.stopFrom, h.1.1, h.1.2]
    obtain ⟨hexact, hextent⟩ := ih h.2 (Placement.stopFrom S n m.2)
    simp only [Placement.exact, Placement.extent, List.map_cons, hstop, hexact, hextent, h.1.2,
      and_self]

/-- Members of the same sizes and alignments in two stores have the same exact layout. -/
theorem exact_congr (h : ∀ m ∈ members, m.2.size T = m.2.size S ∧
    m.2.alignment T = m.2.alignment S) : exact T members = exact S members := by
  have hplaces := places_congr h 0
  have halignments : members.map (·.2.alignment T) = members.map (·.2.alignment S) :=
    List.map_congr_left fun m hm => (h m hm).2
  simp only [exact, exactSize, List.map_map, Function.comp_def, hplaces.1, hplaces.2,
    halignments]

theorem exactSize_congr (h : ∀ m ∈ members, m.2.size T = m.2.size S ∧
    m.2.alignment T = m.2.alignment S) :
    exactSize T (members.map (·.2)) = exactSize S (members.map (·.2)) :=
  congrArg size (exact_congr h)

end Layout

namespace StructStore

variable {S T : StructStore} {i : StructId} {f : Flags} {members : List (String × Ty)}

/-- A definition succeeds if there is a layout to give to the struct. -/
theorem define_eq_ok_iff : (S.define (.struct f i) members).1 = .ok () ↔
    S.layout? i = none ∧ Placement.Placeable S [] members ∧
      Layout.exactSize S (members.map (·.2)) < wordCount := by
  cases hl : S.layout? i with
  | some l =>
    rw [define_of_some (i := i) rfl hl]
    exact ⟨nofun, nofun⟩
  | none =>
    rw [define_of_none (i := i) rfl hl]
    cases hlayout : Layout.ofMembers S (S.displayName i) members with
    | ok l =>
      obtain ⟨hplaceable, hlt, -⟩ := Layout.ofMembers_eq_ok_iff.1 hlayout
      exact iff_of_true rfl ⟨rfl, hplaceable, hlt⟩
    | error e =>
      refine ⟨nofun, fun h => ?_⟩
      rw [Layout.ofMembers_eq_ok_iff.2 ⟨h.2.1, h.2.2, rfl⟩] at hlayout
      cases hlayout

/-- A definition overflows exactly if the members of a struct without a layout do not fit. -/
theorem define_internal_iff : (∃ e, (S.define (.struct f i) members).1 = .error (.internal e)) ↔
    S.layout? i = none ∧ ¬ Layout.Fits S members := by
  rw [← Layout.ofMembers_internal_iff (S.displayName i)]
  cases hl : S.layout? i with
  | some l =>
    rw [define_of_some (i := i) rfl hl]
    constructor
    · rintro ⟨e, h⟩
      cases h
    · exact nofun
  | none =>
    rw [define_of_none (i := i) rfl hl]
    cases hlayout : Layout.ofMembers S (S.displayName i) members with
    | ok l => simp
    | error e => simp

/-- **Giving a struct its layout changes no size that was there before.** -/
theorem size_setLayout_of_ne_zero {t : Ty} {l : Layout} (hi : i < S.size)
    (hnone : S.layout? i = none) (hsize : t.size S ≠ 0) :
    t.size (S.setLayout i l) = t.size S ∧ t.alignment (S.setLayout i l) = t.alignment S := by
  -- a type that has a size does not hold the struct itself
  refine Ty.size_congr fun j hj => ?_
  have hne : i ≠ j := by
    rintro rfl
    exact Ty.layout_ne_none_of_held hj hsize hnone
  rw [layout?_setLayout hi, if_neg hne]

/-- **How structs are laid out.**  A definition of a struct that is declared succeeds exactly if the
struct has no layout yet, the names of its members differ, all of them have a size, and the exact size
is a word.  It then changes this layout only, and the layout is the smallest valid one of these
members.  A definition that fails, for whatever reason, leaves the store as it was; it overflows exactly
if the members of a struct without a layout do not fit into words. -/
theorem define_lays_out (hi : i < S.size) (f : Flags) (members : List (String × Ty)) :
    ((S.define (.struct f i) members).1 = .ok () ↔
      S.layout? i = none ∧ Placement.Placeable S [] members ∧
        Layout.exactSize S (members.map (·.2)) < wordCount) ∧
    (∀ T, S.define (.struct f i) members = (.ok (), T) →
      (∀ j, j ≠ i → T.layout? j = S.layout? j) ∧
      ∃ l, T.layout? i = some l ∧ l.members.map (fun m => (m.name, m.type)) = members ∧
        l.Valid T ∧ ∀ l' : Layout, l'.Valid T →
          l'.members.map (fun m => (m.name, m.type)) = members → l.size ≤ l'.size) ∧
    (∀ e T, S.define (.struct f i) members = (.error e, T) → T = S) ∧
    ((∃ e, (S.define (.struct f i) members).1 = .error (.internal e)) ↔
      S.layout? i = none ∧ ¬ Layout.Fits S members) := by
  refine ⟨define_eq_ok_iff, ?_, ?_, define_internal_iff⟩
  · intro T hT
    rcases S.define_cases (.struct f i) members with
      ⟨i', l, hi', hnone, hl, h⟩ | ⟨i', e, -, -, -, h⟩ | ⟨e, h⟩
    · cases hi'
      rw [h] at hT
      cases hT
      obtain ⟨hplaceable, -, rfl⟩ := Layout.ofMembers_eq_ok_iff.1 hl
      -- sizes in the new store are those in the old one
      have hsame : ∀ m ∈ members, m.2.size (S.setLayout i (Layout.exact S members)) = m.2.size S ∧
          m.2.alignment (S.setLayout i (Layout.exact S members)) = m.2.alignment S := fun m hm =>
        size_setLayout_of_ne_zero hi hnone (hplaceable.sizes m hm)
      refine ⟨fun j hj => ?_, Layout.exact S members, ?_, Placement.map_exact _ _ _, ?_, ?_⟩
      · rw [layout?_setLayout hi, if_neg hj.symm]
      · rw [layout?_setLayout hi, if_pos rfl]
      · have hvalid := Placement.Placeable.valid ⟨hplaceable.distinct, fun m hm =>
          (hsame m hm).1 ▸ hplaceable.sizes m hm⟩
        rwa [Layout.exact_congr hsame] at hvalid
      · intro l' hl' hmembers
        exact (congrArg Layout.size (Layout.exact_congr hsame)).symm.trans_le
          (hl'.size_exact_le hmembers)
    · rw [h] at hT
      cases hT
    · rw [h] at hT
      cases hT
  · intro e T hT
    rcases S.define_cases (.struct f i) members with
      ⟨i', l, -, -, -, h⟩ | ⟨i', e', -, -, -, h⟩ | ⟨e', h⟩
    · rw [h] at hT
      cases hT
    · rw [h] at hT
      cases hT
      rfl
    · rw [h] at hT
      cases hT
      rfl

/-- A struct that has gaps between its members and behind the last one. -/
theorem define_lays_out_gaps :
    let byte : Ty := .scalar .none ⟨"U8", 1, 1, .unsignedInt, 0, 1⟩
    let word : Ty := .scalar .none ⟨"U32", 4, 4, .unsignedInt, 0, 1⟩
    let S := (empty.declare (some "Gaps")).1
    let members := [("a", byte), ("b", word), ("c", .array .none byte 5)]
    ∃ T l, S.define (.struct .none 0) members = (.ok (), T) ∧ T.layout? 0 = some l ∧
      l.members.map (·.offset) = [0, 4, 8] ∧ l.size = 16 ∧ l.Valid T := by
  intro byte word S members
  obtain ⟨hok, hlayout, -⟩ := define_lays_out (S := S) (i := 0) (by decide) .none members
  have hplaceable : Placement.Placeable S [] members :=
    ⟨by decide +kernel, by decide +kernel⟩
  have hdefine := hok.2 ⟨by decide +kernel, hplaceable, by decide +kernel⟩
  obtain ⟨-, l, hl, -, hvalid, -⟩ := hlayout _ (Prod.ext hdefine rfl)
  have hplaces : ((S.define (.struct .none 0) members).2.layout? 0).map
      (fun l => (l.members.map (·.offset), l.size)) = some ([0, 4, 8], 16) := by
    decide +kernel
  rw [hl] at hplaces
  obtain ⟨hoffsets, hsize⟩ := Prod.mk.inj (Option.some.inj hplaces)
  exact ⟨_, l, Prod.ext hdefine rfl, hl, hoffsets, hsize, hvalid⟩

end StructStore

end RangeTyping
