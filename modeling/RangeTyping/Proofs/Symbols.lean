import Mathlib
import RangeTyping.Proofs.Analysis.Module
import RangeTyping.Proofs.Analysis.Names

/-!
# Symbols tell functions apart, almost

The symbol of a function is `_P`, its name after the length of the name, and the symbol of its type.
All these can be read back from left to right but for one thing: the names `S8`, `S16`, `S32` and
`S64` of scalars are also how the symbol of a struct begins whose name has as many bytes.  So the
symbols of two lists of types are different (`Ty.eq_of_symbols`) unless somewhere a scalar followed
by further types reads like a struct.

A module in which no struct has such a name has functions of different symbols
(`Session.nodup_symbols`), and without this condition it is not so (`Session.symbols_collide`).
-/

namespace RangeTyping

/-! ### Reading numbers and names back -/

/-- A name: not empty, without underscores, and not starting with a digit.  All strings of letters
and digits that start with a letter are names. -/
def isName (name : String) : Bool :=
  match name.toList with
  | [] => false
  | c :: cs => !c.isDigit && !(c :: cs).contains '_'

/-- The text does not go on with a digit. -/
def NoDigit (x : List Char) : Prop := ∀ c, x.head? = some c → c.isDigit = false

theorem noDigit_cons {c : Char} {x : List Char} (h : c.isDigit = false) : NoDigit (c :: x) := by
  rintro _ ⟨⟩
  exact h

theorem noDigit_of_isName {name : String} (h : isName name = true) (x : List Char) :
    NoDigit (name.toList ++ x) := by
  unfold isName at h
  split at h
  · cases h
  · rename_i c cs heq
    rw [heq]
    simp only [Bool.and_eq_true, Bool.not_eq_true'] at h
    exact noDigit_cons h.1

theorem underscore_notMem_of_isName {name : String} (h : isName name = true) :
    '_' ∉ name.toList := by
  unfold isName at h
  split at h
  · cases h
  · rename_i c cs heq
    rw [heq]
    simp only [Bool.and_eq_true, Bool.not_eq_true'] at h
    simpa using h.2

theorem takeWhile_digits (n : Nat) {x : List Char} (hx : NoDigit x) :
    (n.repr.toList ++ x).takeWhile Char.isDigit = n.repr.toList := by
  have hdigits : ∀ c ∈ n.repr.toList, c.isDigit = true := by
    intro c hc
    rw [Nat.repr_eq_ofList_toDigits, String.toList_ofList] at hc
    exact Nat.isDigit_of_mem_toDigits (by decide) (by decide) hc
  rw [List.takeWhile_append_of_pos hdigits]
  cases x with
  | nil => simp
  | cons c x => simp [hx c rfl]

/-- **A number before something that is no digit** can be read back. -/
theorem repr_append_inj {n k : Nat} {x y : List Char} (hx : NoDigit x) (hy : NoDigit y)
    (h : n.repr.toList ++ x = k.repr.toList ++ y) : n = k ∧ x = y := by
  have htake := congrArg (List.takeWhile Char.isDigit) h
  rw [takeWhile_digits n hx, takeWhile_digits k hy] at htake
  rw [htake] at h
  exact ⟨Nat.repr_injective (String.toList_inj.1 htake), List.append_cancel_left h⟩

/-- A text of the same length in bytes at the same place is the same text. -/
theorem eq_of_append_of_size {a b : String} {x y : List Char}
    (hsize : a.utf8ByteSize = b.utf8ByteSize) (h : a.toList ++ x = b.toList ++ y) :
    a = b ∧ x = y := by
  -- one of the two begins with the other, and what is left over has no bytes
  have hinitial : ∀ {a b : String}, a.utf8ByteSize = b.utf8ByteSize → a.toList <+: b.toList →
      a = b := by
    rintro a b hsize ⟨r, hr⟩
    have hb : b = a ++ String.ofList r := by
      rw [← String.toList_inj, String.toList_append, String.toList_ofList, hr]
    have hr0 : (String.ofList r).utf8ByteSize = 0 := by
      rw [hb, String.utf8ByteSize_append] at hsize
      omega
    rw [hb, String.utf8ByteSize_eq_zero_iff.1 hr0, String.append_empty]
  have hab : a = b := by
    rcases List.prefix_or_prefix_of_prefix (List.prefix_append a.toList x)
      (h ▸ List.prefix_append b.toList y) with hle | hle
    · exact hinitial hsize hle
    · exact (hinitial hsize.symm hle).symm
  subst hab
  exact ⟨rfl, List.append_cancel_left h⟩

/-- **A sized name can be read back.** -/
theorem sized_append_inj {a b : String} {x y : List Char} (ha : isName a = true)
    (hb : isName b = true) (h : (sized a).toList ++ x = (sized b).toList ++ y) : a = b ∧ x = y := by
  rw [sized, sized, String.toList_append, String.toList_append, List.append_assoc,
    List.append_assoc] at h
  obtain ⟨hsize, hrest⟩ := repr_append_inj (noDigit_of_isName ha x) (noDigit_of_isName hb y) h
  exact eq_of_append_of_size hsize hrest

/-! ### Reading types back -/

/-- The names of the builtin scalars. -/
def scalarNames : List String :=
  ["Void", "Bool", "S8", "S16", "S32", "S64", "U8", "U16", "U32", "U64", "C8"]

/-- The sizes in bytes of names with which the symbol of a struct begins like a scalar. -/
def confusableSizes : List Nat := [8, 16, 32, 64]

theorem map_name_all (cookie : Registration → Nat) :
    (BuiltinTypes.ofBackend cookie).all.map (·.name) = scalarNames := rfl

theorem name_mem_scalarNames {cookie : Registration → Nat} {s : Scalar}
    (h : s ∈ (BuiltinTypes.ofBackend cookie).all) : s.name ∈ scalarNames := by
  rw [← map_name_all cookie]
  exact List.mem_map_of_mem h

/-- Builtin scalars of one name are one scalar. -/
theorem eq_of_name_eq {cookie : Registration → Nat} {a b : Scalar}
    (ha : a ∈ (BuiltinTypes.ofBackend cookie).all) (hb : b ∈ (BuiltinTypes.ofBackend cookie).all)
    (h : a.name = b.name) : a = b := by
  refine List.inj_on_of_nodup_map (f := (·.name)) ?_ ha hb h
  rw [map_name_all]
  decide

/-- Texts of which none begins another one are told apart, whatever follows. -/
theorem eq_of_append {texts : List String}
    (htexts : ∀ a ∈ texts, ∀ b ∈ texts, a.toList <+: b.toList → a = b) {a b : String}
    {x y : List Char} (ha : a ∈ texts) (hb : b ∈ texts) (h : a.toList ++ x = b.toList ++ y) :
    a = b := by
  rcases List.prefix_or_prefix_of_prefix (List.prefix_append a.toList x)
    (h ▸ List.prefix_append b.toList y) with hle | hle
  · exact htexts _ ha _ hb hle
  · exact (htexts _ hb _ ha hle).symm

/-- No name of a scalar begins another one. -/
theorem eq_of_prefix_scalarName : ∀ a ∈ scalarNames, ∀ b ∈ scalarNames,
    a.toList <+: b.toList → a = b := by
  decide

/-- The name of a scalar begins with a letter that no pointer and no array begins with, and like a
struct only if a size follows that is confusable. -/
theorem scalarNames_cases : ∀ a ∈ scalarNames, ∃ c r, a.toList = c :: r ∧ c ≠ 'P' ∧ c ≠ 'A' ∧
    c ≠ '_' ∧ c.isDigit = false ∧ (c = 'S' → ∃ n ∈ confusableSizes, r = n.repr.toList) := by
  intro a ha
  simp only [scalarNames, List.mem_cons, List.not_mem_nil, or_false] at ha
  rcases ha with rfl | rfl | rfl | rfl | rfl | rfl | rfl | rfl | rfl | rfl | rfl
  all_goals exact ⟨_, _, rfl, by decide, by decide, by decide, by decide, by decide⟩

/-- **How structs are written**: after their names, which are names and different. -/
structure Naming (declared : StructId → Prop) (struct : StructId → String)
    (name : StructId → String) : Prop where
  symbol : ∀ i, declared i → struct i = "S" ++ sized (name i)
  isName : ∀ i, declared i → isName (name i) = true
  inj : ∀ i j, declared i → declared j → name i = name j → i = j

/-- The text `x` reads like a struct name before `y`, after a scalar that it can be confused with. -/
def Confused (declared : StructId → Prop) (name : StructId → String) (x y : List Char) : Prop :=
  ∃ i, declared i ∧ (name i).utf8ByteSize ∈ confusableSizes ∧ x = (name i).toList ++ y

section Types

variable {cookie : Registration → Nat} {declared : StructId → Prop}
  {struct name : StructId → String}

theorem toList_symbolWith_pointer (t : Ty) :
    (Ty.symbolWith struct (.pointer .none t)).toList = 'P' :: (t.symbolWith struct).toList := by
  simp [Ty.symbolWith, Ty.flagsSymbol, Flags.none]

theorem toList_symbolWith_array (t : Ty) (n : Nat) :
    (Ty.symbolWith struct (.array .none t n)).toList =
      'A' :: (n.repr.toList ++ '_' :: (t.symbolWith struct).toList) := by
  simp [Ty.symbolWith, Ty.flagsSymbol, Flags.none]
  rfl

theorem toList_symbolWith_scalar (s : Scalar) :
    (Ty.symbolWith struct (.scalar .none s)).toList = s.name.toList := by
  simp [Ty.symbolWith, Ty.flagsSymbol, Flags.none]

theorem toList_symbolWith_struct (hn : Naming declared struct name) {i : StructId}
    (hi : declared i) :
    (Ty.symbolWith struct (.struct .none i)).toList = 'S' :: (sized (name i)).toList := by
  simp [Ty.symbolWith, Ty.flagsSymbol, Flags.none, hn.symbol i hi]

/-- **The four kinds of plain types.** -/
theorem plain_cases {t : Ty} (ht : t.PlainIn (.ofBackend cookie) declared) :
    (∃ s ∈ (BuiltinTypes.ofBackend cookie).all, t = .scalar .none s) ∨
      (∃ u, u.PlainIn (.ofBackend cookie) declared ∧ t = .pointer .none u) ∨
      (∃ u n, u.PlainIn (.ofBackend cookie) declared ∧ t = .array .none u n) ∨
      ∃ i, declared i ∧ t = .struct .none i := by
  obtain ⟨hknown, hflags⟩ := ht
  cases t with
  | scalar f s =>
    obtain rfl : f = .none := hflags
    exact .inl ⟨s, hknown, rfl⟩
  | function f as r => exact hknown.elim
  | pointer f u =>
    obtain rfl : f = .none := hflags
    exact .inr (.inl ⟨u, hknown, rfl⟩)
  | array f u n =>
    obtain rfl : f = .none := hflags
    exact .inr (.inr (.inl ⟨u, n, hknown, rfl⟩))
  | struct f i =>
    obtain rfl : f = .none := hflags
    exact .inr (.inr (.inr ⟨i, hknown, rfl⟩))

/-- The symbol of a type does not begin with a digit or an underscore. -/
theorem head_symbolWith (hn : Naming declared struct name) {t : Ty}
    (ht : t.PlainIn (.ofBackend cookie) declared) :
    ∃ c r, (t.symbolWith struct).toList = c :: r ∧ c.isDigit = false ∧ c ≠ '_' := by
  rcases plain_cases ht with ⟨s, hs, rfl⟩ | ⟨u, -, rfl⟩ | ⟨u, n, -, rfl⟩ | ⟨i, hi, rfl⟩
  · rw [toList_symbolWith_scalar]
    obtain ⟨c, r, hc, -, -, hunderscore, hdigit, -⟩ :=
      scalarNames_cases _ (name_mem_scalarNames hs)
    exact ⟨c, r, hc, hdigit, hunderscore⟩
  · exact ⟨_, _, toList_symbolWith_pointer u, by decide, by decide⟩
  · exact ⟨_, _, toList_symbolWith_array u n, by decide, by decide⟩
  · exact ⟨_, _, toList_symbolWith_struct hn hi, by decide, by decide⟩

/-! The first letter tells pointers and arrays from the rest. -/

theorem of_head_pointer (hn : Naming declared struct name) {t : Ty} {x y : List Char}
    (ht : t.PlainIn (.ofBackend cookie) declared)
    (h : (t.symbolWith struct).toList ++ x = 'P' :: y) :
    ∃ u, u.PlainIn (.ofBackend cookie) declared ∧ t = .pointer .none u ∧
      (u.symbolWith struct).toList ++ x = y := by
  rcases plain_cases ht with ⟨s, hs, rfl⟩ | ⟨u, hu, rfl⟩ | ⟨u, n, -, rfl⟩ | ⟨i, hi, rfl⟩
  · obtain ⟨c, r, hc, hP, -⟩ := scalarNames_cases _ (name_mem_scalarNames hs)
    rw [toList_symbolWith_scalar, hc] at h
    exact absurd (List.cons.inj h).1 hP
  · rw [toList_symbolWith_pointer] at h
    exact ⟨u, hu, rfl, (List.cons.inj h).2⟩
  · rw [toList_symbolWith_array] at h
    exact absurd (List.cons.inj h).1 (by decide)
  · rw [toList_symbolWith_struct hn hi] at h
    exact absurd (List.cons.inj h).1 (by decide)

theorem of_head_array (hn : Naming declared struct name) {t : Ty} {x y : List Char}
    (ht : t.PlainIn (.ofBackend cookie) declared)
    (h : (t.symbolWith struct).toList ++ x = 'A' :: y) :
    ∃ u n, u.PlainIn (.ofBackend cookie) declared ∧ t = .array .none u n ∧
      n.repr.toList ++ '_' :: ((u.symbolWith struct).toList ++ x) = y := by
  rcases plain_cases ht with ⟨s, hs, rfl⟩ | ⟨u, -, rfl⟩ | ⟨u, n, hu, rfl⟩ | ⟨i, hi, rfl⟩
  · obtain ⟨c, r, hc, -, hA, -⟩ := scalarNames_cases _ (name_mem_scalarNames hs)
    rw [toList_symbolWith_scalar, hc] at h
    exact absurd (List.cons.inj h).1 hA
  · rw [toList_symbolWith_pointer] at h
    exact absurd (List.cons.inj h).1 (by decide)
  · rw [toList_symbolWith_array, List.cons_append, List.append_assoc] at h
    exact ⟨u, n, hu, rfl, (List.cons.inj h).2⟩
  · rw [toList_symbolWith_struct hn hi] at h
    exact absurd (List.cons.inj h).1 (by decide)

theorem of_head_other (hn : Naming declared struct name) {t : Ty} {x y : List Char} {c : Char}
    (ht : t.PlainIn (.ofBackend cookie) declared) (hP : c ≠ 'P') (hA : c ≠ 'A')
    (h : (t.symbolWith struct).toList ++ x = c :: y) :
    (∃ s ∈ (BuiltinTypes.ofBackend cookie).all, t = .scalar .none s ∧ s.name.toList ++ x = c :: y) ∨
      ∃ i, declared i ∧ t = .struct .none i ∧ 'S' :: ((sized (name i)).toList ++ x) = c :: y := by
  rcases plain_cases ht with ⟨s, hs, rfl⟩ | ⟨u, -, rfl⟩ | ⟨u, n, -, rfl⟩ | ⟨i, hi, rfl⟩
  · rw [toList_symbolWith_scalar] at h
    exact .inl ⟨s, hs, rfl, h⟩
  · rw [toList_symbolWith_pointer] at h
    exact absurd (List.cons.inj h).1.symm hP
  · rw [toList_symbolWith_array] at h
    exact absurd (List.cons.inj h).1.symm hA
  · rw [toList_symbolWith_struct hn hi] at h
    exact .inr ⟨i, hi, rfl, h⟩

/-- A scalar and a struct are confused or told apart. -/
theorem confused_of_scalar_struct (hn : Naming declared struct name) {s : Scalar} {i : StructId}
    {x y : List Char} (hs : s ∈ (BuiltinTypes.ofBackend cookie).all) (hi : declared i)
    (hx : NoDigit x) (h : s.name.toList ++ x = 'S' :: ((sized (name i)).toList ++ y)) :
    Confused declared name x y := by
  obtain ⟨c, r, hc, -, -, -, -, hsize⟩ := scalarNames_cases _ (name_mem_scalarNames hs)
  rw [hc, List.cons_append, List.cons.injEq] at h
  obtain ⟨n, hmem, rfl⟩ := hsize h.1
  rw [sized, String.toList_append, List.append_assoc] at h
  obtain ⟨heq, hrest⟩ := repr_append_inj hx (noDigit_of_isName (hn.isName i hi) y) h.2
  exact ⟨i, hi, heq ▸ hmem, hrest⟩

/-- Scalars are told apart. -/
theorem scalar_append_inj {a b : Scalar} {x y : List Char}
    (ha : a ∈ (BuiltinTypes.ofBackend cookie).all) (hb : b ∈ (BuiltinTypes.ofBackend cookie).all)
    (h : a.name.toList ++ x = b.name.toList ++ y) : a = b ∧ x = y := by
  have hname : a.name = b.name :=
    eq_of_append eq_of_prefix_scalarName (name_mem_scalarNames ha) (name_mem_scalarNames hb) h
  rw [hname] at h
  exact ⟨eq_of_name_eq ha hb hname, List.append_cancel_left h⟩

/-- **The symbol of a type can be read back**, unless a scalar is confused with a struct. -/
theorem symbolWith_append_inj (hn : Naming declared struct name) :
    ∀ (t u : Ty) {x y : List Char}, t.PlainIn (.ofBackend cookie) declared →
      u.PlainIn (.ofBackend cookie) declared → NoDigit x → NoDigit y →
      (t.symbolWith struct).toList ++ x = (u.symbolWith struct).toList ++ y →
      t = u ∧ x = y ∨ Confused declared name x y ∨ Confused declared name y x
  | .scalar f s, u, x, y, ht, hu, hx, hy, h => by
    obtain ⟨hs, rfl : f = .none⟩ := ht
    obtain ⟨c, r, hc, hP, hA, -⟩ := scalarNames_cases _ (name_mem_scalarNames hs)
    rw [toList_symbolWith_scalar] at h
    have htext : s.name.toList ++ x = c :: (r ++ x) := by rw [hc, List.cons_append]
    rcases of_head_other hn hu hP hA (h.symm.trans htext) with ⟨s', hs', rfl, h'⟩ | ⟨i, hi, rfl, h'⟩
    · obtain ⟨rfl, hxy⟩ := scalar_append_inj hs hs' (htext.trans h'.symm)
      exact .inl ⟨rfl, hxy⟩
    · exact .inr (.inl (confused_of_scalar_struct hn hs hi hx (htext.trans h'.symm)))
  | .function _ _ _, _, _, _, ht, _, _, _, _ => ht.1.elim
  | .pointer f t, u, x, y, ht, hu, hx, hy, h => by
    obtain ⟨ht, rfl : f = .none⟩ := ht
    rw [toList_symbolWith_pointer] at h
    obtain ⟨v, hv, rfl, h'⟩ := of_head_pointer hn hu h.symm
    rcases symbolWith_append_inj hn t v ht hv hx hy h'.symm with ⟨rfl, hxy⟩ | hconfused
    · exact .inl ⟨rfl, hxy⟩
    · exact .inr hconfused
  | .array f t k, u, x, y, ht, hu, hx, hy, h => by
    obtain ⟨ht, rfl : f = .none⟩ := ht
    rw [toList_symbolWith_array, List.cons_append, List.append_assoc] at h
    obtain ⟨v, l, hv, rfl, h'⟩ := of_head_array hn hu h.symm
    -- the digits of the length end at the underscore
    obtain ⟨rfl, hrest⟩ :=
      repr_append_inj (noDigit_cons (by decide)) (noDigit_cons (by decide)) h'
    rcases symbolWith_append_inj hn t v ht hv hx hy (List.cons.inj hrest).2.symm with
      ⟨rfl, hxy⟩ | hconfused
    · exact .inl ⟨rfl, hxy⟩
    · exact .inr hconfused
  | .struct f i, u, x, y, ht, hu, hx, hy, h => by
    obtain ⟨hi, rfl : f = .none⟩ := ht
    rw [toList_symbolWith_struct hn hi] at h
    rcases of_head_other hn hu (by decide) (by decide) h.symm with ⟨s, hs, rfl, h'⟩ | ⟨j, hj, rfl, h'⟩
    · exact .inr (.inr (confused_of_scalar_struct hn hs hi hy h'))
    · obtain ⟨hname, hxy⟩ :=
        sized_append_inj (hn.isName j hj) (hn.isName i hi) (List.cons.inj h').2
      exact .inl ⟨by rw [hn.inj j i hj hi hname], hxy.symm⟩

/-! ### Reading lists of types back -/

/-- **No struct can be confused**: a struct whose name has the size of a confusable scalar does not
read like types that follow that scalar. -/
def Clear (types : BuiltinTypes) (declared : StructId → Prop) (struct name : StructId → String) :
    Prop :=
  ∀ i, declared i → (name i).utf8ByteSize ∈ confusableSizes →
    ∀ ts : List Ty, (∀ t ∈ ts, t.PlainIn types declared) →
      ¬ (name i).toList <+: (Ty.symbolsWith struct ts).toList

theorem noDigit_symbolsWith (hn : Naming declared struct name) {ts : List Ty}
    (hts : ∀ t ∈ ts, t.PlainIn (.ofBackend cookie) declared) (x : List Char) :
    NoDigit ((Ty.symbolsWith struct ts).toList ++ '_' :: x) := by
  cases ts with
  | nil => exact noDigit_cons (by decide)
  | cons t ts =>
    obtain ⟨c, r, hc, hdigit, -⟩ := head_symbolWith hn (hts t (List.mem_cons_self ..))
    rw [Ty.symbolsWith, String.toList_append, hc]
    exact noDigit_cons hdigit

/-- A name without underscores that begins the symbols of types before an underscore begins the
symbols. -/
theorem not_confused (hn : Naming declared struct name)
    (hclear : Clear (.ofBackend cookie) declared struct name) {ts : List Ty}
    (hts : ∀ t ∈ ts, t.PlainIn (.ofBackend cookie) declared) (x y : List Char) :
    ¬ Confused declared name ((Ty.symbolsWith struct ts).toList ++ '_' :: x) y := by
  rintro ⟨i, hi, hsize, heq⟩
  rcases List.append_eq_append_iff.1 heq with ⟨r, hr, hrest⟩ | ⟨r, hr, -⟩
  · cases r with
    | nil =>
      rw [List.append_nil] at hr
      exact hclear i hi hsize ts hts (hr ▸ List.prefix_rfl)
    | cons c r =>
      -- the name would go on with the underscore
      refine underscore_notMem_of_isName (hn.isName i hi) ?_
      rw [hr, (List.cons.inj hrest).1]
      simp
  · exact hclear i hi hsize ts hts ⟨r, hr.symm⟩

/-- **The symbols of types before an underscore can be read back.** -/
theorem Ty.eq_of_symbols (hn : Naming declared struct name)
    (hclear : Clear (.ofBackend cookie) declared struct name) {ts us : List Ty} {x y : List Char}
    (hts : ∀ t ∈ ts, t.PlainIn (.ofBackend cookie) declared)
    (hus : ∀ u ∈ us, u.PlainIn (.ofBackend cookie) declared)
    (h : (Ty.symbolsWith struct ts).toList ++ '_' :: x =
      (Ty.symbolsWith struct us).toList ++ '_' :: y) : ts = us := by
  induction ts generalizing us with
  | nil =>
    cases us with
    | nil => rfl
    | cons u us =>
      -- no symbol of a type begins with an underscore
      obtain ⟨c, r, hc, -, hne⟩ := head_symbolWith hn (hus u (List.mem_cons_self ..))
      rw [Ty.symbolsWith, Ty.symbolsWith, String.toList_append, hc] at h
      exact absurd (List.cons.inj h).1.symm hne
  | cons t ts ih =>
    rw [List.forall_mem_cons] at hts
    cases us with
    | nil =>
      obtain ⟨c, r, hc, -, hne⟩ := head_symbolWith hn hts.1
      rw [Ty.symbolsWith, Ty.symbolsWith, String.toList_append, hc] at h
      exact absurd (List.cons.inj h).1 hne
    | cons u us =>
      rw [List.forall_mem_cons] at hus
      rw [Ty.symbolsWith, Ty.symbolsWith, String.toList_append, String.toList_append,
        List.append_assoc, List.append_assoc] at h
      rcases symbolWith_append_inj hn t u hts.1 hus.1 (noDigit_symbolsWith hn hts.2 x)
        (noDigit_symbolsWith hn hus.2 y) h with ⟨rfl, hrest⟩ | hconfused | hconfused
      · rw [ih hts.2 hus.2 hrest]
      · exact absurd hconfused (not_confused hn hclear hts.2 x _)
      · exact absurd hconfused (not_confused hn hclear hus.2 y _)

end Types

/-! ### Functions -/

theorem StructStore.symbol_of_name {S : StructStore} {fuel : Nat} {outer : List StructId}
    {i : StructId} {name : String} (h : S.name? i = some name) :
    S.symbol (fuel + 1) outer i = "S" ++ sized name := by
  rw [StructStore.symbol, h]

/-- The symbol of a function as it is read from its definition. -/
theorem Signature.symbol_of_read {S : StructStore} {nothing : Ty} {c : LookupContext}
    {f : Source.FunctionDef} {sig : Signature} (h : read S nothing c f = .ok sig) :
    sig.symbol = "_P" ++ sized sig.definition.name.text ++ sig.type.symbol S := by
  obtain ⟨parameters, result, -, -, rfl⟩ := read_ok h
  rfl

/-- An analysed function has the symbol and the name of its signature. -/
theorem Signature.symbol_of_analyze {sig : Signature} {env : Env} {s s' : Fresh}
    {f : TypedFunction} (h : sig.analyze env s = .ok (f, s')) :
    f.symbol = sig.symbol ∧ f.name = sig.definition.name.text := by
  obtain ⟨parameters, inner, s₁, body, budget, -, -, -, rfl⟩ := exists_body h
  exact ⟨rfl, rfl⟩

theorem toList_symbol_arrow (S : StructStore) (parameters : List Ty) (result : Ty) :
    ((Ty.arrow parameters result).symbol S).toList =
      'F' :: ((Ty.symbolsWith (S.symbol (S.size + 1) []) parameters).toList ++
        '_' :: (result.symbol S).toList) := by
  simp [Ty.arrow, Ty.symbol, Ty.symbolWith, Ty.flagsSymbol, Flags.none]

/-- **Signatures with one symbol** have one name and the same parameter types. -/
theorem Signature.eq_of_symbol {cookie : Registration → Nat} {declared : StructId → Prop}
    {S : StructStore} {name : StructId → String} {a b : Signature}
    (hn : Naming declared (S.symbol (S.size + 1) []) name)
    (hclear : Clear (.ofBackend cookie) declared (S.symbol (S.size + 1) []) name)
    (ha : ∀ t ∈ a.parameters, t.PlainIn (.ofBackend cookie) declared)
    (hb : ∀ t ∈ b.parameters, t.PlainIn (.ofBackend cookie) declared)
    (hna : isName a.definition.name.text = true) (hnb : isName b.definition.name.text = true)
    (hsa : a.symbol = "_P" ++ sized a.definition.name.text ++ a.type.symbol S)
    (hsb : b.symbol = "_P" ++ sized b.definition.name.text ++ b.type.symbol S)
    (h : a.symbol = b.symbol) :
    a.definition.name.text = b.definition.name.text ∧ a.parameters = b.parameters := by
  rw [hsa, hsb, String.append_assoc, String.append_assoc] at h
  have htext := congrArg String.toList h
  rw [String.toList_append, String.toList_append, String.toList_append, String.toList_append,
    Signature.type, Signature.type, toList_symbol_arrow, toList_symbol_arrow] at htext
  obtain ⟨hname, hrest⟩ := sized_append_inj hna hnb (List.append_cancel_left htext)
  exact ⟨hname, Ty.eq_of_symbols hn hclear ha hb (List.cons.inj hrest).2⟩

/-! ### Modules -/

namespace LookupContext.Registered

variable {cookie : Registration → Nat} {S : StructStore} {signatures : List Signature}
  {c : LookupContext}

/-- The store knows the structs of a context by the names they are registered under. -/
theorem displayName (hc : c.Registered cookie S signatures) {name : String} {i : StructId}
    (h : (name, Ty.struct .none i) ∈ c.current.types) :
    S.name? i = some name ∧ S.displayName i = name := by
  obtain ⟨j, hj, hstore⟩ := hc.structs name _ h
  cases hj
  rw [StructStore.displayName, hstore]
  exact ⟨rfl, rfl⟩

/-- The structs of a context are written after their names. -/
theorem naming (hc : c.Registered cookie S signatures)
    (hnames : ∀ name i, (name, Ty.struct .none i) ∈ c.current.types → isName name = true) :
    Naming c.Declares (S.symbol (S.size + 1) []) S.displayName := by
  refine ⟨?_, ?_, ?_⟩
  · rintro i ⟨name, hname⟩
    obtain ⟨hstore, hdisplay⟩ := hc.displayName hname
    rw [StructStore.symbol_of_name hstore, hdisplay]
  · rintro i ⟨name, hname⟩
    rw [(hc.displayName hname).2]
    exact hnames name i hname
  · rintro i j ⟨name, hname⟩ ⟨name', hname'⟩ heq
    obtain ⟨hstore, hdisplay⟩ := hc.displayName hname
    obtain ⟨hstore', hdisplay'⟩ := hc.displayName hname'
    refine hc.name_inj i j ⟨name, hname⟩ ⟨name', hname'⟩ ?_
    rw [hstore, hstore', ← hdisplay, ← hdisplay', heq]

end LookupContext.Registered

theorem StructStore.head_symbol (S : StructStore) (fuel : Nat) (outer : List StructId)
    (i : StructId) : ∃ r, (S.symbol (fuel + 1) outer i).toList = 'S' :: r := by
  unfold StructStore.symbol
  split
  · exact ⟨_, by simp; rfl⟩
  · split
    · exact ⟨_, rfl⟩
    · split
      · exact ⟨_, rfl⟩
      · exact ⟨_, by simp; rfl⟩

/-- Symbols of types begin with one of seven letters. -/
theorem head_symbolWith_mem {cookie : Registration → Nat} {declared : StructId → Prop}
    {S : StructStore} {fuel : Nat} {t : Ty} (ht : t.PlainIn (.ofBackend cookie) declared) :
    ∃ c ∈ ['V', 'B', 'S', 'U', 'C', 'P', 'A'], ∃ r,
      (t.symbolWith (S.symbol (fuel + 1) [])).toList = c :: r := by
  rcases plain_cases ht with ⟨s, hs, rfl⟩ | ⟨u, -, rfl⟩ | ⟨u, n, -, rfl⟩ | ⟨i, hi, rfl⟩
  · rw [toList_symbolWith_scalar]
    have hname := name_mem_scalarNames hs
    simp only [scalarNames, List.mem_cons, List.not_mem_nil, or_false] at hname
    rcases hname with h | h | h | h | h | h | h | h | h | h | h <;> rw [h] <;>
      exact ⟨_, by decide, _, rfl⟩
  · exact ⟨'P', by decide, _, toList_symbolWith_pointer u⟩
  · exact ⟨'A', by decide, _, toList_symbolWith_array u n⟩
  · obtain ⟨r, hr⟩ := S.head_symbol fuel [] i
    refine ⟨'S', by decide, r, ?_⟩
    simpa [Ty.symbolWith, Ty.flagsSymbol, Flags.none] using hr

/-- The type can be written in the module. -/
def TypedModule.Writes (m : TypedModule) (types : BuiltinTypes) (t : Ty) : Prop :=
  t.PlainIn types fun i => ∃ d ∈ m.structs, d.type = .struct .none i

namespace Session

variable {cookie : Registration → Nat} {s s' : Session} {options : Options} {m : Source.Module}
  {typed : TypedModule}

/-- **What the symbols of a module are made of**: signatures that differ from each other, in a
context whose structs are those of the module, and whose symbols are those of its functions. -/
theorem Reached.signatures (hs : Reached cookie s)
    (h : s.analyze options m = .ok (.ok typed, s')) :
    ∃ (c : LookupContext) (signatures : List Signature),
      c.Registered cookie s'.structs signatures ∧
      (∀ name i, (name, Ty.struct .none i) ∈ c.current.types ↔
        ⟨name, .struct .none i⟩ ∈ typed.structs) ∧
      signatures.Pairwise (Signature.Differ s'.structs) ∧
      (∀ sig ∈ signatures, sig.symbol =
        "_P" ++ sized sig.definition.name.text ++ sig.type.symbol s'.structs) ∧
      typed.functions.map (·.symbol) = signatures.map (·.symbol) ∧
      typed.functions.map (·.name) = signatures.map (·.definition.name.text) := by
  obtain ⟨hb, -⟩ := hs.invariant
  obtain ⟨declared, c₁, signatures, c₂, hdeclare, hregister, hbodies, hstructs⟩ := analyze_ok h
  rw [hb] at hdeclare hregister
  have hc₁ := (LookupContext.Registered.moduleContext cookie s.structs).declareStructs hdeclare
  have hc₂ := hc₁.registerFunctions rfl hregister
  obtain ⟨S₁, hcollect, -⟩ := Source.Module.declareStructs_ok hdeclare
  obtain ⟨htypes, hobjects⟩ := DeclaredStruct.types_collect_declare hcollect
  obtain ⟨objects, hlists, hregister⟩ :=
    Source.Module.registerFunctions_ok (hobjects.trans rfl) hregister
  obtain ⟨⟨objects', rfl⟩, -, hdiffer, hread⟩ :=
    hlists.collect_register (fun f hf => List.mem_map_of_mem hf) hregister
  have hfs := (collect_ok hbodies).forall₂ fun _ _ _ _ hstep => Signature.symbol_of_analyze hstep
  refine ⟨_, signatures, hc₂, ?_, hdiffer, ?_, ?_, ?_⟩
  · intro name i
    show _ ∈ c₁.current.types ↔ _
    rw [htypes, hstructs]
    show (name, Ty.struct .none i) ∈ [] ++ _ ↔ _
    rw [List.nil_append, List.mem_map, List.mem_map]
    refine exists_congr fun d => and_congr_right fun _ => ?_
    rw [DeclaredStruct.entry, DeclaredStruct.typed, Prod.mk.injEq, TypedStruct.mk.injEq]
  · intro sig hsig
    obtain ⟨f, -, hf⟩ := hread sig hsig
    exact Signature.symbol_of_read hf
  · rw [← List.forall₂_eq_eq_eq, List.forall₂_map_left_iff, List.forall₂_map_right_iff]
    exact (hfs.imp fun _ _ h => h.1).flip
  · rw [← List.forall₂_eq_eq_eq, List.forall₂_map_left_iff, List.forall₂_map_right_iff]
    exact (hfs.imp fun _ _ h => h.2).flip

/-- **Different functions have different symbols** in a module whose structs and functions have
names, if no struct of a confusable size reads like types of the module. -/
theorem nodup_symbols (hs : Reached cookie s) (h : s.analyze options m = .ok (.ok typed, s'))
    (hstructs : ∀ d ∈ typed.structs, isName d.name = true)
    (hfunctions : ∀ f ∈ typed.functions, isName f.name = true)
    (hclear : ∀ d ∈ typed.structs, d.name.utf8ByteSize ∈ confusableSizes →
      ∀ ts : List Ty, (∀ t ∈ ts, typed.Writes (.ofBackend cookie) t) →
        ¬ d.name.toList <+:
          (Ty.symbolsWith (s'.structs.symbol (s'.structs.size + 1) []) ts).toList) :
    (typed.functions.map (·.symbol)).Nodup := by
  obtain ⟨c, signatures, hc, htypes, hdiffer, hsymbol, hsymbols, hnames⟩ := hs.signatures h
  have hdeclares : c.Declares = fun i => ∃ d ∈ typed.structs, d.type = .struct .none i := by
    funext i
    refine propext ⟨fun ⟨name, hname⟩ => ⟨_, (htypes name i).1 hname, rfl⟩, ?_⟩
    rintro ⟨⟨name, _⟩, hd, rfl⟩
    exact ⟨name, (htypes name i).2 hd⟩
  have hnaming := hc.naming fun name i hname => hstructs _ ((htypes name i).1 hname)
  have hclear : Clear (.ofBackend cookie) c.Declares
      (s'.structs.symbol (s'.structs.size + 1) []) s'.structs.displayName := by
    rintro i ⟨name, hname⟩ hsize ts hts
    rw [(hc.displayName hname).2] at hsize ⊢
    refine hclear _ ((htypes name i).1 hname) hsize ts fun t ht => ?_
    rw [TypedModule.Writes, ← hdeclares]
    exact hts t ht
  have hname : ∀ sig ∈ signatures, isName sig.definition.name.text = true := by
    intro sig hsig
    have hmem := List.mem_map_of_mem (f := fun sig : Signature => sig.definition.name.text) hsig
    rw [← hnames] at hmem
    obtain ⟨f, hf, heq⟩ := List.mem_map.1 hmem
    rw [← heq]
    exact hfunctions f hf
  rw [hsymbols, List.Nodup, List.pairwise_map]
  refine hdiffer.imp_of_mem ?_
  -- functions with the same symbol have the same name and parameters
  intro a b ha hb hne heq
  obtain ⟨hab, hparameters⟩ := Signature.eq_of_symbol hnaming hclear (hc.plain a ha).1
    (hc.plain b hb).1 (hname a ha) (hname b hb) (hsymbol a ha) (hsymbol b hb) heq
  exact hne ⟨hab, hparameters ▸ Ty.sameAll_self _ _⟩

/-- A module with a struct of the given name and two functions `f`: one takes a signed byte and two
truth values, the other takes the struct. -/
def overloadedOn (struct : String) : Source.Module :=
  let node : Source.Node := ⟨0, ⟨1, 1, "overloaded"⟩⟩
  let name (text : String) : Source.Name := ⟨node, text⟩
  let argument (text type : String) : Source.Argument := ⟨node, name text, .simple node type⟩
  ⟨node, "overloaded",
    [ .struct ⟨node, name struct, [⟨node, name "x", .simple node "U8"⟩]⟩,
      .function ⟨node, name "f", [argument "a" "S8", argument "b" "Bool", argument "c" "Bool"], none,
        .unit node []⟩,
      .function ⟨node, name "f", [argument "a" struct], none, .unit node []⟩ ]⟩

/-- An answer that is a typed module with a property. -/
theorem exists_typed_of_test {x : Except InternalError (Verdict × Session)}
    {p : TypedModule → Bool}
    (h : (match x with | .ok (.ok typed, _) => p typed | _ => false) = true) :
    ∃ typed s', x = .ok (.ok typed, s') ∧ p typed = true := by
  split at h
  · exact ⟨_, _, rfl, h⟩
  · cases h

set_option maxRecDepth 10000 in
theorem overloadedOn_distance : ∃ typed s', (start fun _ => 0).analyze .default
    (overloadedOn "Distance") = .ok (.ok typed, s') ∧ typed.structs.map (·.name) = ["Distance"] ∧
    typed.functions.map (·.name) = ["f", "f"] := by
  obtain ⟨typed, s', h, htest⟩ := exists_typed_of_test
    (x := (start fun _ => 0).analyze .default (overloadedOn "Distance"))
    (p := fun typed => decide (typed.structs.map (·.name) = ["Distance"] ∧
      typed.functions.map (·.name) = ["f", "f"])) (by decide +kernel)
  exact ⟨typed, s', h, of_decide_eq_true htest⟩

/-- The symbols are different in a module with a struct whose name has eight bytes. -/
theorem nodup_symbols_distance : ∃ typed s', (start fun _ => 0).analyze .default
    (overloadedOn "Distance") = .ok (.ok typed, s') ∧ typed.structs.map (·.name) = ["Distance"] ∧
    typed.functions.map (·.name) = ["f", "f"] ∧ (typed.functions.map (·.symbol)).Nodup := by
  obtain ⟨typed, s', h, hstructs, hfunctions⟩ := overloadedOn_distance
  have hstruct : ∀ d ∈ typed.structs, d.name = "Distance" := by
    intro d hd
    have hmem := List.mem_map_of_mem (f := fun d : TypedStruct => d.name) hd
    rw [hstructs] at hmem
    exact List.mem_singleton.1 hmem
  have hfunction : ∀ f ∈ typed.functions, f.name = "f" := by
    intro f hf
    have hmem := List.mem_map_of_mem (f := fun f : TypedFunction => f.name) hf
    rw [hfunctions] at hmem
    simpa using hmem
  refine ⟨typed, s', h, hstructs, hfunctions, nodup_symbols .start h ?_ ?_ ?_⟩
  · intro d hd
    rw [hstruct d hd]
    decide
  · intro f hf
    rw [hfunction f hf]
    decide
  · -- no symbol of a type begins with the letter `D`
    rintro d hd - ts hts ⟨r, hr⟩
    rw [hstruct d hd] at hr
    cases ts with
    | nil => cases hr
    | cons t ts =>
      obtain ⟨c, hc, r', hhead⟩ := @head_symbolWith_mem _ _ s'.structs s'.structs.size t
        (hts t (List.mem_cons_self ..))
      rw [Ty.symbolsWith, String.toList_append, hhead] at hr
      have hletter : 'D' = c := (List.cons.inj hr).1
      rw [← hletter] at hc
      exact absurd hc (by decide)

set_option maxRecDepth 10000 in
/-- **Two functions of one symbol**: a signed byte before two truth values reads like the struct
`BoolBool`. -/
theorem symbols_collide : ∃ typed s', (start fun _ => 0).analyze .default
    (overloadedOn "BoolBool") = .ok (.ok typed, s') ∧ typed.structs.map (·.name) = ["BoolBool"] ∧
    typed.functions.map (·.name) = ["f", "f"] ∧ ¬ (typed.functions.map (·.symbol)).Nodup := by
  obtain ⟨typed, s', h, htest⟩ := exists_typed_of_test
    (x := (start fun _ => 0).analyze .default (overloadedOn "BoolBool"))
    (p := fun typed => decide (typed.structs.map TypedStruct.name = ["BoolBool"] ∧
      typed.functions.map TypedFunction.name = ["f", "f"] ∧
      ¬ (typed.functions.map TypedFunction.symbol).Nodup))
    (by decide +kernel)
  exact ⟨typed, s', h, of_decide_eq_true htest⟩

end Session

end RangeTyping
