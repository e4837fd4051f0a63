import Mathlib
import RangeTyping.Proofs.Analysis.Module
import RangeTyping.Proofs.Intact.Range

/-!
# The ranges of an analysed module

Every node of an analysed module keeps the books on its range (`Session.obeys_rangeRule`):

* it has a range exactly if its type is an integer, a character or a truth value, and the range
  lies in the full range of the type and is kept in its representation (`Ty.Keeps`);
* the range is what the rule of the node makes of the ranges of its parts (`TypedExpr.RangeDerived`).
  In particular the rule of an operator gave a range, so no operation without a defined result is
  left.
-/

namespace RangeTyping

/-! ### The rule -/

/-- **What the book of a value of type `t` holds**: a range if the type is a number or a truth value
and none otherwise, within the full range of the type and in its representation. -/
structure Ty.Keeps (t : Ty) (r : Option ValueRange) : Prop where
  isSome_iff : r.isSome = true ↔ t.isIntegral = true ∨ t.isBool = true
  within : ∀ q, r = some q → ∃ full, t.fullRange = .ok (some full) ∧ full.contains q = true
  representation : ∀ q s, r = some q → t.asScalar? = some s →
    (q.signedness = .signed ↔ s.kind = .signedInt)

/-- **Where the range of a node comes from.** -/
def TypedExpr.RangeDerived : TypedExpr → Prop
  | .int i n => ∃ r, i.range = some r ∧ (n : Int) ∈ r
  | .bool i b => i.range = some (.ofBool b)
  | .null i | .block i _ | .ifThen i _ _ _ => i.range = none
  | .variable i v => i.range = v.range
  | .cast i _ s =>
    (s.type.flags = .none → ∃ d a q, i.type = .ofScalar d ∧ s.range = some a ∧
      d.convert a = .ok q ∧ i.range = some q) ∧
    (s.type.flags ≠ .none → i.range = s.range)
  | .call i _ _ | .dereference i _ => i.type.fullRange = .ok i.range
  | .binary i op l r => ∃ d a b q, i.type = .ofScalar d ∧ l.range = some a ∧ r.range = some b ∧
      op.range d a b = .ok q ∧ i.range = some q
  | .logicalNot i e => ∃ a q, e.range = some a ∧ a.logicalNot = .ok q ∧ i.range = some q
  | .valueBlock i _ r => i.range = r.range
  | .ifElse i _ a b _ _ => Env.hullRange a.range b.range = .ok i.range

/-- Where the range of a variable comes from: what may change has the full range of its type. -/
def TypedStmt.RangeDerived : TypedStmt → Prop
  | .define v e => v.type.Keeps v.range ∧
      if v.type.isMutable then v.type.fullRange = .ok v.range else v.range = e.range
  | _ => True

/-- The rule of books that are in order. -/
def rangeRule : Rule where
  expr _ e := e.type.Keeps e.range ∧ e.RangeDerived
  stmt _ s := s.RangeDerived

/-! ### Books in a setting -/

/-- A scalar has ranges unless it has no values. -/
theorem Scalar.hasRange_iff {s : Scalar} :
    s.kind ≠ .void ↔ s.isIntegral = true ∨ (s.kind == .bool) = true := by
  rcases hk : s.kind with _ | _ | _ | _ | _ <;> simp [Scalar.isIntegral, Scalar.isInteger, hk]

/-- Nothing is known about values that are no numbers. -/
theorem Ty.keeps_none {t : Ty} (h : ¬ (t.isIntegral = true ∨ t.isBool = true)) : t.Keeps none := by
  refine ⟨by simpa using h, ?_, ?_⟩
  · intro q hq
    cases hq
  · intro q s hq
    cases hq

/-- **A range that a known type admits** keeps the books of the type. -/
theorem Setting.Known.keeps {X : Setting} {t : Ty} {r : Option ValueRange} (ht : X.Known t)
    (hr : t.Admits r) : t.Keeps r := by
  cases hs : t.asScalar? with
  | none =>
    rw [Ty.admits_none hs] at hr
    subst hr
    exact Ty.keeps_none (by simp [Ty.isIntegral, Ty.isBool, hs])
  | some s =>
    have hkind : t.isIntegral = true ∨ t.isBool = true ↔ s.kind ≠ .void := by
      simp only [Ty.isIntegral, Ty.isBool, hs, Option.any_some, Scalar.hasRange_iff]
    -- void is the only scalar without values
    by_cases hv : s.kind = .void
    · have hnone : r = none := by simpa [Ty.Admits, hs, hv] using hr
      subst hnone
      exact Ty.keeps_none (by simp [hkind, hv])
    · obtain ⟨q, rfl, hof⟩ := (Ty.admits_some hs hv).1 hr
      have hsized := BuiltinTypes.sized_of_mem (ht.mem_all hs) hv
      refine ⟨by simp [hkind, hv], ?_, ?_⟩
      · rintro _ ⟨⟩
        obtain ⟨o, ho⟩ := Scalar.fullRange_total fun _ => hsized
        rcases Scalar.fullRange_ok hsized ho with ⟨hk, -⟩ | ⟨-, full, rfl, -, hl, hg⟩
        · exact absurd hk hv
        · refine ⟨full, by rw [Ty.fullRange, hs]; exact ho, ?_⟩
          rw [ValueRange.contains, hl, hg]
          simp [hof.least_le, hof.le_greatest]
      · intro q' s' hq' hs'
        rw [hs] at hs'
        cases hq'
        cases hs'
        rw [hof.signedness, Scalar.signedness, ← Scalar.isSigned_iff]
        cases s.isSigned <;> simp

namespace TypedExpr

variable {R : Rule}

mutual
/-- Every part of a tree that obeys a rule obeys it as a tree of its own. -/
theorem Obeys.nested {vs : List Variable} : ∀ e : TypedExpr, e.Obeys R vs →
    e.Obeys ⟨fun ws e => e.Obeys R ws, fun ws s => StmtObeys R ws s⟩ vs
  | .int _ _, h | .bool _ _, h | .null _, h | .variable _ _, h => h
  | .cast _ _ s, h => ⟨h, Obeys.nested s h.2⟩
  | .call _ _ as, h => ⟨h, ObeysAll.nested as h.2⟩
  | .binary _ _ l r, h => ⟨h, Obeys.nested l h.2.1, Obeys.nested r h.2.2⟩
  | .logicalNot _ e, h => ⟨h, Obeys.nested e h.2⟩
  | .block _ ss, h => ⟨h, StmtsObey.nested ss h.2⟩
  | .valueBlock _ ss r, h => ⟨h, StmtsObey.nested ss h.2.1, Obeys.nested r h.2.2⟩
  | .ifThen _ t a _, h => ⟨h, Obeys.nested t h.2.1, Obeys.nested a h.2.2⟩
  | .ifElse _ t a b _ _, h =>
    ⟨h, Obeys.nested t h.2.1, Obeys.nested a h.2.2.1, Obeys.nested b h.2.2.2⟩
  | .dereference _ p, h => ⟨h, Obeys.nested p h.2⟩

theorem ObeysAll.nested {vs : List Variable} : ∀ es : List TypedExpr, ObeysAll R vs es →
    ObeysAll ⟨fun ws e => e.Obeys R ws, fun ws s => StmtObeys R ws s⟩ vs es
  | [], _ => trivial
  | e :: es, h => ⟨Obeys.nested e h.1, ObeysAll.nested es h.2⟩

theorem StmtObeys.nested {vs : List Variable} : ∀ s : TypedStmt, StmtObeys R vs s →
    StmtObeys ⟨fun ws e => e.Obeys R ws, fun ws s => StmtObeys R ws s⟩ vs s
  | .expression e, h | .define _ e, h | .returnValue e, h => ⟨h, Obeys.nested e h.2⟩
  | .assign t e, h => ⟨h, Obeys.nested t h.2.1, Obeys.nested e h.2.2⟩
  | .returnVoid, h => h

theorem StmtsObey.nested {vs : List Variable} : ∀ ss : List TypedStmt, StmtsObey R vs ss →
    StmtsObey ⟨fun ws e => e.Obeys R ws, fun ws s => StmtObeys R ws s⟩ vs ss
  | [], _ => trivial
  | s :: ss, h => ⟨StmtObeys.nested s h.1, StmtsObey.nested ss h.2⟩
end

end TypedExpr

namespace Setting

variable {X : Setting} {vs : List Variable}

/-- Nodes without values of their own have no range. -/
theorem range_none_of_isVoid {e : TypedExpr} (h : X.rule.expr vs e)
    (ht : e.type.isVoid = true) : e.range = none :=
  (Ty.admits_of_isVoid ht).1 h.2.1

/-- **The range of a conditional is the hull of the ranges of its arms.** -/
theorem hullRange_of_obeys {i : ValueInfo} {t a b : TypedExpr} {p q : PointId}
    (h : (TypedExpr.ifElse i t a b p q).Obeys X.rule vs) :
    Env.hullRange a.range b.range = .ok i.range := by
  obtain ⟨⟨-, hadmits, ⟨-, htype, -⟩, hranged, -⟩, -, ha, -⟩ := h
  cases hi : i.range with
  | some r =>
    obtain ⟨c, d, hc, hd, hull⟩ := hranged r hi
    rw [hc, hd, Env.hullRange, hull]
    rfl
  | none =>
    -- the arms have the type of the conditional, which has no ranges
    have hnone : a.range = none := by
      have harm := ha.root.2.1
      rw [htype] at harm
      change i.type.Admits i.range at hadmits
      rw [hi] at hadmits
      exact hadmits.eq_none harm
    rw [hnone]
    rfl

/-- **The range of every node is derived from its parts** in a tree that obeys the rule. -/
theorem rangeDerived_of_obeys {e : TypedExpr} (h : e.Obeys X.rule vs) : e.RangeDerived := by
  have hroot := h.root
  cases e with
  | int | bool | «variable» | call | binary | logicalNot | valueBlock | dereference =>
    exact hroot.2.2.2.1
  | null i =>
    obtain ⟨-, hadmits, ⟨t, ht⟩, -⟩ := hroot
    change i.type.Admits i.range at hadmits
    rw [ht] at hadmits
    exact (Ty.admits_none rfl).1 hadmits
  | block i ss =>
    refine range_none_of_isVoid hroot ?_
    show i.type.isVoid = true
    rw [show i.type = X.types.voidTy from hroot.2.2.1]
    rfl
  | ifThen i t a p =>
    refine range_none_of_isVoid hroot ?_
    show i.type.isVoid = true
    rw [show i.type = X.types.voidTy from hroot.2.2.1.2]
    rfl
  | cast i op s =>
    obtain ⟨c, hc, hsource, -, hdestination⟩ := hroot.2.2.2.1
    -- a conversion from a plain type converts the range, and a decay keeps it
    constructor
    · intro hflags
      rw [← hsource] at hflags
      obtain ⟨d, a, q, hd, ha, hq, hconvert⟩ := hc.convert_of_plain hflags
      exact ⟨d, a, q, hdestination ▸ hd, ha, hconvert, hq⟩
    · intro hflags
      rw [← hsource] at hflags
      exact hc.eq_of_qualified hflags
  | ifElse i t a b p q => exact hullRange_of_obeys h

theorem rangeDerived_stmt {s : TypedStmt} (h : X.rule.stmt vs s) : s.RangeDerived := by
  cases s with
  | expression | assign | returnValue | returnVoid => trivial
  | define v e =>
    obtain ⟨-, ⟨hv, hsame⟩, -⟩ := h
    have hknown : X.Known v.type := known_withFlags.1 hv.plain.known
    refine ⟨hknown.keeps hv.admits, ?_⟩
    split
    · rename_i hmutable
      exact hv.full hmutable
    · rename_i hmutable
      exact hsame (by simpa using hmutable)

end Setting

/-! ### Analysed modules -/

namespace Session

variable {cookie : Registration → Nat} {s s' : Session} {options : Options} {m : Source.Module}
  {typed : TypedModule}

/-- **The books of an analysed module are in order**: every node has a range exactly if its type has
ranges, within the type and in its representation, and derived from the ranges of its parts by the
rule of the node. -/
theorem obeys_rangeRule (hs : Reached cookie s) (h : s.analyze options m = .ok (.ok typed, s')) :
    ∀ f ∈ typed.functions, f.body.Obeys rangeRule [] := by
  obtain ⟨X, hX⟩ := hs.analysed h
  intro f hf
  obtain ⟨hr, vs, hdefines⟩ := hX.defines f hf
  refine TypedExpr.Obeys.mono ?_ ?_ f.body (TypedExpr.Obeys.nested f.body hdefines.obeys)
  · intro ws _ e (he : e.Obeys _ ws)
    exact ⟨he.root.1.keeps he.root.2.1, Setting.rangeDerived_of_obeys he⟩
  · intro ws _ st (hst : TypedExpr.StmtObeys _ ws st)
    apply @Setting.rangeDerived_stmt (X.returning f.returnType hr) ws
    cases st with
    | expression | define | assign | returnValue => exact hst.1
    | returnVoid => exact hst

/-- The books are in order in a module with a conversion, a comparison and a conditional. -/
theorem obeys_rangeRule_climb : ∃ typed s', (start fun _ => 0).analyze .default climb =
    .ok (.ok typed, s') ∧ typed.functions ≠ [] ∧
    ∀ f ∈ typed.functions, f.body.Obeys rangeRule [] := by
  obtain ⟨typed, s', h, hne⟩ := climb_analysed
  exact ⟨typed, s', h, hne, obeys_rangeRule .start h⟩

end Session

end RangeTyping
