import Mathlib
import RangeTyping.Typed.Event
import RangeTyping.Proofs.Cast.Chain

/-!
# Rules for typed trees

A `Rule` says what an expression and what a statement has to satisfy where certain variables are in
scope.  A tree obeys a rule (`TypedExpr.Obeys`) if all its nodes do, each in its own scope: a
definition is in scope in the statements after it and in the result of its block.

Three groups of rules are given, all of them local, which is to say that they relate a node to its
immediate parts only:

* `TypedExpr.WellTyped`: the types fit together;
* `TypedExpr.Ranged`: the range of a node follows from the ranges of its parts;
* `TypedExpr.Identified`: identities are shared as the four conventions say, and a value that is
  read has an identity.

Together they are the rule of a setting (`Setting.rule`), and marking a value as unread does not
break it (`Setting.obeys_discard`).
-/

namespace RangeTyping

/-! ### Rules -/

/-- What expressions and statements have to satisfy where the given variables are in scope. -/
structure Rule where
  expr : List Variable → TypedExpr → Prop
  stmt : List Variable → TypedStmt → Prop

/-- The variables in scope after a statement. -/
def TypedStmt.bind (vs : List Variable) : TypedStmt → List Variable
  | .define v _ => v :: vs
  | _ => vs

/-- The variables in scope after statements. -/
def TypedStmt.bindAll (vs : List Variable) (ss : List TypedStmt) : List Variable :=
  ss.foldl TypedStmt.bind vs

mutual
/-- **Every node of the expression obeys the rule**, where the variables `vs` are in scope. -/
def TypedExpr.Obeys (R : Rule) (vs : List Variable) : TypedExpr → Prop
  | .int i n => R.expr vs (.int i n)
  | .bool i b => R.expr vs (.bool i b)
  | .null i => R.expr vs (.null i)
  | .variable i v => R.expr vs (.variable i v)
  | .cast i op s => R.expr vs (.cast i op s) ∧ Obeys R vs s
  | .call i f as => R.expr vs (.call i f as) ∧ ObeysAll R vs as
  | .binary i op l r => R.expr vs (.binary i op l r) ∧ Obeys R vs l ∧ Obeys R vs r
  | .logicalNot i e => R.expr vs (.logicalNot i e) ∧ Obeys R vs e
  | .block i ss => R.expr vs (.block i ss) ∧ StmtsObey R vs ss
  | .valueBlock i ss r =>
    R.expr vs (.valueBlock i ss r) ∧ StmtsObey R vs ss ∧ Obeys R (TypedStmt.bindAll vs ss) r
  | .ifThen i t a p => R.expr vs (.ifThen i t a p) ∧ Obeys R vs t ∧ Obeys R vs a
  | .ifElse i t a b p q =>
    R.expr vs (.ifElse i t a b p q) ∧ Obeys R vs t ∧ Obeys R vs a ∧ Obeys R vs b
  | .dereference i p => R.expr vs (.dereference i p) ∧ Obeys R vs p

/-- Every node of the expressions obeys the rule. -/
def TypedExpr.ObeysAll (R : Rule) (vs : List Variable) : List TypedExpr → Prop
  | [] => True
  | e :: es => Obeys R vs e ∧ ObeysAll R vs es

/-- Every node of the statement obeys the rule. -/
def TypedExpr.StmtObeys (R : Rule) (vs : List Variable) : TypedStmt → Prop
  | .expression e => R.stmt vs (.expression e) ∧ Obeys R vs e
  | .define v e => R.stmt vs (.define v e) ∧ Obeys R vs e
  | .assign t e => R.stmt vs (.assign t e) ∧ Obeys R vs t ∧ Obeys R vs e
  | .returnValue e => R.stmt vs (.returnValue e) ∧ Obeys R vs e
  | .returnVoid => R.stmt vs .returnVoid

/-- Every node of the statements obeys the rule, each statement where those before it were made. -/
def TypedExpr.StmtsObey (R : Rule) (vs : List Variable) : List TypedStmt → Prop
  | [] => True
  | s :: ss => StmtObeys R vs s ∧ StmtsObey R (s.bind vs) ss
end

namespace TypedExpr

variable {R R' : Rule} {vs : List Variable}

/-- A tree that obeys a rule obeys it at its root. -/
theorem Obeys.root {e : TypedExpr} (h : e.Obeys R vs) : R.expr vs e := by
  cases e with
  | int | bool | null | «variable» => exact h
  | cast | call | binary | logicalNot | block | valueBlock | ifThen | ifElse | dereference =>
    exact h.1

theorem obeysAll_iff {es : List TypedExpr} : ObeysAll R vs es ↔ ∀ e ∈ es, e.Obeys R vs := by
  induction es with
  | nil => simp [ObeysAll]
  | cons e es ih => simp [ObeysAll, ih]

mutual
/-- A tree obeys every rule that follows from one it obeys, whatever is in scope. -/
theorem Obeys.mono (he : ∀ vs ws e, R.expr vs e → R'.expr ws e)
    (hs : ∀ vs ws s, R.stmt vs s → R'.stmt ws s) {vs ws : List Variable} :
    ∀ e : TypedExpr, e.Obeys R vs → e.Obeys R' ws
  | .int _ _, h | .bool _ _, h | .null _, h | .variable _ _, h => he vs ws _ h
  | .cast _ _ s, h => ⟨he vs ws _ h.1, Obeys.mono he hs s h.2⟩
  | .call _ _ as, h => ⟨he vs ws _ h.1, ObeysAll.mono he hs as h.2⟩
  | .binary _ _ l r, h => ⟨he vs ws _ h.1, Obeys.mono he hs l h.2.1, Obeys.mono he hs r h.2.2⟩
  | .logicalNot _ e, h => ⟨he vs ws _ h.1, Obeys.mono he hs e h.2⟩
  | .block _ ss, h => ⟨he vs ws _ h.1, StmtsObey.mono he hs ss h.2⟩
  | .valueBlock _ ss r, h =>
    ⟨he vs ws _ h.1, StmtsObey.mono he hs ss h.2.1, Obeys.mono he hs r h.2.2⟩
  | .ifThen _ t a _, h => ⟨he vs ws _ h.1, Obeys.mono he hs t h.2.1, Obeys.mono he hs a h.2.2⟩
  | .ifElse _ t a b _ _, h =>
    ⟨he vs ws _ h.1, Obeys.mono he hs t h.2.1, Obeys.mono he hs a h.2.2.1,
      Obeys.mono he hs b h.2.2.2⟩
  | .dereference _ p, h => ⟨he vs ws _ h.1, Obeys.mono he hs p h.2⟩

theorem ObeysAll.mono (he : ∀ vs ws e, R.expr vs e → R'.expr ws e)
    (hs : ∀ vs ws s, R.stmt vs s → R'.stmt ws s) {vs ws : List Variable} :
    ∀ es : List TypedExpr, ObeysAll R vs es → ObeysAll R' ws es
  | [], _ => trivial
  | e :: es, h => ⟨Obeys.mono he hs e h.1, ObeysAll.mono he hs es h.2⟩

theorem StmtObeys.mono (he : ∀ vs ws e, R.expr vs e → R'.expr ws e)
    (hs : ∀ vs ws s, R.stmt vs s → R'.stmt ws s) {vs ws : List Variable} :
    ∀ s : TypedStmt, StmtObeys R vs s → StmtObeys R' ws s
  | .expression e, h | .define _ e, h | .returnValue e, h =>
    ⟨hs vs ws _ h.1, Obeys.mono he hs e h.2⟩
  | .assign t e, h => ⟨hs vs ws _ h.1, Obeys.mono he hs t h.2.1, Obeys.mono he hs e h.2.2⟩
  | .returnVoid, h => hs vs ws _ h

theorem StmtsObey.mono (he : ∀ vs ws e, R.expr vs e → R'.expr ws e)
    (hs : ∀ vs ws s, R.stmt vs s → R'.stmt ws s) {vs ws : List Variable} :
    ∀ ss : List TypedStmt, StmtsObey R vs ss → StmtsObey R' ws ss
  | [], _ => trivial
  | s :: ss, h => ⟨StmtObeys.mono he hs s h.1, StmtsObey.mono he hs ss h.2⟩
end

end TypedExpr

/-! ### Types -/

/-- **The conversions that a node may perform**, by source type, operation and result type: a
qualified value decays, an integer becomes another one, and a character becomes the unsigned integer
of its size or the other way around. -/
inductive BuiltinTypes.Converts (types : BuiltinTypes) : Ty → CastOp → Ty → Prop where
  | load {t : Ty} (plain : t.flags = .none) {f : Flags} (reference : f = .ref ∨ f = .refMut) :
      Converts types (t.withFlags f) .dereference t
  | unqualify {t : Ty} (plain : t.flags = .none) : Converts types (t.withFlags .mutOnly) .noOp t
  | integer {a b : Scalar} (ha : a ∈ types.integers) (hb : b ∈ types.integers) (ne : a ≠ b) :
      Converts types (.ofScalar a) (.between a b) (.ofScalar b)
  | fromChar : Converts types (.ofScalar types.c8) .noOp (.ofScalar types.u8)
  | toChar : Converts types (.ofScalar types.u8) .noOp (.ofScalar types.c8)

/-- Every edge of the graph of conversions is one that a node may perform. -/
theorem Setting.Edge.converts {X : Setting} {c : Cast} (h : X.Edge c) :
    X.types.Converts c.source c.op c.destination := by
  rcases h with h | ⟨t, ht, h⟩
  · rcases BuiltinTypes.mem_casts h with ⟨a, ha, b, hb, hne, rfl⟩ | rfl | rfl
    · rw [Cast.ofIntegers_source, Cast.ofIntegers_op, Cast.ofIntegers_destination]
      exact .integer ha hb hne
    · exact .fromChar
    · exact .toChar
  · -- a plain type has no other qualifiers than those that decay
    have hadd : ∀ f, t.addFlags f = t.withFlags f := by
      intro f
      rw [Ty.addFlags, ht.flags]
      rfl
    simp only [Cast.decays, hadd, List.mem_cons, List.not_mem_nil, or_false] at h
    rcases h with rfl | rfl | rfl
    · exact .load ht.flags (.inl rfl)
    · exact .load ht.flags (.inr rfl)
    · exact .unqualify ht.flags

/-- The operands of a binary operation may have the scalar `s`: an integer of the operation's
signedness, or the truth values for an equality test. -/
def BinaryOperation.Accepts (types : BuiltinTypes) (op : BinaryOperation) (s : Scalar) : Prop :=
  s ∈ types.integers ∧ (∀ g, op.signedness? = some g → s.signedness = g) ∨
    s = types.bool ∧ op.signedness? = none

/-- The scalar of the result of a binary operation on operands of the scalar `s`. -/
def BinaryOperation.resultScalar (types : BuiltinTypes) (op : BinaryOperation) (s : Scalar) :
    Scalar :=
  if op.comparison?.isSome then types.bool else s

namespace BinaryOperation.Accepts

variable {X : Setting} {op : BinaryOperation} {s : Scalar}

theorem mem_all (h : op.Accepts X.types s) : s ∈ X.types.all := by
  rcases h with ⟨hs, -⟩ | ⟨rfl, -⟩
  · exact BuiltinTypes.mem_all_of_integer hs
  · exact BuiltinTypes.bool_mem_all

theorem ne_void (h : op.Accepts X.types s) : s.kind ≠ .void := by
  rcases h with ⟨hs, -⟩ | ⟨rfl, -⟩
  · intro hk
    simpa [Scalar.isInteger, hk] using BuiltinTypes.isInteger_of_mem hs
  · exact ScalarKind.noConfusion

theorem result_mem_all (h : op.Accepts X.types s) : op.resultScalar X.types s ∈ X.types.all := by
  unfold resultScalar
  split
  · exact BuiltinTypes.bool_mem_all
  · exact h.mem_all

theorem result_ne_void (h : op.Accepts X.types s) : (op.resultScalar X.types s).kind ≠ .void := by
  unfold resultScalar
  split
  · exact ScalarKind.noConfusion
  · exact h.ne_void

/-- The range rule of an operation applies to operands that it accepts. -/
theorem fitsResult (h : op.Accepts X.types s) {a b : ValueRange} (ha : a.Of s) (hb : b.Of s) :
    op.FitsResult (op.resultScalar X.types s) a b := by
  unfold resultScalar FitsResult
  cases hc : op.comparison? with
  | some c => exact .inl ⟨rfl, rfl⟩
  | none =>
    -- arithmetic has a signedness, which is that of its operands
    obtain ⟨g, hg⟩ : ∃ g, op.signedness? = some g := by
      cases op with
      | plus g | minus g | multiply g => exact ⟨g, rfl⟩
      | divideUnsigned => exact ⟨.unsigned, rfl⟩
      | equals | notEquals | lessThan | lessThanOrEqual | greaterThan | greaterThanOrEqual =>
        cases hc
    rcases h with ⟨-, hs⟩ | ⟨-, hs⟩
    · refine .inr ⟨rfl, ?_, ha, hb⟩
      show op.signedness? = some s.signedness
      rw [hs g hg]
      exact hg
    · rw [hg] at hs
      cases hs

end BinaryOperation.Accepts

/-- **The typing rule of a node.**  `callable` tells the functions by symbol, parameter types and
result type. -/
def TypedExpr.WellTyped (types : BuiltinTypes) (callable : String → List Ty → Ty → Prop) :
    TypedExpr → Prop
  | .int i n => ∃ s ∈ types.integers, i.type = .ofScalar s ∧ s.Holds n
  | .bool i _ => i.type = types.boolTy
  | .null i => ∃ t, i.type = .pointerTo t
  | .variable i v => i.type = v.type
  | .cast i op s => types.Converts s.type op i.type
  | .call i f as => callable f (as.map TypedExpr.type) i.type
  | .binary i op l r => ∃ s, op.Accepts types s ∧ l.type = .ofScalar s ∧ r.type = .ofScalar s ∧
      i.type = .ofScalar (op.resultScalar types s)
  | .logicalNot i e => i.type = types.boolTy ∧ e.type = types.boolTy
  | .block i _ => i.type = types.voidTy
  | .valueBlock i _ r => i.type = r.type
  | .ifThen i t _ _ => t.type = types.boolTy ∧ i.type = types.voidTy
  | .ifElse i t a b _ _ => t.type = types.boolTy ∧ a.type = i.type ∧ b.type = i.type
  | .dereference i p => ∃ t, p.type = .pointerTo t ∧ i.type = t.addFlags .ref

/-- **The typing rule of a statement** in a function that returns `returnType`. -/
def TypedStmt.WellTyped (returnType : Ty) : TypedStmt → Prop
  | .expression _ => True
  | .define v e => v.type.unqualified = e.type
  | .assign t e => t.type.flags = .refMut ∧ e.type = t.type.unqualified
  | .returnValue e => e.type = returnType
  | .returnVoid => returnType.isVoid = true

/-! ### Ranges -/

/-- **The range of a node** follows from the ranges of its parts. -/
def TypedExpr.Ranged (X : Setting) : TypedExpr → Prop
  | .int i n => ∃ r, i.range = some r ∧ (n : Int) ∈ r
  | .bool i b => i.range = some (.ofBool b)
  | .null _ | .block _ _ | .ifThen _ _ _ _ => True
  | .variable i v => i.range = v.range
  | .cast i op s => ∃ c : Cast, X.Conveys c s.range i.range ∧ c.source = s.type ∧ c.op = op ∧
      c.destination = i.type
  | .call i _ _ => i.type.fullRange = .ok i.range
  | .binary i op l r => ∃ s a b q, i.type = .ofScalar s ∧ l.range = some a ∧ r.range = some b ∧
      op.range s a b = .ok q ∧ i.range = some q
  | .logicalNot i e => ∃ a q, e.range = some a ∧ a.logicalNot = .ok q ∧ i.range = some q
  | .valueBlock i _ r => i.range = r.range
  | .ifElse i _ a b _ _ => ∀ r, i.range = some r →
      ∃ p q, a.range = some p ∧ b.range = some q ∧ p.hull q = .ok r
  | .dereference i _ => i.type.fullRange = .ok i.range

/-- What a variable of a setting is: a place for values of a plain type that has values.  Of a
variable that may change only the full range is known. -/
structure Setting.Declares (X : Setting) (v : Variable) : Prop where
  plain : X.Plain v.type.unqualified
  inhabited : v.type.isVoid = false
  reference : v.type.isReference = true
  admits : v.type.Admits v.range
  full : v.type.isMutable = true → v.type.fullRange = .ok v.range
  read : v.id ≠ .unread

/-- **What is known about a defined variable** follows from its value. -/
def TypedStmt.Ranged (X : Setting) : TypedStmt → Prop
  | .define v e => X.Declares v ∧ (v.type.isMutable = false → v.range = e.range)
  | _ => True

/-! ### Identities -/

/-- **Identities are shared by the four conventions**, and a value that is read has one. -/
def TypedExpr.Identified (vs : List Variable) : TypedExpr → Prop
  | .int _ _ | .bool _ _ | .null _ => True
  | .variable i v => i.id = v.id ∧ v ∈ vs
  | .cast i .noOp s => i.id = s.id
  | .cast _ _ s => s.id ≠ .unread
  | .call _ _ as => ∀ a ∈ as, a.type.isVoid = false → a.id ≠ .unread
  | .binary _ _ l r => l.id ≠ .unread ∧ r.id ≠ .unread
  | .logicalNot _ e => e.id ≠ .unread
  | .block i _ => i.id = .unread
  | .valueBlock i _ r => i.id = r.id
  | .ifThen i t _ _ => i.id = .unread ∧ t.id ≠ .unread
  | .ifElse i t a b _ _ => t.id ≠ .unread ∧ (i.id ≠ .unread → a.id ≠ .unread ∧ b.id ≠ .unread)
  | .dereference i p => i.id = p.id ∧ p.id ≠ .unread

/-- A statement reads only values that have identities, and defines a new one. -/
def TypedStmt.Identified (vs : List Variable) : TypedStmt → Prop
  | .expression _ | .returnVoid => True
  | .define v e => v.id ∉ vs.map (·.id) ∧ e.id ≠ .unread
  | .assign t e => t.id ≠ .unread ∧ e.id ≠ .unread
  | .returnValue e => e.type.isVoid = true ∨ e.id ≠ .unread

/-! ### The rule of a setting -/

/-- **The rule of a setting**: known types, ranges of these types, and the three groups. -/
def Setting.rule (X : Setting) : Rule where
  expr vs e := X.Known e.type ∧ e.type.Admits e.range ∧ e.WellTyped X.types X.callable ∧
    e.Ranged X ∧ e.Identified vs
  stmt vs s := s.WellTyped X.returnType ∧ s.Ranged X ∧ s.Identified vs

/-- Every function that can be called takes values. -/
def Setting.Inhabited (X : Setting) : Prop :=
  ∀ symbol parameters result, X.callable symbol parameters result →
    ∀ t ∈ parameters, t.isVoid = false

namespace Setting

variable {X : Setting} {vs : List Variable}

/-- The range of an expression is one of its scalar. -/
theorem range_of_obeys {e : TypedExpr} {d : Scalar} {p : ValueRange} (h : e.Obeys X.rule vs)
    (htype : e.type = .ofScalar d) (hd : d.kind ≠ .void) (hp : e.range = some p) : p.Of d := by
  have hadmits := h.root.2.1
  rw [htype, hp] at hadmits
  obtain ⟨p', hp', hof⟩ := (Ty.admits_some rfl hd).1 hadmits
  cases hp'
  exact hof

/-- **The value of an expression is held by its identity**, whichever convention it follows. -/
theorem holder_eq_id {e : TypedExpr} (h : e.Obeys X.rule vs) : e.holder = e.id := by
  induction e using TypedExpr.holder.induct generalizing vs with
  | case1 i ss r ih =>
    obtain ⟨⟨-, -, -, -, hid⟩, -, hr⟩ := h
    exact (ih hr).trans hid.symm
  | case2 i p ih =>
    obtain ⟨⟨-, -, -, -, hid, -⟩, hp⟩ := h
    exact (ih hp).trans hid.symm
  | case3 e hblock hdereference => exact TypedExpr.holder.eq_3 e hblock hdereference

/-- The arguments of a call are read. -/
theorem arguments_read (hX : X.Inhabited) {i : ValueInfo} {f : String} {as : List TypedExpr}
    (h : (TypedExpr.call i f as).Obeys X.rule vs) : ∀ a ∈ as, a.id ≠ .unread := by
  obtain ⟨⟨-, -, hcallable, -, hid⟩, -⟩ := h
  intro a ha
  exact hid a ha (hX f _ _ hcallable a.type (List.mem_map_of_mem ha))

end Setting

/-- The value can be read, unless there is none, and what may be changed has values. -/
structure TypedExpr.Live (e : TypedExpr) : Prop where
  read : e.type.isVoid = false ∨ e.type.flags ≠ .none → e.id ≠ .unread
  changed : e.type.isMutable = true → e.type.isVoid = false

theorem TypedExpr.Live.of_flags {e : TypedExpr} (h : e.type.flags = .none)
    (hread : e.type.isVoid = false → e.id ≠ .unread) : e.Live := by
  constructor
  · rintro (hvoid | hflags)
    · exact hread hvoid
    · exact absurd h hflags
  · intro hmutable
    rw [Ty.isMutable, h] at hmutable
    cases hmutable

namespace TypedExpr

@[simp] theorem type_discard (e : TypedExpr) : e.discard.type = e.type := by
  fun_induction discard e <;> rfl

@[simp] theorem range_discard (e : TypedExpr) : e.discard.range = e.range := by
  fun_induction discard e <;> rfl

end TypedExpr

/-- **Marking a value as unread keeps the rule.** -/
theorem Setting.obeys_discard {X : Setting} {vs : List Variable} {e : TypedExpr}
    (h : e.Obeys X.rule vs) : e.discard.Obeys X.rule vs := by
  induction e using TypedExpr.discard.induct generalizing vs with
  | case1 | case2 => exact h
  | case3 i s ih =>
    obtain ⟨⟨hk, ha, ht, hr, hi⟩, hs⟩ := h
    refine ⟨⟨hk, ha, ?_, ?_, rfl⟩, ih hs⟩
    · show X.types.Converts s.discard.type .noOp i.type
      rw [s.type_discard]
      exact ht
    · obtain ⟨c, hc, hsrc, hop, hdst⟩ := hr
      refine ⟨c, ?_, hsrc.trans s.type_discard.symm, hop, hdst⟩
      rw [s.range_discard]
      exact hc
  | case4 i ss r ih =>
    obtain ⟨⟨hk, ha, ht, hr, hi⟩, hss, hres⟩ := h
    exact ⟨⟨hk, ha, ht.trans r.type_discard.symm, hr.trans r.range_discard.symm, rfl⟩, hss, ih hres⟩
  | case5 | case6 | case7 => exact h
  | case8 i op s hop =>
    obtain ⟨⟨hk, ha, ht, hr, hi⟩, hs⟩ := h
    cases op with
    | noOp => exact absurd rfl hop
    | dereference | truncate | changeSign | expandSigned | expandUnsigned =>
      exact ⟨⟨hk, ha, ht, hr, hi⟩, hs⟩
  | case9 | case10 | case11 => exact h
  | case12 i ss =>
    obtain ⟨⟨hk, ha, ht, hr, hi⟩, hss⟩ := h
    exact ⟨⟨hk, ha, ht, hr, rfl⟩, hss⟩
  | case13 i t a p =>
    obtain ⟨⟨hk, ha, ht, hr, hi⟩, hparts⟩ := h
    exact ⟨⟨hk, ha, ht, hr, rfl, hi.2⟩, hparts⟩
  | case14 i t a b p q =>
    obtain ⟨⟨hk, ha, ht, hr, hi⟩, hparts⟩ := h
    exact ⟨⟨hk, ha, ht, hr, hi.1, fun hne => absurd rfl hne⟩, hparts⟩

end RangeTyping
