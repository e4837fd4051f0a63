import Mathlib
import RangeTyping.Proofs.Analysis.Forms
import RangeTyping.Proofs.Analysis.Overload

/-!
# Analysed bodies are well made

Everything the analysis of a body returns is built well (`Setting.Built`): it obeys the rule of the
setting, can be read, and all identities and points in its events are new and different.  The proof
follows the recursion of the analysis.  First come the nodes that are put together from analysed
parts, each with a lemma of its own; then one induction on the source goes through expressions,
blocks and statements (`Env.Proper.operand`, `Env.Proper.block`, `Env.Proper.statements`).
-/

namespace RangeTyping

open Event

/-- A well-made expression whose identities and points were drawn from `s` to `s'`. -/
structure Setting.Built (X : Setting) (vs : List Variable) (s s' : Fresh) (e : TypedExpr) :
    Prop where
  made : X.Made vs e
  drew : s.Drew s' e.events

/-- An operand that is built well; open literals have drawn nothing. -/
structure Operand.Built (X : Setting) (vs : List Variable) (s s' : Fresh) (o : Operand) :
    Prop where
  made : o.Made X vs
  drew : s.Drew s' o.events

theorem Setting.Built.operand {X : Setting} {vs : List Variable} {s s' : Fresh} {e : TypedExpr}
    (h : X.Built vs s s' e) : (Operand.typed e).Built X vs s s' := ⟨h.made, h.drew⟩

theorem Setting.Extends.built {X : Setting} {vs : List Variable} {s s' s'' : Fresh} {o : Operand}
    {e : TypedExpr} (h : X.Extends vs s' s'' o.events e) (ho : o.Built X vs s s') :
    X.Built vs s s'' e :=
  ⟨h.made, h.drew ho.drew⟩

namespace Env

variable {X : Setting} {vs : List Variable} {s s₁ s₂ s₃ s₄ s₅ s' : Fresh} {env env' : Env}
  {budget budget' : Budget} {hint : Option Ty} {location : Location} {e t a b : TypedExpr}

/-! ### Leaves -/

theorem Proper.overloadsOf {name : String} {os : List Overload} (hp : env.Proper X vs s)
    (h : env.overloads name location s = .ok (os, s')) :
    (∀ o ∈ os, X.Offers o) ∧ s = s' := by
  obtain ⟨f, hobject, rfl, rfl⟩ := overloads_ok h
  exact ⟨hp.overloads hobject, rfl⟩

/-- **A variable in scope.** -/
theorem Proper.variable {name : String} {v : Variable} (hp : env.Proper X vs s)
    (hobject : env.context.object? name = some (.variable v)) :
    X.Built vs s s (.variable ⟨v.id, v.type, v.range⟩ v) := by
  have hv := hp.mem_scope hobject
  have hd := hp.declares v hv
  have hknown : X.Known v.type := Setting.known_withFlags.1 hd.plain.known
  exact ⟨⟨⟨hknown, hd.admits, rfl, rfl, rfl, hv⟩, fun _ => hd.read, fun _ => hd.inhabited⟩,
    .nil (.refl _)⟩

/-- **A truth value.** -/
theorem Proper.boolean {value : Bool} {id : ValueId} (hp : env.Proper X vs s)
    (hid : Analysis.freshValue s = .ok (id, s')) :
    X.Built vs s s' (.bool ⟨id, env.types.boolTy, some (.ofBool value)⟩ value) := by
  rw [hp.types]
  refine ⟨⟨⟨X.plain_boolTy.known, ?_, rfl, rfl, trivial⟩,
    .of_flags rfl fun _ => Fresh.ne_unread hp.positive hid⟩, .value hid rfl rfl⟩
  exact (Ty.admits_some rfl ScalarKind.noConfusion).2
    ⟨_, rfl, ValueRange.of_ofBool value rfl⟩

/-- **The place that a pointer points to.** -/
theorem built_pointee (he : X.Built vs s s₁ e) (hplain : X.Plain e.type)
    (h : pointee location e s₁ = .ok (t, s')) : X.Built vs s s' t := by
  obtain ⟨f, u, range, htype, hrange, rfl, rfl⟩ := pointee_ok h
  rw [htype] at hplain
  obtain rfl : f = .none := hplain.flags
  have hu : X.Plain u := Setting.plain_pointerTo.1 hplain
  have hread : e.id ≠ .unread := by
    refine he.made.live.read (.inl ?_)
    rw [htype]
    rfl
  refine ⟨⟨⟨⟨Setting.known_addFlags.2 hu.known, ?_, ⟨u, htype, rfl⟩, ?_, rfl, hread⟩,
    he.made.obeys⟩, fun _ => hread, ?_⟩, he.drew⟩
  · exact Ty.admits_withFlags.2 (hu.known.admits_fullRange hrange)
  · exact Ty.fullRange_withFlags.trans hrange
  · -- the place is not mutable: nothing but the reference is added to a plain type
    intro hmutable
    have hmutable : (u.addFlags .ref).isMutable = true := hmutable
    rw [Ty.isMutable, Ty.addFlags, Ty.flags_withFlags, hu.flags] at hmutable
    cases hmutable

/-! ### Blocks and conditionals -/

/-- **A block without result.** -/
theorem Proper.unitBlock {ss : List TypedStmt} (hp : env.Proper X vs s')
    (hss : TypedExpr.StmtsObey X.rule vs ss) (hd : s.Drew s' (TypedExpr.stmtEventsAll ss)) :
    X.Built vs s s' (env.unitBlock ss) := by
  unfold Env.unitBlock
  rw [hp.types]
  refine ⟨⟨⟨⟨X.plain_voidTy.known, ?_, rfl, trivial, rfl⟩, hss⟩, .of_flags rfl ?_⟩, hd⟩
  · exact (Ty.admits_of_isVoid rfl).2 rfl
  · intro hvoid
    cases hvoid

/-- **A block with a result** is what its result is. -/
theorem built_valueBlock {ss : List TypedStmt} (hss : TypedExpr.StmtsObey X.rule vs ss)
    (hd : s.Drew s₁ (TypedExpr.stmtEventsAll ss))
    (he : X.Built (TypedStmt.bindAll vs ss) s₁ s' e) : X.Built vs s s' (valueBlock ss e) :=
  ⟨⟨⟨⟨he.made.known, he.made.admits, rfl, rfl, rfl⟩, hss, he.made.obeys⟩, he.made.live.read,
    he.made.live.changed⟩, hd.append he.drew⟩

/-- The identities and points of a conditional without alternative. -/
theorem drew_ifThen {i : ValueInfo} {p : PointId} (hi : i.id = .unread)
    (ht : s.Drew s₁ t.events) (hp : Analysis.freshPoint s₁ = .ok (p, s₂))
    (ha : s₂.Drew s' a.events) : s.Drew s' (TypedExpr.ifThen i t a p).events := by
  have hdrawn := (ht.append (.point hp "continuation")).append ha
  refine hdrawn.of_perm ?_ ?_
  · rw [List.perm_iff_count]
    intro v
    simp [TypedExpr.events, produced_cons, produces, hi]
  · rw [List.perm_iff_count]
    intro q
    simp only [TypedExpr.events, placed_append, placed_cons, placed_nil, places,
      List.count_append, List.append_nil]
    omega

/-- The identities and points of a conditional with an alternative. -/
theorem drew_ifElse {i : ValueInfo} {c : Prop} {p q : PointId} (ht : s.Drew s₁ t.events)
    (hp : Analysis.freshPoint s₁ = .ok (p, s₂)) (ha : s₂.Drew s₃ a.events)
    (hb : s₃.Drew s₄ b.events)
    (hi : c ∧ i.id = .unread ∧ s₅ = s₄ ∨ ¬c ∧ Analysis.freshValue s₄ = .ok (i.id, s₅))
    (hq : Analysis.freshPoint s₅ = .ok (q, s')) :
    s.Drew s' (TypedExpr.ifElse i t a b p q).events := by
  have hbranch : s₄.Drew s₅ [.conditionalBranch i.id i.type t.holder p q] :=
    .valueUnless hi rfl rfl
  have hdrawn := ((((ht.append (.point hp "else")).append ha).append hb).append hbranch).append
    (.point hq "continuation")
  refine hdrawn.of_perm ?_ ?_
  · rw [List.perm_iff_count]
    intro v
    simp only [TypedExpr.events, produced_append, produced_cons, produced_nil, produces,
      List.count_append, List.append_nil, List.filter_nil]
    omega
  · rw [List.perm_iff_count]
    intro r
    simp only [TypedExpr.events, placed_append, placed_cons, placed_nil, places,
      List.count_append, List.append_nil, List.nil_append]
    omega

/-- A truth value can be read. -/
theorem read_of_bool (ht : X.Made vs t) (htype : t.type = X.types.boolTy) : t.id ≠ .unread :=
  read_of_made ht htype ScalarKind.noConfusion

/-- **A conditional without alternative.** -/
theorem built_ifThen {p : PointId} (ht : X.Built vs s s₁ t) (htype : t.type = X.types.boolTy)
    (hp : Analysis.freshPoint s₁ = .ok (p, s₂)) (ha : X.Built vs s₂ s' a) :
    X.Built vs s s' (.ifThen ⟨.unread, X.types.voidTy, none⟩ t a.discard p) := by
  refine ⟨⟨⟨⟨X.plain_voidTy.known, ?_, ⟨htype, rfl⟩, trivial, rfl, read_of_bool ht.made htype⟩,
    ht.made.obeys, Setting.obeys_discard ha.made.obeys⟩, .of_flags rfl ?_⟩, ?_⟩
  · exact (Ty.admits_of_isVoid rfl).2 rfl
  · intro hvoid
    cases hvoid
  · exact drew_ifThen rfl ht.drew hp ha.drew.discard

/-- The range of a conditional is one of its type. -/
theorem admits_hullRange {u : Ty} {p q r : Option ValueRange} (hp : u.Admits p) (hq : u.Admits q)
    (h : hullRange p q = .ok r) : u.Admits r := by
  cases p with
  | none =>
    cases h
    exact hp
  | some p =>
    cases q with
    | none =>
      cases h
      exact hq
    | some q =>
      obtain ⟨r, hr, rfl⟩ := Outcome.map_ok h
      obtain ⟨a, ha, hv, hpa⟩ := hp.of
      obtain ⟨q', hq', hqa⟩ := (Ty.admits_some ha hv).1 hq
      cases hq'
      exact (Ty.admits_some ha hv).2 ⟨r, rfl, (ValueRange.hull_ok hr).2.2 a hpa hqa⟩

/-- **A conditional with an alternative**, whose arms have its type. -/
theorem built_conditional {type : Ty} {p : PointId} (hpos : 0 < s.nextValue) (htype : X.Plain type)
    (ht : X.Built vs s s₁ t) (hbool : t.type = X.types.boolTy)
    (hp : Analysis.freshPoint s₁ = .ok (p, s₂)) (ha : X.Built vs s₂ s₃ a) (hat : a.type = type)
    (hb : X.Built vs s₃ s₄ b) (hbt : b.type = type)
    (h : conditional type t a b p s₄ = .ok (e, s')) : X.Built vs s s' e := by
  obtain ⟨range, id, s₅, q, hrange, hid, hq, rfl⟩ := conditional_ok h
  have hpos₄ : 0 < s₄.nextValue := by
    have h₁ := ht.drew.grew.values
    have h₂ := (Fresh.Grew.freshPoint hp).values
    have h₃ := ha.drew.grew.values
    have h₄ := hb.drew.grew.values
    omega
  have hread : type.isVoid = false → id ≠ .unread := Fresh.ne_unread_of_drawUnless hpos₄ hid
  refine ⟨⟨⟨⟨htype.known, ?_, ⟨hbool, hat, hbt⟩, ?_, read_of_bool ht.made hbool, ?_⟩,
    ht.made.obeys, ha.made.obeys, hb.made.obeys⟩, .of_flags htype.flags hread⟩, ?_⟩
  · -- the range is the hull of two ranges that the type admits
    exact admits_hullRange (hat ▸ ha.made.admits) (hbt ▸ hb.made.admits) hrange
  · intro r hr
    have hr : range = some r := hr
    subst hr
    revert hrange
    cases a.range with
    | none => exact fun h => nomatch h
    | some p =>
      cases b.range with
      | none => exact fun h => nomatch h
      | some q =>
        intro h
        obtain ⟨r', hr', heq⟩ := Outcome.map_ok h
        cases heq
        exact ⟨p, q, rfl, rfl, hr'⟩
  · -- the arms are read only if the conditional is, and then its type has values
    intro hne
    have hvoid : type.isVoid = false := by
      rcases hid with ⟨-, hunread, -⟩ | ⟨hvoid, -⟩
      · exact absurd hunread hne
      · exact Bool.eq_false_iff.2 hvoid
    exact ⟨ha.made.live.read (.inl (hat ▸ hvoid)), hb.made.live.read (.inl (hbt ▸ hvoid))⟩
  · exact drew_ifElse ht.drew hp ha.drew hb.drew hid hq

/-! ### Statements -/

/-- A statement that is built well, and the surroundings of the statements after it. -/
structure StatementBuilt (X : Setting) (vs : List Variable) (s s' : Fresh) (st : TypedStmt)
    (env : Env) : Prop where
  obeys : TypedExpr.StmtObeys X.rule vs st
  drew : s.Drew s' (TypedExpr.stmtEvents st)
  proper : env.Proper X (st.bind vs) s'

/-- **A variable definition.** -/
theorem Proper.defineVariable {name : Source.Name} {isMutable : Bool} {st : TypedStmt}
    (hp : env.Proper X vs s₁) (he : X.Built vs s s₁ e) (hplain : X.Plain e.type)
    (h : env.defineVariable name isMutable location e s₁ = .ok ((st, env'), s')) :
    StatementBuilt X vs s s' st env' := by
  obtain ⟨v, range, hfull, hdeclare, rfl⟩ := defineVariable_ok h
  -- the full range for a mutable variable, that of the value for any other
  have hfull' : isMutable = true → e.type.fullRange = .ok range := by
    intro hmutable
    rw [if_pos hmutable] at hfull
    exact hfull
  have hrange : e.type.Admits range := by
    by_cases hmutable : isMutable = true
    · exact he.made.known.admits_fullRange (hfull' hmutable)
    · rw [if_neg hmutable] at hfull
      rw [hfull]
      exact he.made.admits
  obtain ⟨hproper, hid, hnew, htype, hvrange, hvoid⟩ :=
    hp.declare he.made.known hrange hfull' hdeclare
  refine ⟨⟨⟨?_, ⟨hproper.declares v (List.mem_cons_self ..), ?_⟩, hnew, ?_⟩, he.made.obeys⟩, ?_,
    hproper⟩
  · show v.type.unqualified = e.type
    rw [htype, Ty.unqualified, Ty.withFlags_withFlags]
    exact hplain.unqualified_eq
  · intro himmutable
    rw [htype, Ty.isMutable, Ty.flags_withFlags] at himmutable
    cases isMutable with
    | true => cases himmutable
    | false => exact hvrange.trans hfull
  · exact he.made.live.read (.inl hvoid)
  · -- the definition sends two events: storage, which draws the variable, and a store
    have hslot : s₁.Drew s' [.allocate v.id v.type.unqualified v.name] := .value hid rfl rfl
    have hstore : s'.Drew s' [.assign v.id e.holder] := .silent (.refl _) rfl rfl
    exact he.drew.append (hslot.append hstore)

/-- **An assignment** to a place that may change. -/
theorem built_assign (hp : env.Proper X vs s') (ht : X.Built vs s s₁ t)
    (hplace : t.type.flags = .refMut) (he : X.Built vs s₁ s' e)
    (htype : e.type = t.type.unqualified) : StatementBuilt X vs s s' (.assign t e) env := by
  have hvoid : e.type.isVoid = false := by
    rw [htype, Ty.unqualified, Ty.isVoid_withFlags]
    apply ht.made.live.changed
    rw [Ty.isMutable, hplace]
    rfl
  have htread : t.id ≠ .unread := by
    refine ht.made.live.read (.inr ?_)
    rw [hplace]
    decide
  refine ⟨⟨⟨⟨hplace, htype⟩, trivial, htread, he.made.live.read (.inl hvoid)⟩, ht.made.obeys,
    he.made.obeys⟩, ?_, hp⟩
  -- the target is analysed first and sends its events last
  have hstore : s'.Drew s' [.assign t.holder e.holder] := .silent (.refl _) rfl rfl
  exact ((ht.drew.append he.drew).append hstore).perm (List.perm_append_comm.append_right _)

/-- **A return of a value** of the result type. -/
theorem built_returnValue (hp : env.Proper X vs s') (he : X.Built vs s s' e)
    (htype : e.type = X.returnType) : StatementBuilt X vs s s' (.returnValue e) env := by
  refine ⟨⟨⟨htype, trivial, ?_⟩, he.made.obeys⟩, ?_, hp⟩
  · show e.type.isVoid = true ∨ e.id ≠ .unread
    cases hvoid : e.type.isVoid with
    | true => exact .inl rfl
    | false => exact .inr (he.made.live.read (.inl hvoid))
  · have hreturn : s'.Drew s' [if e.type.isVoid then .returnVoid else .returnValue e.holder] := by
      refine .silent (.refl _) ?_ ?_ <;> split <;> rfl
    exact he.drew.append hreturn

/-- **A return without value**, in a function that returns nothing. -/
theorem Proper.returnNothing (hp : env.Proper X vs s) (hvoid : env.returnType.isVoid = true) :
    StatementBuilt X vs s s .returnVoid env := by
  rw [hp.returnType] at hvoid
  exact ⟨⟨hvoid, trivial, trivial⟩, .silent (.refl _) rfl rfl, hp⟩

theorem Proper.declaredType {name : Source.Name} {type : Source.TypeExpr} {u : Ty}
    (hp : env.Proper X vs s) (h : env.declaredType name location type s = .ok (u, s')) :
    X.Plain u ∧ s = s' :=
  hp.resolveType (declaredType_ok h)

/-! ### The recursion -/

/-- A hint is a plain type. -/
def PlainHint (X : Setting) (hint : Option Ty) : Prop := ∀ t, hint = some t → X.Plain t

theorem plainHint_none (X : Setting) : PlainHint X none := nofun

theorem plainHint_some {u : Ty} (h : X.Plain u) : PlainHint X (some u) := by
  intro t ht
  cases ht
  exact h

theorem Proper.plainHint_bool (hp : env.Proper X vs s) : PlainHint X (some env.types.boolTy) :=
  plainHint_some (hp.types ▸ X.plain_boolTy)

theorem Proper.plainHint_return (hp : env.Proper X vs s) : PlainHint X (some env.returnType) :=
  plainHint_some (hp.returnType ▸ X.returnType_plain)

/-- The type of the arms of a conditional: the hint, or the type of the first arm. -/
theorem PlainHint.plain_getD {u : Ty} (h : PlainHint X hint) (hu : X.Known u) :
    X.Plain (hint.getD u.unqualified) := by
  cases hint with
  | some t => exact h t rfl
  | none => exact Setting.plain_unqualified hu

/-- An operand that is settled is built well, and has the type that is hinted at. -/
theorem Proper.settled {o : Operand} {hint : Option Ty} (hp : env.Proper X vs s)
    (ho : o.Built X vs s s₁) (hh : PlainHint X hint)
    (h : env.settle budget hint location o s₁ = .ok ((e, budget'), s')) :
    X.Built vs s s' e ∧ ∀ u, hint = some u → e.type = u := by
  obtain ⟨hext, htype⟩ := (hp.mono ho.drew.grew).settle ho.made hh h
  exact ⟨hext.built ho, htype⟩

/-- The test of a conditional is a truth value. -/
theorem Proper.test {o : Operand} (hp : env.Proper X vs s) (ho : o.Built X vs s s₁)
    (h : env.settle budget (some env.types.boolTy) location o s₁ = .ok ((t, budget'), s')) :
    X.Built vs s s' t ∧ t.type = X.types.boolTy := by
  rw [hp.types] at h
  obtain ⟨hbuilt, htype⟩ := hp.settled ho (plainHint_some X.plain_boolTy) h
  exact ⟨hbuilt, htype _ rfl⟩

mutual
/-- **An analysed expression is built well.** -/
theorem Proper.operand : ∀ (source : Source.Expr) {env : Env} {budget budget' : Budget}
    {hint : Option Ty} {vs : List Variable} {s s' : Fresh} {o : Operand}, env.Proper X vs s →
    PlainHint X hint → env.operand budget hint source s = .ok ((o, budget'), s') →
    o.Built X vs s s'
  | .number n text, env, budget, _, hint, vs, s, _, o, hp, hh, h => by
    obtain ⟨value, -, rfl, rfl, rfl⟩ := operand_ok h
    exact ⟨trivial, .nil (.refl _)⟩
  | .boolean _ value, env, budget, _, hint, vs, s, _, o, hp, hh, h => by
    obtain ⟨id, hid, rfl, rfl⟩ := operand_ok h
    exact (hp.boolean hid).operand
  | .null _, env, budget, _, hint, vs, s, _, o, hp, hh, h => by
    obtain ⟨rfl, rfl, rfl⟩ := operand_ok h
    exact ⟨trivial, .nil (.refl _)⟩
  | .identifier name, env, budget, _, hint, vs, s, _, o, hp, hh, h => by
    obtain ⟨v, hobject, rfl, rfl, rfl⟩ := operand_ok h
    exact (hp.variable hobject).operand
  | .binary n token left right, env, budget, _, hint, vs, s, _, o, hp, hh, h => by
    obtain ⟨f, l, b₁, s₁, r, b₂, s₂, e, hobject, hl, hr, he, rfl⟩ := operand_ok h
    have hlb := Proper.operand left hp (plainHint_none X) hl
    have hp₁ := hp.mono hlb.drew.grew
    have hrb := Proper.operand right hp₁ (plainHint_none X) hr
    have hp₂ := hp₁.mono hrb.drew.grew
    have hcons := hp₂.select (hp.overloads hobject) (by simp [hlb.made, hrb.made]) hh he
    refine ⟨hcons.made, hcons.drew ?_⟩
    rw [List.flatMap_cons, List.flatMap_cons, List.flatMap_nil, List.append_nil]
    exact hlb.drew.append hrb.drew
  | .logicalNot n source, env, budget, _, hint, vs, s, _, o, hp, hh, h => by
    obtain ⟨f, a, b₁, s₁, e, hobject, ha, he, rfl⟩ := operand_ok h
    have hab := Proper.operand source hp (plainHint_none X) ha
    have hp₁ := hp.mono hab.drew.grew
    have hcons := hp₁.select (hp.overloads hobject) (by simp [hab.made]) hh he
    refine ⟨hcons.made, hcons.drew ?_⟩
    rw [List.flatMap_cons, List.flatMap_nil, List.append_nil]
    exact hab.drew
  | .call n function arguments, env, budget, _, hint, vs, s, _, o, hp, hh, h => by
    obtain ⟨f, os, b₁, s₁, e, hobject, hos, he, rfl⟩ := operand_ok h
    obtain ⟨hmade, hdrew⟩ := Proper.operands arguments hp hos
    have hcons := (hp.mono hdrew.grew).select (hp.overloads hobject) hmade hh he
    exact ⟨hcons.made, hcons.drew hdrew⟩
  | .cast n type source, env, budget, _, hint, vs, s, _, o, hp, hh, h => by
    obtain ⟨destination, a, b₁, s₁, e, htype, ha, he, rfl⟩ := operand_ok h
    have hab := Proper.operand source hp (plainHint_none X) ha
    have hplain := (hp.resolveType htype).1
    exact (((hp.mono hab.drew.grew).coerce hab.made hplain he).1.built hab).operand
  | .block body, env, budget, _, hint, vs, s, _, o, hp, hh, h => by
    obtain ⟨e, he, rfl⟩ := operand_ok h
    exact (Proper.block body hp hh he).1.operand
  | .ifThen n test thenArm, env, budget, _, hint, vs, s, _, o, hp, hh, h => by
    obtain ⟨t₀, b₀, s₀, t, b₁, s₁, p, s₂, a, ht₀, ht, hpoint, ha, rfl⟩ := operand_ok h
    have htest := Proper.operand test hp hp.plainHint_bool ht₀
    obtain ⟨htb, htype⟩ := hp.test htest ht
    have hp₂ := hp.mono (htb.drew.grew.trans (.freshPoint hpoint))
    have hab := (Proper.block thenArm hp₂ (plainHint_none X) ha).1
    rw [hp.types]
    exact (built_ifThen htb htype hpoint hab).operand
  | .ifElse n test thenArm elseArm, env, budget, _, hint, vs, s, _, o, hp, hh, h => by
    obtain ⟨t₀, b₀, s₀, t, b₁, s₁, p, s₂, a₀, b₂, s₃, a, b₃, s₄, c₀, b₄, s₅, c, s₆, e, ht₀, ht,
      hpoint, ha₀, ha, hc₀, hc, he, rfl⟩ := operand_ok h
    have htest := Proper.operand test hp hp.plainHint_bool ht₀
    obtain ⟨htb, htype⟩ := hp.test htest ht
    have hp₂ := hp.mono (htb.drew.grew.trans (.freshPoint hpoint))
    have hab₀ := (Proper.block thenArm hp₂ hh ha₀).1
    have hplain := hh.plain_getD hab₀.made.known
    have hp₃ := hp₂.mono hab₀.drew.grew
    obtain ⟨haext, hat⟩ := hp₃.convert hab₀.made hplain ha
    have hp₄ := hp₃.mono haext.grew
    have hcb₀ := (Proper.block elseArm hp₄ (plainHint_some hplain) hc₀).1
    obtain ⟨hcext, hct⟩ := (hp₄.mono hcb₀.drew.grew).convert hcb₀.made hplain hc
    exact (built_conditional hp.positive hplain htb htype hpoint (haext.built hab₀.operand) hat
      (hcext.built hcb₀.operand) hct he).operand
  | .dereference n source, env, budget, _, hint, vs, s, _, o, hp, hh, h => by
    obtain ⟨a, b₁, s₁, p, e, ha, hpointer, he, rfl⟩ := operand_ok h
    have hab := Proper.operand source hp (plainHint_none X) ha
    obtain ⟨hext, hplain⟩ := (hp.mono hab.drew.grew).plain hab.made hpointer
    exact (built_pointee (hext.built hab) hplain he).operand

/-- Analysed expressions are built well, one after the other. -/
theorem Proper.operands : ∀ (sources : List Source.Expr) {env : Env} {budget budget' : Budget}
    {vs : List Variable} {s s' : Fresh} {os : List Operand}, env.Proper X vs s →
    env.operands budget sources s = .ok ((os, budget'), s') →
    (∀ o ∈ os, o.Made X vs) ∧ s.Drew s' (os.flatMap Operand.events)
  | [], env, budget, _, vs, s, _, os, hp, h => by
    cases h
    exact ⟨fun o ho => absurd ho List.not_mem_nil, .nil (.refl _)⟩
  | source :: sources, env, budget, _, vs, s, _, os, hp, h => by
    obtain ⟨o, b₁, s₁, rest, ho, hrest, rfl⟩ := operands_cons_ok h
    have hob := Proper.operand source hp (plainHint_none X) ho
    obtain ⟨hmade, hdrew⟩ := Proper.operands sources (hp.mono hob.drew.grew) hrest
    refine ⟨?_, hob.drew.append hdrew⟩
    intro o' ho'
    rcases List.mem_cons.1 ho' with rfl | ho'
    · exact hob.made
    · exact hmade o' ho'

/-- **An analysed block is built well**, and a result has the type that is hinted at. -/
theorem Proper.block : ∀ (source : Source.Block) {env : Env} {budget budget' : Budget}
    {hint : Option Ty} {vs : List Variable} {s s' : Fresh} {e : TypedExpr}, env.Proper X vs s →
    PlainHint X hint → env.block budget hint source s = .ok ((e, budget'), s') →
    X.Built vs s s' e ∧ ∀ t, hint = some t → source.hasResult = true → e.type = t
  | .unit n sources, env, budget, _, hint, vs, s, _, e, hp, hh, h => by
    obtain ⟨ss, inner, hss, rfl, rfl⟩ := block_ok h
    obtain ⟨hobey, hdrew, hinner⟩ := Proper.statements sources hp.enter hss
    refine ⟨?_, fun t _ hresult => nomatch hresult⟩
    unfold Env.unitBlock
    rw [hinner.types, ← hp.types]
    exact (hp.mono hdrew.grew).unitBlock hobey hdrew
  | .value n sources result, env, budget, _, hint, vs, s, _, e, hp, hh, h => by
    obtain ⟨ss, inner, s₁, o, b₁, s₂, r, hss, ho, hr, rfl⟩ := block_ok h
    obtain ⟨hobey, hdrew, hinner⟩ := Proper.statements sources hp.enter hss
    have hob := Proper.operand result hinner hh ho
    obtain ⟨hbuilt, htype⟩ := hinner.settled hob hh hr
    exact ⟨built_valueBlock hobey hdrew hbuilt, fun t ht _ => htype t ht⟩

/-- **An analysed statement is built well.** -/
theorem Proper.statement : ∀ (source : Source.Stmt) {env env' : Env} {vs : List Variable}
    {s s' : Fresh} {st : TypedStmt}, env.Proper X vs s →
    env.statement source s = .ok ((st, env'), s') → StatementBuilt X vs s s' st env'
  | .expression source, env, env', vs, s, _, st, hp, h => by
    obtain ⟨o, b₁, s₁, e, b₂, ho, he, rfl, rfl⟩ := statement_ok h
    have hob := Proper.operand source hp (plainHint_none X) ho
    obtain ⟨hbuilt, -⟩ := hp.settled hob (plainHint_none X) he
    exact ⟨⟨⟨trivial, trivial, trivial⟩, Setting.obeys_discard hbuilt.made.obeys⟩,
      hbuilt.drew.discard, hp.mono hbuilt.drew.grew⟩
  | .define n name isMutable (some type) source, env, env', vs, s, _, st, hp, h => by
    obtain ⟨u, o, b₁, s₁, e, b₂, s₂, hu, ho, he, hdefine⟩ := statement_ok h
    have hplain := (hp.declaredType hu).1
    have hob := Proper.operand source hp (plainHint_some hplain) ho
    obtain ⟨hbuilt, htype⟩ := hp.settled hob (plainHint_some hplain) he
    exact (hp.mono hbuilt.drew.grew).defineVariable hbuilt (htype u rfl ▸ hplain) hdefine
  | .define n name isMutable none source, env, env', vs, s, _, st, hp, h => by
    obtain ⟨o, b₁, s₁, e, b₂, s₂, ho, he, hdefine⟩ := statement_ok h
    have hob := Proper.operand source hp (plainHint_none X) ho
    obtain ⟨hext, hplain⟩ := (hp.mono hob.drew.grew).plain hob.made he
    have hbuilt := hext.built hob
    exact (hp.mono hbuilt.drew.grew).defineVariable hbuilt hplain hdefine
  | .assign n target source, env, env', vs, s, _, st, hp, h => by
    obtain ⟨o, b₁, s₁, t, b₂, s₂, o', b₃, s₃, e, b₄, ho, ht, hplace, ho', he, rfl, rfl⟩ :=
      statement_ok h
    have hob := Proper.operand target hp (plainHint_none X) ho
    obtain ⟨htb, -⟩ := hp.settled hob (plainHint_none X) ht
    -- the value is asked for in the type of the target without its qualifiers
    have hplain := Setting.plain_unqualified htb.made.known
    have hp₂ := hp.mono htb.drew.grew
    have hob' := Proper.operand source hp₂ (plainHint_some hplain) ho'
    obtain ⟨hbuilt, htype⟩ := hp₂.settled hob' (plainHint_some hplain) he
    exact built_assign (hp₂.mono hbuilt.drew.grew) htb hplace hbuilt (htype _ rfl)
  | .returnValue n source, env, env', vs, s, _, st, hp, h => by
    obtain ⟨o, b₁, s₁, e, b₂, ho, he, rfl, rfl⟩ := statement_ok h
    have hplain := hp.plainHint_return
    have hob := Proper.operand source hp hplain ho
    obtain ⟨hbuilt, htype⟩ := hp.settled hob hplain he
    exact built_returnValue (hp.mono hbuilt.drew.grew) hbuilt ((htype _ rfl).trans hp.returnType)
  | .returnVoid n, env, env', vs, s, _, st, hp, h => by
    obtain ⟨hvoid, rfl, rfl, rfl⟩ := statement_ok h
    exact hp.returnNothing hvoid

/-- **Analysed statements are built well**, one after the other. -/
theorem Proper.statements : ∀ (sources : List Source.Stmt) {env env' : Env} {vs : List Variable}
    {s s' : Fresh} {ss : List TypedStmt}, env.Proper X vs s →
    env.statements sources s = .ok ((ss, env'), s') →
    TypedExpr.StmtsObey X.rule vs ss ∧ s.Drew s' (TypedExpr.stmtEventsAll ss) ∧
      env'.Proper X (TypedStmt.bindAll vs ss) s'
  | [], env, env', vs, s, _, ss, hp, h => by
    cases h
    exact ⟨trivial, .nil (.refl _), hp⟩
  | source :: sources, env, env', vs, s, _, ss, hp, h => by
    obtain ⟨st, env₁, s₁, rest, hst, hrest, rfl⟩ := statements_cons_ok h
    have hbuilt := Proper.statement source hp hst
    obtain ⟨hobey, hdrew, hproper⟩ := Proper.statements sources hbuilt.proper hrest
    exact ⟨⟨hbuilt.obeys, hobey⟩, hbuilt.drew.append hdrew, hproper⟩
end

end Env

end RangeTyping
