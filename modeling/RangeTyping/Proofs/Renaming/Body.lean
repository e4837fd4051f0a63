import Mathlib
import RangeTyping.Proofs.Renaming.Overload

/-!
# Bodies in two runs

Two runs over one body, in surroundings where names stand for the same, go through the same steps,
also if the second may spend more.  So if the first ends well the second does, and the trees are the
same up to the identities that were drawn (`Env.Parallel.operand`, `Env.Parallel.block`,
`Env.Parallel.statements`).
-/

namespace RangeTyping

/-! ### Declaring variables -/

namespace LookupContext

variable {L : Link} {c c' d : LookupContext} {v w : Variable}

theorem addVariable_eq (c : LookupContext) (v : Variable) : c.addVariable v =
    if (c.current.object? v.name).isSome then .error (.nameTaken v.name)
    else .ok { c with
      current := { c.current with objects := c.current.objects ++ [(v.name, .variable v)] } } := by
  unfold addVariable Scope.addVariable
  cases c.current.object? v.name <;> rfl

theorem current_object?_of_addVariable (h : c.addVariable v = .ok c') (name : String) :
    c'.current.object? name =
      (c.current.object? name).or (if name = v.name then some (.variable v) else none) := by
  rw [addVariable_eq] at h
  split at h
  · cases h
  cases h
  simp only [Scope.object?, List.lookup_append, List.lookup_cons, List.lookup_nil]
  by_cases hname : name = v.name
  · simp [hname]
  · simp [hname, beq_false_of_ne hname]

/-- A new variable is found under its name and hides what was there. -/
theorem object?_of_addVariable (h : c.addVariable v = .ok c') (name : String) :
    c'.object? name = if name = v.name then some (.variable v) else c.object? name := by
  have hcurrent := current_object?_of_addVariable h name
  rw [addVariable_eq] at h
  split at h
  · cases h
  rename_i hfree
  cases h
  simp only [object?, scopes, List.findSome?_cons] at hcurrent ⊢
  rw [hcurrent]
  by_cases hname : name = v.name
  · subst hname
    rw [Option.not_isSome_iff_eq_none.1 hfree]
    simp
  · simp [hname]

/-- **A variable is declared in both contexts or in neither.** -/
theorem Matches.addVariable (h : c.Matches L d) (hvw : L.Same Renaming.variableOf v w)
    (hname : w.name = v.name) :
    (∃ e e', c.addVariable v = .error e ∧ d.addVariable w = .error e') ∨
      ∃ c' d', c.addVariable v = .ok c' ∧ d.addVariable w = .ok d' ∧ c'.Matches L d' := by
  have htaken := h.taken v.name
  rw [addVariable_eq c, addVariable_eq d, hname, htaken]
  by_cases hsome : (c.current.object? v.name).isSome = true
  · rw [if_pos hsome, if_pos hsome]
    exact .inl ⟨_, _, rfl, rfl⟩
  · rw [if_neg hsome, if_neg hsome]
    refine .inr ⟨_, _, rfl, rfl, ⟨h.type, fun name => ?_, fun name => ?_, h.casts⟩⟩
    · have hc := object?_of_addVariable ((addVariable_eq c v).trans (if_neg hsome)) name
      have hd := object?_of_addVariable ((addVariable_eq d w).trans
        (if_neg (by rw [hname, htaken]; exact hsome))) name
      rw [hname] at hd
      rw [hc, hd]
      by_cases heq : name = v.name
      · rw [if_pos heq, if_pos heq]
        exact .some (.variable hvw)
      · rw [if_neg heq, if_neg heq]
        exact h.object name
    · have hc := current_object?_of_addVariable ((addVariable_eq c v).trans (if_neg hsome)) name
      have hd := current_object?_of_addVariable ((addVariable_eq d w).trans
        (if_neg (by rw [hname, htaken]; exact hsome))) name
      rw [hname] at hd
      rw [hc, hd, Option.isSome_or, Option.isSome_or, h.taken]
      by_cases heq : name = v.name <;> simp [heq]

/-- Types that are written mean the same if names of types do. -/
theorem resolveType_renumber {ρ : StructId → StructId}
    (h : ∀ name, d.type? name = (c.type? name).map (Ty.renumber ρ)) (written : Source.TypeExpr) :
    d.resolveType written = (c.resolveType written).map (Ty.renumber ρ) := by
  induction written with
  | simple n name =>
    rw [resolveType, resolveType, h]
    cases c.type? name <;> rfl
  | pointer n written ih =>
    rw [resolveType, resolveType, ih]
    cases c.resolveType written <;> rfl
  | array n written count ih =>
    rw [resolveType, resolveType, ih]
    cases c.resolveType written <;> rfl

end LookupContext

namespace Env

variable {X Y : Setting} {L L' : Link} {vs ws : List Variable} {s s' t t' : Fresh} {env env' : Env}
  {budget budget' : Budget} {location : Location} {e e' : TypedExpr} {hint : Option Ty}

/-! ### Leaves and nodes -/

theorem agrees_pointee (hfits : L.Fits s t) (hsame : L.Same Renaming.expr e e') :
    L.Agrees (fun L' => L'.Same Renaming.expr) (pointee location e s) (pointee location e' t) := by
  have htype := hsame.type_eq hfits
  unfold pointee
  cases hu : e.type with
  | pointer f u =>
    rw [hu] at htype
    rw [htype, Ty.renumber]
    dsimp only
    rw [Ty.fullRange_renumber]
    refine (Link.Agrees.liftInternal hfits).bind fun range _ s₁ t₁ L₁ _ _ hL₁ hfits₁ heq => ?_
    subst heq
    refine .pure hfits₁ fun r hr => ?_
    have hinfo := (hsame.mono hL₁).id.info (u := u.addFlags .ref)
      (by rw [Ty.renumber_addFlags, hL₁.struct]) range
    rw [Renaming.expr, ← hinfo r hr, ← hsame.mono hL₁ r hr]
  | scalar | function | array | struct =>
    rw [hu] at htype
    rw [htype]
    exact Link.Agrees.fail ..

theorem agrees_conditional {type : Ty} {c c' a a' b b' : TypedExpr} {p p' : PointId}
    (hfits : L.Fits s t) (hc : L.Same Renaming.expr c c') (ha : L.Same Renaming.expr a a')
    (hb : L.Same Renaming.expr b b') (hp : L.Same Renaming.point p p') :
    L.Agrees (fun L' => L'.Same Renaming.expr) (conditional type c a b p s)
      (conditional (type.renumber L.struct) c' a' b' p' t) := by
  unfold conditional
  rw [ha.range_eq hfits, hb.range_eq hfits, Ty.isVoid_renumber]
  refine (Link.Agrees.liftInternal hfits).bind fun range _ s₁ t₁ L₁ _ _ hL₁ hfits₁ heq => ?_
  subst heq
  refine Link.Agrees.drawUnless hfits₁ Iff.rfl L₁.same_unread
    fun v w s₂ t₂ L₂ hL₂ hfits₂ _ _ hvw => ?_
  refine (Link.Agrees.freshPoint hfits₂).bind fun q q' s₃ t₃ L₃ _ _ hL₃ hfits₃ hq => ?_
  have hL := (hL₁.trans hL₂).trans hL₃
  refine .pure hfits₃ fun r hr => ?_
  have hinfo := (hvw.mono hL₃).info (u := type) (by rw [hL.struct]) range
  rw [Renaming.expr, ← hinfo r hr, ← hc.mono hL r hr, ← ha.mono hL r hr, ← hb.mono hL r hr,
    ← hp.mono hL r hr, ← hq r hr]

theorem agrees_checkAssignable (hfits : L.Fits s t) (hsame : L.Same Renaming.expr e e') :
    L.Agrees (fun _ _ _ => True) (checkAssignable e location s)
      (checkAssignable e' location t) := by
  unfold checkAssignable
  rw [hsame.type_eq hfits, Ty.isReference_renumber, Ty.isMutable_renumber]
  split
  · exact .pure hfits trivial
  · exact .fail ..

/-- Statements that are the same, and surroundings in which names stand for the same after them. -/
def SameStatement (L : Link) (x y : TypedStmt × Env) : Prop :=
  L.Same Renaming.stmt x.1 y.1 ∧ x.2.Matches L y.2

@[inherit_doc SameStatement]
def SameStatements (L : Link) (x y : List TypedStmt × Env) : Prop :=
  L.Same Renaming.stmts x.1 y.1 ∧ x.2.Matches L y.2

namespace Parallel

theorem expressionBudget (h : env.Parallel X Y L vs ws s t env') :
    env.expressionBudget.RaisedTo env'.expressionBudget := h.same.options.expression

theorem initializerBudget (h : env.Parallel X Y L vs ws s t env') :
    env.initializerBudget.RaisedTo env'.initializerBudget := h.same.options.initializer

theorem returns (h : env.Parallel X Y L vs ws s t env') :
    env'.returnType = env.returnType.renumber L.struct := by
  rw [h.left.returnType, h.right.returnType, h.returnType]

theorem overloads (h : env.Parallel X Y L vs ws s t env') (name : String) :
    L.Agrees (fun L' os os' => os'.Perm (os.map (.renumber L'.struct)))
      (env.overloads name location s) (env'.overloads name location t) := by
  have hobject := h.same.context.object name
  unfold Env.overloads
  generalize env.context.object? name = a, env'.context.object? name = b at hobject
  cases hobject with
  | none => exact .fail ..
  | some hmatch =>
    cases hmatch with
    | «variable» => exact .fail ..
    | function hperm => exact .pure h.fits hperm

theorem identifier (h : env.Parallel X Y L vs ws s t env') (name : Source.Name) :
    L.Agrees (fun L' => L'.Same Renaming.expr) (env.identifier name s)
      (env'.identifier name t) := by
  have hobject := h.same.context.object name.text
  unfold Env.identifier
  generalize env.context.object? name.text = a, env'.context.object? name.text = b at hobject
  cases hobject with
  | none => exact .fail ..
  | some hmatch =>
    cases hmatch with
    | «variable» hvw =>
      refine .pure h.fits fun r hr => ?_
      rw [hvw r hr, Renaming.expr]
      rfl
    | function => exact .fail ..

theorem boolean (h : env.Parallel X Y L vs ws s t env') (value : Bool) :
    L.Agrees (fun L' => L'.Same Renaming.expr) (env.boolean value s) (env'.boolean value t) := by
  unfold Env.boolean
  rw [h.types]
  refine (Link.Agrees.freshValue h.fits).bind fun i j s₁ t₁ L₁ _ _ hL₁ hfits₁ hij => ?_
  refine .pure hfits₁ fun r hr => ?_
  have hinfo := hij.info (Ty.renumber_boolTy env.types).symm (some (.ofBool value))
  rw [Renaming.expr, ← hinfo r hr]

theorem resolveType (h : env.Parallel X Y L vs ws s t env') (written : Source.TypeExpr) :
    L.Agrees (fun _ u u' => u' = u.renumber L.struct) (env.resolveType written s)
      (env'.resolveType written t) := by
  unfold Env.resolveType
  rw [LookupContext.resolveType_renumber h.same.context.type]
  cases env.context.resolveType written with
  | ok u => exact .ok ⟨L, .refl L, h.fits, rfl⟩
  | error d => exact Outcome.Agrees.fail trivial

theorem declaredType (h : env.Parallel X Y L vs ws s t env') (name : Source.Name)
    (written : Source.TypeExpr) :
    L.Agrees (fun _ u u' => u' = u.renumber L.struct) (env.declaredType name location written s)
      (env'.declaredType name location written t) := by
  refine (h.resolveType written).bind fun u u' s₁ t₁ L₁ _ _ hL₁ hfits₁ hu => ?_
  subst hu
  dsimp only
  rw [Ty.isVoid_renumber]
  split
  · exact Outcome.Agrees.fail trivial
  · exact .pure hfits₁ rfl

theorem returnNothing (h : env.Parallel X Y L vs ws s t env') :
    L.Agrees (fun L' => L'.Same Renaming.stmt) (env.returnNothing location s)
      (env'.returnNothing location t) := by
  unfold Env.returnNothing
  rw [h.returns, Ty.isVoid_renumber]
  split
  · exact .pure h.fits fun _ _ => rfl
  · exact .fail ..

/-- **A variable is declared in both runs or in neither.** -/
theorem declare (h : env.Parallel X Y L vs ws s t env') {name : String} {type : Ty}
    {isMutable : Bool} {range : Option ValueRange} :
    L.Agrees (fun L' x y => L'.Same Renaming.variableOf x.1 y.1 ∧ x.2.Matches L' y.2)
      (env.declare name type isMutable range location s)
      (env'.declare name (type.renumber L.struct) isMutable range location t) := by
  unfold Env.declare
  dsimp only
  rw [Ty.isVoid_renumber, Ty.isFunction_renumber]
  split
  · exact Outcome.Agrees.fail trivial
  · refine (Link.Agrees.freshValue h.fits).bind fun i j s₁ t₁ L₁ _ _ hL₁ hfits₁ hij => ?_
    generalize (if isMutable = true then Flags.refMut else Flags.ref) = flags
    -- the identities that were just drawn belong together
    have hvw : L₁.Same Renaming.variableOf
        ⟨name, type.unqualified.addFlags flags, i, range, location⟩
        ⟨name, (type.renumber L.struct).unqualified.addFlags flags, j, range, location⟩ := by
      intro r hr
      rw [Renaming.variableOf, ← hij r hr, Renaming.type, hr.struct, hL₁.struct,
        Ty.renumber_addFlags, Ty.renumber_unqualified]
    rcases (h.same.context.mono hL₁).addVariable hvw rfl with
      ⟨d, d', hc, hd⟩ | ⟨c, d, hc, hd, hmatch⟩
    · rw [hc, hd]
      exact .fail ..
    · rw [hc, hd]
      exact .pure hfits₁ ⟨hvw, h.same.options, hmatch⟩

/-- **A variable definition in both runs.** -/
theorem defineVariable (h : env.Parallel X Y L vs ws s t env') {name : Source.Name}
    {isMutable : Bool} (hsame : L.Same Renaming.expr e e') :
    L.Agrees SameStatement (env.defineVariable name isMutable location e s)
      (env'.defineVariable name isMutable location e' t) := by
  -- once the range is known, both runs declare the variable
  have hrest : ∀ (range : Option ValueRange) (L₁ : Link), L.Grows L₁ → L₁.Fits s t →
      L₁.Agrees SameStatement
        ((env.declare name.text e.type isMutable range location >>= fun x =>
          (pure (.define x.1 e, x.2) : Analysis (TypedStmt × Env))) s)
        ((env'.declare name.text e'.type isMutable range location >>= fun x =>
          (pure (.define x.1 e', x.2) : Analysis (TypedStmt × Env))) t) := by
    intro range L₁ hL₁ hfits₁
    rw [(hsame.mono hL₁).type_eq hfits₁]
    refine (h.advance hL₁ hfits₁ (.refl s) (.refl t)).declare.bind
      fun x y s₂ t₂ L₂ _ _ hL₂ hfits₂ hxy => ?_
    refine .pure hfits₂ ⟨fun r hr => ?_, hxy.2⟩
    rw [Renaming.stmt, ← hxy.1 r hr, ← hsame.mono (hL₁.trans hL₂) r hr]
  unfold Env.defineVariable
  cases isMutable with
  | true =>
    have hrange : e'.type.fullRange = e.type.fullRange := by
      rw [hsame.type_eq h.fits, Ty.fullRange_renumber]
    rw [if_pos rfl, if_pos rfl, hrange]
    refine (Link.Agrees.liftInternal h.fits).bind fun range _ s₁ t₁ L₁ hx hy hL₁ hfits₁ heq => ?_
    subst heq
    obtain ⟨-, rfl⟩ := Analysis.liftInternal_ok hx
    obtain ⟨-, rfl⟩ := Analysis.liftInternal_ok hy
    exact hrest range L₁ hL₁ hfits₁
  | false =>
    rw [← hsame.range_eq h.fits]
    exact hrest e'.range L (.refl L) h.fits

/-! ### After a step -/

theorem after_overloads {name : String} {os os' : List Overload}
    (h : env.Parallel X Y L vs ws s t env') (hx : env.overloads name location s = .ok (os, s'))
    (hy : env'.overloads name location t = .ok (os', t')) (hL : L.Grows L') (hfits : L'.Fits s' t') :
    env.Parallel X Y L' vs ws s' t' env' ∧ (∀ o ∈ os, X.Offers o) ∧ ∀ o ∈ os', Y.Offers o := by
  obtain ⟨hoffers, rfl⟩ := h.left.overloadsOf hx
  obtain ⟨hoffers', rfl⟩ := h.right.overloadsOf hy
  exact ⟨h.advance hL hfits (.refl _) (.refl _), hoffers, hoffers'⟩

theorem after_operand (source : Source.Expr) {b b' : Budget} {o o' : Operand}
    (h : env.Parallel X Y L vs ws s t env') (hh : PlainHint X hint)
    (hx : env.operand budget hint source s = .ok ((o, b), s'))
    (hy : env'.operand budget' (hint.map (Ty.renumber L.struct)) source t = .ok ((o', b'), t'))
    (hL : L.Grows L') (hfits : L'.Fits s' t') :
    env.Parallel X Y L' vs ws s' t' env' ∧ o.Made X vs ∧ o'.Made Y ws := by
  have hleft := Proper.operand source h.left hh hx
  have hright := Proper.operand source h.right (h.plainHint hh) hy
  exact ⟨h.advance hL hfits hleft.drew.grew hright.drew.grew, hleft.made, hright.made⟩

theorem after_settle {b b' : Budget} {o o' : Operand} (h : env.Parallel X Y L vs ws s t env')
    (hh : PlainHint X hint) (ho : o.Made X vs) (ho' : o'.Made Y ws)
    (hx : env.settle budget hint location o s = .ok ((e, b), s'))
    (hy : env'.settle budget' (hint.map (Ty.renumber L.struct)) location o' t = .ok ((e', b'), t'))
    (hL : L.Grows L') (hfits : L'.Fits s' t') :
    env.Parallel X Y L' vs ws s' t' env' ∧ X.Made vs e := by
  have hleft := (h.left.settle ho hh hx).1
  have hright := (h.right.settle ho' (h.plainHint hh) hy).1
  exact ⟨h.advance hL hfits hleft.grew hright.grew, hleft.made⟩

theorem after_block (source : Source.Block) {b b' : Budget}
    (h : env.Parallel X Y L vs ws s t env') (hh : PlainHint X hint)
    (hx : env.block budget hint source s = .ok ((e, b), s'))
    (hy : env'.block budget' (hint.map (Ty.renumber L.struct)) source t = .ok ((e', b'), t'))
    (hL : L.Grows L') (hfits : L'.Fits s' t') :
    env.Parallel X Y L' vs ws s' t' env' ∧ X.Made vs e := by
  have hleft := (Proper.block source h.left hh hx).1
  have hright := (Proper.block source h.right (h.plainHint hh) hy).1
  exact ⟨h.advance hL hfits hleft.drew.grew hright.drew.grew, hleft.made⟩

theorem after_statements (sources : List Source.Stmt) {x y : List TypedStmt × Env}
    (h : env.Parallel X Y L vs ws s t env') (hx : env.statements sources s = .ok (x, s'))
    (hy : env'.statements sources t = .ok (y, t')) (hL : L.Grows L') (hfits : L'.Fits s' t')
    (hsame : x.2.Matches L' y.2) :
    ∃ vs' ws', x.2.Parallel X Y L' vs' ws' s' t' y.2 := by
  obtain ⟨-, -, hleft⟩ := Proper.statements sources h.left hx
  obtain ⟨-, -, hright⟩ := Proper.statements sources h.right hy
  exact ⟨_, _, h.resume hL hfits hleft hright hsame⟩

end Parallel

/-! ### The recursion -/

mutual
/-- **An expression goes the same way in both runs.** -/
theorem Parallel.operand : ∀ (source : Source.Expr) {env env' : Env} {budget budget' : Budget}
    {hint : Option Ty} {L : Link} {vs ws : List Variable} {s t : Fresh},
    env.Parallel X Y L vs ws s t env' → PlainHint X hint → budget.RaisedTo budget' →
    L.Simulates (Link.Affords Operand.Matches) (env.operand budget hint source s)
      (env'.operand budget' (hint.map (Ty.renumber L.struct)) source t)
  | .number n text, env, env', budget, budget', hint, L, vs, ws, s, t, h, hh, hb => by
    rw [Env.operand, Env.operand]
    cases Source.number? text with
    | none => exact .fail
    | some value => exact .pure h.fits ⟨.number value, hb⟩
  | .boolean _ value, env, env', budget, budget', hint, L, vs, ws, s, t, h, hh, hb =>
    (h.boolean value).simulates.bind fun _ _ _ _ _ _ _ _ hfits hsame =>
      .pure hfits ⟨.typed hsame, hb⟩
  | .null _, env, env', budget, budget', hint, L, vs, ws, s, t, h, hh, hb =>
    .pure h.fits ⟨.null, hb⟩
  | .identifier name, env, env', budget, budget', hint, L, vs, ws, s, t, h, hh, hb =>
    (h.identifier name).simulates.bind fun _ _ _ _ _ _ _ _ hfits hsame =>
      .pure hfits ⟨.typed hsame, hb⟩
  | .binary n token left right, env, env', budget, budget', hint, L, vs, ws, s, t, h, hh, hb => by
    refine (h.overloads token.symbol).simulates.bind
      fun os os' s₀ t₀ L₀ hx hy hL₀ hfits₀ hperm => ?_
    obtain ⟨h₀, hoffers, hoffers'⟩ := h.after_overloads hx hy hL₀ hfits₀
    -- the operands, each of which leaves both runs side by side for what follows it
    refine (Parallel.operand left h₀ (plainHint_none X) hb).afford
      fun l l' b₁ b₁' s₁ t₁ L₁ hx hy hL₁ hfits₁ hb₁ hl => ?_
    obtain ⟨h₁, hmade₁, hmade₁'⟩ := h₀.after_operand left (plainHint_none X) hx hy hL₁ hfits₁
    refine (Parallel.operand right h₁ (plainHint_none X) hb₁).afford
      fun r r' b₂ b₂' s₂ t₂ L₂ hx hy hL₂ hfits₂ hb₂ hr => ?_
    obtain ⟨h₂, hmade₂, hmade₂'⟩ := h₁.after_operand right (plainHint_none X) hx hy hL₂ hfits₂
    -- the choice: what was looked up at first is carried along to the link that holds by now
    rw [← (hL₁.trans hL₂).struct] at hperm
    rw [← (hL₀.trans (hL₁.trans hL₂)).struct]
    refine (h₂.select hoffers hoffers' hperm (.cons (hl.mono hL₂) (.cons hr .nil))
      (by simp [hmade₁, hmade₂]) (by simp [hmade₁', hmade₂']) hh hb₂).afford
      fun e e' b₃ b₃' s₃ t₃ L₃ _ _ _ hfits₃ hb₃ hsame => ?_
    exact .pure hfits₃ ⟨.typed hsame, hb₃⟩
  | .logicalNot n source, env, env', budget, budget', hint, L, vs, ws, s, t, h, hh, hb => by
    refine (h.overloads Source.notSymbol).simulates.bind
      fun os os' s₀ t₀ L₀ hx hy hL₀ hfits₀ hperm => ?_
    obtain ⟨h₀, hoffers, hoffers'⟩ := h.after_overloads hx hy hL₀ hfits₀
    refine (Parallel.operand source h₀ (plainHint_none X) hb).afford
      fun a a' b₁ b₁' s₁ t₁ L₁ hx hy hL₁ hfits₁ hb₁ ha => ?_
    obtain ⟨h₁, hmade, hmade'⟩ := h₀.after_operand source (plainHint_none X) hx hy hL₁ hfits₁
    rw [← hL₁.struct] at hperm
    rw [← (hL₀.trans hL₁).struct]
    refine (h₁.select hoffers hoffers' hperm (.cons ha .nil) (by simp [hmade])
      (by simp [hmade']) hh hb₁).afford fun e e' b₂ b₂' s₂ t₂ L₂ _ _ _ hfits₂ hb₂ hsame => ?_
    exact .pure hfits₂ ⟨.typed hsame, hb₂⟩
  | .call n function arguments, env, env', budget, budget', hint, L, vs, ws, s, t, h, hh, hb => by
    refine (h.overloads function.text).simulates.bind
      fun os os' s₀ t₀ L₀ hx hy hL₀ hfits₀ hperm => ?_
    obtain ⟨h₀, hoffers, hoffers'⟩ := h.after_overloads hx hy hL₀ hfits₀
    -- the arguments
    refine (Parallel.operands arguments h₀ hb).afford
      fun as as' b₁ b₁' s₁ t₁ L₁ hx hy hL₁ hfits₁ hb₁ has => ?_
    obtain ⟨hmade, hdrew⟩ := Proper.operands arguments h₀.left hx
    obtain ⟨hmade', hdrew'⟩ := Proper.operands arguments h₀.right hy
    have h₁ := h₀.advance hL₁ hfits₁ hdrew.grew hdrew'.grew
    -- the choice
    rw [← hL₁.struct] at hperm
    rw [← (hL₀.trans hL₁).struct]
    refine (h₁.select hoffers hoffers' hperm has hmade hmade' hh hb₁).afford
      fun e e' b₂ b₂' s₂ t₂ L₂ _ _ _ hfits₂ hb₂ hsame => ?_
    exact .pure hfits₂ ⟨.typed hsame, hb₂⟩
  | .cast n type source, env, env', budget, budget', hint, L, vs, ws, s, t, h, hh, hb => by
    -- the type that is written is one with its structs renumbered
    refine (h.resolveType type).simulates.bind fun u u' s₀ t₀ L₀ hx hy hL₀ hfits₀ hu => ?_
    subst hu
    obtain ⟨hplain, rfl⟩ := h.left.resolveType hx
    obtain ⟨-, rfl⟩ := h.right.resolveType hy
    have h₀ := h.advance hL₀ hfits₀ (.refl _) (.refl _)
    refine (Parallel.operand source h₀ (plainHint_none X) hb).afford
      fun a a' b₁ b₁' s₁ t₁ L₁ hx hy hL₁ hfits₁ hb₁ ha => ?_
    obtain ⟨h₁, hmade, -⟩ := h₀.after_operand source (plainHint_none X) hx hy hL₁ hfits₁
    rw [← (hL₀.trans hL₁).struct]
    refine (h₁.coerce_raise ha hmade hplain hb₁).afford
      fun e e' b₂ b₂' s₂ t₂ L₂ _ _ _ hfits₂ hb₂ hsame => ?_
    exact .pure hfits₂ ⟨.typed hsame, hb₂⟩
  | .block body, env, env', budget, budget', hint, L, vs, ws, s, t, h, hh, hb =>
    (Parallel.block body h hh hb).afford fun _ _ _ _ _ _ _ _ _ _ hfits hb hsame =>
      .pure hfits ⟨.typed hsame, hb⟩
  | .ifThen n test thenArm, env, env', budget, budget', hint, L, vs, ws, s, t, h, hh, hb => by
    have hbool := h.left.plainHint_bool
    rw [Env.operand, Env.operand, h.types]
    -- the test, which has a budget of its own
    refine (Parallel.operand test h hbool h.expressionBudget).afford
      fun o o' b₀ b₀' s₀ t₀ L₀ hx hy hL₀ hfits₀ hb₀ ho => ?_
    obtain ⟨h₀, hmade, hmade'⟩ := h.after_operand test hbool hx hy hL₀ hfits₀
    refine (h₀.settle_raise ho hmade hbool hb₀).afford
      fun c c' _ _ s₁ t₁ L₁ hx hy hL₁ hfits₁ _ hc => ?_
    obtain ⟨h₁, -⟩ := h₀.after_settle hbool hmade hmade' hx hy hL₁ hfits₁
    -- the point behind it
    refine (Link.Agrees.freshPoint hfits₁).simulates.bind
      fun p p' s₂ t₂ L₂ hx hy hL₂ hfits₂ hp => ?_
    have h₂ := h₁.advance hL₂ hfits₂ (.freshPoint hx) (.freshPoint hy)
    refine (Parallel.block thenArm h₂ (plainHint_none X) hb).afford
      fun a a' b₃ b₃' s₃ t₃ L₃ _ _ hL₃ hfits₃ hb₃ ha => ?_
    -- the node: every part that was made before is still matched under the last link
    refine .pure hfits₃ ⟨.typed fun r hr => ?_, hb₃⟩
    have hinfo := L₃.same_unread.info (Ty.renumber_voidTy env.types).symm none
    rw [Renaming.expr, ← hinfo r hr, ← hc.mono (hL₂.trans hL₃) r hr, ← ha.discard r hr,
      ← hp.mono hL₃ r hr]
  | .ifElse n test thenArm elseArm, env, env', budget, budget', hint, L, vs, ws, s, t, h, hh, hb => by
    have hbool := h.left.plainHint_bool
    rw [Env.operand, Env.operand, h.types]
    -- the test, which has a budget of its own
    refine (Parallel.operand test h hbool h.expressionBudget).afford
      fun o o' b₀ b₀' s₀ t₀ L₀ hx hy hL₀ hfits₀ hb₀ ho => ?_
    obtain ⟨h₀, hmade, hmade'⟩ := h.after_operand test hbool hx hy hL₀ hfits₀
    refine (h₀.settle_raise ho hmade hbool hb₀).afford
      fun c c' _ _ s₁ t₁ L₁ hx hy hL₁ hfits₁ _ hc => ?_
    obtain ⟨h₁, -⟩ := h₀.after_settle hbool hmade hmade' hx hy hL₁ hfits₁
    -- the point behind it
    refine (Link.Agrees.freshPoint hfits₁).simulates.bind
      fun p p' s₂ t₂ L₂ hx hy hL₂ hfits₂ hp => ?_
    have h₂ := h₁.advance hL₂ hfits₂ (.freshPoint hx) (.freshPoint hy)
    -- the first arm
    rw [← (hL₀.trans (hL₁.trans hL₂)).struct]
    refine (Parallel.block thenArm h₂ hh hb).afford
      fun a₀ a₀' b₃ b₃' s₃ t₃ L₃ hx hy hL₃ hfits₃ hb₃ ha₀ => ?_
    obtain ⟨h₃, hmade₃⟩ := h₂.after_block thenArm hh hx hy hL₃ hfits₃
    -- the type of both arms: the hint, or what the first arm holds
    have hplain := hh.plain_getD hmade₃.known
    have htype : (hint.map (Ty.renumber L₂.struct)).getD a₀'.type.unqualified =
        (hint.getD a₀.type.unqualified).renumber L₃.struct := by
      rw [hL₃.struct]
      cases hint with
      | some u => rfl
      | none => rw [Option.map_none, Option.getD_none, Option.getD_none, Ty.renumber_unqualified,
          ha₀.type_eq hfits₃, hL₃.struct]
    dsimp only
    rw [htype]
    generalize hint.getD a₀.type.unqualified = type at hplain
    refine (h₃.convert_raise ha₀ hmade₃.known hplain hb₃).afford
      fun a a' b₄ b₄' s₄ t₄ L₄ hx hy hL₄ hfits₄ hb₄ ha => ?_
    have h₄ := h₃.advance hL₄ hfits₄ (grew_convert hx) (grew_convert hy)
    -- the second arm, for which that type is the hint
    rw [← hL₄.struct]
    refine (Parallel.block elseArm h₄ (plainHint_some hplain) hb₄).afford
      fun d₀ d₀' b₅ b₅' s₅ t₅ L₅ hx hy hL₅ hfits₅ hb₅ hd₀ => ?_
    obtain ⟨h₅, hmade₅⟩ := h₄.after_block elseArm (plainHint_some hplain) hx hy hL₅ hfits₅
    rw [← hL₅.struct]
    refine (h₅.convert_raise hd₀ hmade₅.known hplain hb₅).afford
      fun d d' b₆ b₆' s₆ t₆ L₆ _ _ hL₆ hfits₆ hb₆ hd => ?_
    -- the node
    rw [← hL₆.struct]
    have hafter := hL₅.trans hL₆
    have hbefore := hL₃.trans (hL₄.trans hafter)
    refine (agrees_conditional hfits₆ (hc.mono (hL₂.trans hbefore)) (ha.mono hafter) hd
      (hp.mono hbefore)).simulates.bind fun e e' s₇ t₇ L₇ _ _ _ hfits₇ hsame => ?_
    exact .pure hfits₇ ⟨.typed hsame, hb₆⟩
  | .dereference n source, env, env', budget, budget', hint, L, vs, ws, s, t, h, hh, hb => by
    refine (Parallel.operand source h (plainHint_none X) hb).afford
      fun a a' b₁ b₁' s₁ t₁ L₁ hx hy hL₁ hfits₁ hb₁ ha => ?_
    obtain ⟨h₁, hmade, hmade'⟩ := h.after_operand source (plainHint_none X) hx hy hL₁ hfits₁
    refine (h₁.plain_raise ha hmade hmade' hb₁).afford
      fun p p' b₂ b₂' s₂ t₂ L₂ _ _ _ hfits₂ hb₂ hp => ?_
    refine (agrees_pointee hfits₂ hp).simulates.bind fun e e' s₃ t₃ L₃ _ _ _ hfits₃ hsame => ?_
    exact .pure hfits₃ ⟨.typed hsame, hb₂⟩

/-- Several expressions go the same way in both runs. -/
theorem Parallel.operands : ∀ (sources : List Source.Expr) {env env' : Env} {budget budget' : Budget}
    {L : Link} {vs ws : List Variable} {s t : Fresh}, env.Parallel X Y L vs ws s t env' →
    budget.RaisedTo budget' →
    L.Simulates (Link.Affords fun L' => List.Forall₂ (Operand.Matches L'))
      (env.operands budget sources s) (env'.operands budget' sources t)
  | [], env, env', budget, budget', L, vs, ws, s, t, h, hb => .pure h.fits ⟨.nil, hb⟩
  | source :: sources, env, env', budget, budget', L, vs, ws, s, t, h, hb => by
    refine (Parallel.operand source h (plainHint_none X) hb).afford
      fun o o' b₁ b₁' s₁ t₁ L₁ hx hy hL₁ hfits₁ hb₁ ho => ?_
    obtain ⟨h₁, -⟩ := h.after_operand source (plainHint_none X) hx hy hL₁ hfits₁
    refine (Parallel.operands sources h₁ hb₁).afford
      fun os os' b₂ b₂' s₂ t₂ L₂ _ _ hL₂ hfits₂ hb₂ hos => ?_
    exact .pure hfits₂ ⟨.cons (ho.mono hL₂) hos, hb₂⟩

/-- **A block goes the same way in both runs.** -/
theorem Parallel.block : ∀ (source : Source.Block) {env env' : Env} {budget budget' : Budget}
    {hint : Option Ty} {L : Link} {vs ws : List Variable} {s t : Fresh},
    env.Parallel X Y L vs ws s t env' → PlainHint X hint → budget.RaisedTo budget' →
    L.Simulates Link.SameAfforded (env.block budget hint source s)
      (env'.block budget' (hint.map (Ty.renumber L.struct)) source t)
  | .unit n sources, env, env', budget, budget', hint, L, vs, ws, s, t, h, hh, hb => by
    refine (Parallel.statements sources h.enter).bind fun x y s₁ t₁ L₁ hx hy hL₁ hfits₁ hxy => ?_
    obtain ⟨_, _, h₁⟩ := h.enter.after_statements sources hx hy hL₁ hfits₁ hxy.2
    refine .pure hfits₁ ⟨fun r hr => ?_, hb⟩
    have hinfo := L₁.same_unread.info (Ty.renumber_voidTy x.2.types).symm none
    show y.2.unitBlock y.1 = r.expr (x.2.unitBlock x.1)
    rw [unitBlock, unitBlock, h₁.types, Renaming.expr, ← hinfo r hr, ← hxy.1 r hr]
  | .value n sources result, env, env', budget, budget', hint, L, vs, ws, s, t, h, hh, hb => by
    refine (Parallel.statements sources h.enter).bind fun x y s₁ t₁ L₁ hx hy hL₁ hfits₁ hxy => ?_
    obtain ⟨_, _, h₁⟩ := h.enter.after_statements sources hx hy hL₁ hfits₁ hxy.2
    rw [← hL₁.struct]
    refine (Parallel.operand result h₁ hh hb).afford
      fun o o' b₂ b₂' s₂ t₂ L₂ hx hy hL₂ hfits₂ hb₂ ho => ?_
    obtain ⟨h₂, hmade, -⟩ := h₁.after_operand result hh hx hy hL₂ hfits₂
    rw [← hL₂.struct]
    refine (h₂.settle_raise ho hmade hh hb₂).afford
      fun e e' b₃ b₃' s₃ t₃ L₃ _ _ hL₃ hfits₃ hb₃ hsame => ?_
    refine .pure hfits₃ ⟨fun r hr => ?_, hb₃⟩
    show valueBlock y.1 e' = r.expr (valueBlock x.1 e)
    rw [valueBlock, valueBlock, Renaming.expr, hsame r hr, Renaming.info_expr,
      hxy.1.mono (hL₂.trans hL₃) r hr]

/-- **A statement goes the same way in both runs.** -/
theorem Parallel.statement : ∀ (source : Source.Stmt) {env env' : Env} {L : Link}
    {vs ws : List Variable} {s t : Fresh}, env.Parallel X Y L vs ws s t env' →
    L.Simulates SameStatement (env.statement source s) (env'.statement source t)
  | .expression source, env, env', L, vs, ws, s, t, h => by
    rw [Env.statement, Env.statement]
    refine (Parallel.operand source h (plainHint_none X) h.expressionBudget).afford
      fun o o' b₁ b₁' s₁ t₁ L₁ hx hy hL₁ hfits₁ hb₁ ho => ?_
    obtain ⟨h₁, hmade, -⟩ := h.after_operand source (plainHint_none X) hx hy hL₁ hfits₁
    refine (h₁.settle_raise ho hmade (plainHint_none X) hb₁).afford
      fun e e' _ _ s₂ t₂ L₂ _ _ hL₂ hfits₂ _ hsame => ?_
    refine .pure hfits₂ ⟨fun r hr => ?_, h₁.same.mono hL₂⟩
    rw [Renaming.stmt, ← hsame.discard r hr]
  | .define n name isMutable (some type) source, env, env', L, vs, ws, s, t, h => by
    rw [Env.statement, Env.statement]
    refine (h.declaredType name type).simulates.bind fun u u' s₀ t₀ L₀ hx hy hL₀ hfits₀ hu => ?_
    subst hu
    obtain ⟨hplain, rfl⟩ := h.left.declaredType hx
    obtain ⟨-, rfl⟩ := h.right.declaredType hy
    have h₀ := h.advance hL₀ hfits₀ (.refl _) (.refl _)
    have hh := plainHint_some hplain
    rw [← hL₀.struct]
    refine (Parallel.operand source h₀ hh h.initializerBudget).afford
      fun o o' b₁ b₁' s₁ t₁ L₁ hx hy hL₁ hfits₁ hb₁ ho => ?_
    obtain ⟨h₁, hmade, hmade'⟩ := h₀.after_operand source hh hx hy hL₁ hfits₁
    rw [← hL₁.struct]
    refine (h₁.settle_raise ho hmade hh hb₁).afford
      fun e e' _ _ s₂ t₂ L₂ hx hy hL₂ hfits₂ _ hsame => ?_
    have h₂ := (h₁.after_settle hh hmade hmade' hx hy hL₂ hfits₂).1
    exact (h₂.defineVariable hsame).simulates
  | .define n name isMutable none source, env, env', L, vs, ws, s, t, h => by
    rw [Env.statement, Env.statement]
    refine (Parallel.operand source h (plainHint_none X) h.initializerBudget).afford
      fun o o' b₁ b₁' s₁ t₁ L₁ hx hy hL₁ hfits₁ hb₁ ho => ?_
    obtain ⟨h₁, hmade, hmade'⟩ := h.after_operand source (plainHint_none X) hx hy hL₁ hfits₁
    refine (h₁.plain_raise ho hmade hmade' hb₁).afford
      fun e e' _ _ s₂ t₂ L₂ hx hy hL₂ hfits₂ _ hsame => ?_
    have hleft := (h₁.left.plain hmade hx).1
    have hright := (h₁.right.plain hmade' hy).1
    have h₂ := h₁.advance hL₂ hfits₂ hleft.grew hright.grew
    exact (h₂.defineVariable hsame).simulates
  | .assign n target source, env, env', L, vs, ws, s, t, h => by
    rw [Env.statement, Env.statement]
    refine (Parallel.operand target h (plainHint_none X) h.expressionBudget).afford
      fun o o' b₁ b₁' s₁ t₁ L₁ hx hy hL₁ hfits₁ hb₁ ho => ?_
    obtain ⟨h₁, hmade, hmade'⟩ := h.after_operand target (plainHint_none X) hx hy hL₁ hfits₁
    refine (h₁.settle_raise ho hmade (plainHint_none X) hb₁).afford
      fun c c' b₂ b₂' s₂ t₂ L₂ hx hy hL₂ hfits₂ hb₂ hc => ?_
    obtain ⟨h₂, hcmade⟩ := h₁.after_settle (plainHint_none X) hmade hmade' hx hy hL₂ hfits₂
    -- the target can be changed in both runs or in none
    refine (agrees_checkAssignable hfits₂ hc).simulates.bind
      fun _ _ s₃ t₃ L₃ hx hy hL₃ hfits₃ _ => ?_
    obtain ⟨-, rfl⟩ := checkAssignable_ok hx
    obtain ⟨-, rfl⟩ := checkAssignable_ok hy
    have h₃ := h₂.advance hL₃ hfits₃ (.refl _) (.refl _)
    -- the value is asked for in the type of the target
    have hh := plainHint_some (Setting.plain_unqualified hcmade.known)
    have htype : c'.type.unqualified = c.type.unqualified.renumber L₃.struct := by
      rw [Ty.renumber_unqualified, (hc.mono hL₃).type_eq hfits₃]
    dsimp only
    rw [htype]
    refine (Parallel.operand source h₃ hh hb₂).afford
      fun o o' b₄ b₄' s₄ t₄ L₄ hx hy hL₄ hfits₄ hb₄ ho => ?_
    obtain ⟨h₄, hmade, -⟩ := h₃.after_operand source hh hx hy hL₄ hfits₄
    rw [← hL₄.struct]
    refine (h₄.settle_raise ho hmade hh hb₄).afford
      fun e e' _ _ s₅ t₅ L₅ _ _ hL₅ hfits₅ _ hsame => ?_
    refine .pure hfits₅ ⟨fun r hr => ?_, h₄.same.mono hL₅⟩
    rw [Renaming.stmt, ← hc.mono (hL₃.trans (hL₄.trans hL₅)) r hr, ← hsame r hr]
  | .returnValue n source, env, env', L, vs, ws, s, t, h => by
    have hh := h.left.plainHint_return
    rw [Env.statement, Env.statement, h.returns]
    refine (Parallel.operand source h hh h.expressionBudget).afford
      fun o o' b₁ b₁' s₁ t₁ L₁ hx hy hL₁ hfits₁ hb₁ ho => ?_
    obtain ⟨h₁, hmade, -⟩ := h.after_operand source hh hx hy hL₁ hfits₁
    rw [← hL₁.struct]
    refine (h₁.settle_raise ho hmade hh hb₁).afford
      fun e e' _ _ s₂ t₂ L₂ _ _ hL₂ hfits₂ _ hsame => ?_
    refine .pure hfits₂ ⟨fun r hr => ?_, h₁.same.mono hL₂⟩
    rw [Renaming.stmt, ← hsame r hr]
  | .returnVoid n, env, env', L, vs, ws, s, t, h =>
    h.returnNothing.simulates.bind fun _ _ _ _ _ _ _ hL hfits hsame =>
      .pure hfits ⟨hsame, h.same.mono hL⟩

/-- **Statements go the same way in both runs**, one after the other. -/
theorem Parallel.statements : ∀ (sources : List Source.Stmt) {env env' : Env} {L : Link}
    {vs ws : List Variable} {s t : Fresh}, env.Parallel X Y L vs ws s t env' →
    L.Simulates SameStatements (env.statements sources s) (env'.statements sources t)
  | [], env, env', L, vs, ws, s, t, h => .pure h.fits ⟨fun _ _ => rfl, h.same⟩
  | source :: sources, env, env', L, vs, ws, s, t, h => by
    refine (Parallel.statement source h).bind fun x y s₁ t₁ L₁ hx hy hL₁ hfits₁ hxy => ?_
    have hleft := Proper.statement source h.left hx
    have hright := Proper.statement source h.right hy
    have h₁ := h.resume hL₁ hfits₁ hleft.proper hright.proper hxy.2
    refine (Parallel.statements sources h₁).bind fun xs ys s₂ t₂ L₂ _ _ hL₂ hfits₂ hrest => ?_
    refine .pure hfits₂ ⟨fun r hr => ?_, hrest.2⟩
    rw [Renaming.stmts, ← hxy.1.mono hL₂ r hr, ← hrest.1 r hr]
end

end Env

end RangeTyping
