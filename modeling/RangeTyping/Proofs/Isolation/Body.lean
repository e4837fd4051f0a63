import Mathlib
import RangeTyping.Proofs.Cast.Context
import RangeTyping.Proofs.Isolation.Overload

/-!
# Bodies after a past

Expressions, statements and blocks are analysed after a past as without it (`Past.operand`,
`Past.block`, `Past.statements`), by recursion on their source.  The surroundings change on the way,
when variables are declared and scopes are opened, but their conversions stay those of the builtins.
-/

namespace RangeTyping

namespace Past

variable {p : Past} {cookie : Registration → Nat} {env : Env} {budget : Budget} {location : Location}

/-! ### Leaves -/

theorem identifier (name : Source.Name) :
    p.Repeats (Maps p.numbers.expr) (env.identifier name) ((p.env env).identifier name) := by
  unfold Env.identifier
  rw [show (p.env env).context = p.context env.context from rfl, object?]
  cases env.context.object? name.text with
  | none => exact .fail rfl
  | some x =>
    cases x with
    | function f => exact .fail rfl
    | «variable» v => exact .pure rfl

theorem boolean (value : Bool) :
    p.Repeats (Maps p.numbers.expr) (env.boolean value) ((p.env env).boolean value) :=
  Repeats.freshValue.bindMap fun _ => .pure rfl

theorem pointee (e : TypedExpr) :
    p.Repeats (Maps p.numbers.expr) (Env.pointee location e)
      (Env.pointee location (p.numbers.expr e)) := by
  have htype : (p.numbers.expr e).type = e.type.renumber p.struct := p.numbers.type_expr e
  have hid : (p.numbers.expr e).id = p.value e.id := p.numbers.id_expr e
  unfold Env.pointee
  rw [htype, hid]
  cases e.type with
  | pointer f t =>
    dsimp only [Ty.renumber]
    rw [Ty.fullRange_renumber, ← Ty.renumber_addFlags]
    exact (Repeats.liftInternal _).bindMap fun range => .pure rfl
  | scalar | function | array | struct => exact .fail rfl

/-! ### Nodes made of analysed parts -/

theorem valueBlock (ss : List TypedStmt) (e : TypedExpr) :
    Env.valueBlock (p.numbers.stmts ss) (p.numbers.expr e) =
      p.numbers.expr (Env.valueBlock ss e) := by
  rw [Env.valueBlock, Env.valueBlock, Renaming.expr, p.numbers.info_expr]

theorem conditional (type : Ty) (test thenArm elseArm : TypedExpr) (q : PointId) :
    p.Repeats (Maps p.numbers.expr) (Env.conditional type test thenArm elseArm q)
      (Env.conditional (type.renumber p.struct) (p.numbers.expr test) (p.numbers.expr thenArm)
        (p.numbers.expr elseArm) (p.point q)) := by
  unfold Env.conditional
  rw [p.numbers.range_expr, p.numbers.range_expr]
  refine (Repeats.liftInternal _).bindMap fun range => ?_
  dsimp only
  rw [Ty.isVoid_renumber]
  exact Repeats.drawUnless fun v => Repeats.freshPoint.bindMap fun q => .pure rfl

theorem checkAssignable (e : TypedExpr) :
    p.Repeats (Maps id) (Env.checkAssignable e location)
      (Env.checkAssignable (p.numbers.expr e) location) := by
  have htype : (p.numbers.expr e).type = e.type.renumber p.struct := p.numbers.type_expr e
  unfold Env.checkAssignable
  rw [htype, Ty.isReference_renumber, Ty.isMutable_renumber]
  split
  · exact .pure rfl
  · exact .fail rfl

theorem returnNothing :
    p.Repeats (Maps p.numbers.stmt) (env.returnNothing location)
      ((p.env env).returnNothing location) := by
  unfold Env.returnNothing
  rw [show (p.env env).returnType = env.returnType.renumber p.struct from rfl, Ty.isVoid_renumber]
  split
  · exact .pure rfl
  · exact .fail rfl

/-! ### Types and variables -/

theorem resolveTypeIn (written : Source.TypeExpr) :
    p.Repeats (Maps (Ty.renumber p.struct)) (env.resolveType written)
      ((p.env env).resolveType written) := by
  intro s hs
  unfold Env.resolveType
  rw [show (p.env env).context = p.context env.context from rfl, resolveType]
  cases hwritten : env.context.resolveType written with
  | ok t => exact .ok ⟨rfl, rfl, hs⟩
  | error d => exact .fail (LookupContext.renumber_of_resolveType hwritten).symm

theorem declaredType (name : Source.Name) (written : Source.TypeExpr) :
    p.Repeats (Maps (Ty.renumber p.struct)) (env.declaredType name location written)
      ((p.env env).declaredType name location written) := by
  refine (resolveTypeIn written).bindMap fun t => ?_
  dsimp only
  rw [Ty.isVoid_renumber]
  split
  · exact .fail rfl
  · exact .pure rfl

theorem addVariable (c : LookupContext) (v : Variable) :
    (p.context c).addVariable (p.numbers.variableOf v) = (c.addVariable v).map p.context := by
  unfold LookupContext.addVariable Scope.addVariable
  rw [show (p.context c).current = p.scope c.current from rfl,
    show (p.numbers.variableOf v).name = v.name from rfl, scopeObject?]
  cases c.current.object? v.name with
  | some x => rfl
  | none =>
    simp only [Option.map_none, Except.map, bind, Except.bind]
    simp [context, scope, object, pure, Except.pure]

/-- What a step makes of the surroundings is found after the past, and conversions stay as they
are. -/
def Enters {α β : Type} (p : Past) (cookie : Registration → Nat) (f : α → β) (x : α × Env)
    (y : β × Env) : Prop :=
  y = (f x.1, p.env x.2) ∧ (BuiltinTypes.ofBackend cookie).Sole x.2.context.castGraph

/-- Steps that change the surroundings go on in those after the past. -/
theorem Repeats.enter {α β γ ζ : Type} {f : α → β} {Q : γ → ζ → Prop} {x : Analysis (α × Env)}
    {y : Analysis (β × Env)} {g : α × Env → Analysis γ} {g' : β × Env → Analysis ζ}
    (h : p.Repeats (p.Enters cookie f) x y)
    (hg : ∀ a env, (BuiltinTypes.ofBackend cookie).Sole env.context.castGraph →
      p.Repeats Q (g (a, env)) (g' (f a, p.env env))) : p.Repeats Q (x >>= g) (y >>= g') :=
  h.bind fun a _ hab => hab.1 ▸ hg a.1 a.2 hab.2

/-- **A variable is declared** after the past. -/
theorem declareVariable (hG : (BuiltinTypes.ofBackend cookie).Sole env.context.castGraph)
    (name : String) (type : Ty) (isMutable : Bool) (range : Option ValueRange) :
    p.Repeats (p.Enters cookie p.numbers.variableOf)
      (env.declare name type isMutable range location)
      ((p.env env).declare name (type.renumber p.struct) isMutable range location) := by
  unfold Env.declare
  dsimp only
  rw [Ty.isVoid_renumber, Ty.isFunction_renumber]
  split
  · exact .fail rfl
  · refine Repeats.freshValue.bindMap fun i => ?_
    generalize (if isMutable = true then Flags.refMut else Flags.ref) = flags
    -- it is the same variable, with its numbers changed
    have hvariable : (⟨name, (type.renumber p.struct).unqualified.addFlags flags, p.value i, range,
        location⟩ : Variable) =
          p.numbers.variableOf ⟨name, type.unqualified.addFlags flags, i, range, location⟩ := by
      rw [← Ty.renumber_unqualified, ← Ty.renumber_addFlags]
      rfl
    rw [hvariable, show (p.env env).context = p.context env.context from rfl, addVariable]
    cases hcontext : env.context.addVariable
        ⟨name, type.unqualified.addFlags flags, i, range, location⟩ with
    | error e => exact .fail rfl
    | ok c => exact .pure ⟨rfl, LookupContext.castGraph_of_addVariable hcontext ▸ hG⟩

theorem defineVariable (hG : (BuiltinTypes.ofBackend cookie).Sole env.context.castGraph)
    (name : Source.Name) (isMutable : Bool) (e : TypedExpr) :
    p.Repeats (p.Enters cookie p.numbers.stmt) (env.defineVariable name isMutable location e)
      ((p.env env).defineVariable name isMutable location (p.numbers.expr e)) := by
  have htype : (p.numbers.expr e).type = e.type.renumber p.struct := p.numbers.type_expr e
  have hrest : ∀ range : Option ValueRange, p.Repeats (p.Enters cookie p.numbers.stmt)
      (env.declare name.text e.type isMutable range location >>= fun x =>
        (pure (.define x.1 e, x.2) : Analysis (TypedStmt × Env)))
      ((p.env env).declare name.text (e.type.renumber p.struct) isMutable range location >>=
        fun x => (pure (.define x.1 (p.numbers.expr e), x.2) : Analysis (TypedStmt × Env))) :=
    fun range => (declareVariable hG name.text e.type isMutable range).enter
      fun v env₁ hG₁ => .pure ⟨rfl, hG₁⟩
  unfold Env.defineVariable
  rw [htype, p.numbers.range_expr, Ty.fullRange_renumber]
  cases isMutable with
  | true => exact (Repeats.liftInternal _).bindMap hrest
  | false => exact hrest e.range

theorem enter (env : Env) : (p.env env).enter = p.env env.enter := rfl

theorem sole_enter (hG : (BuiltinTypes.ofBackend cookie).Sole env.context.castGraph) :
    (BuiltinTypes.ofBackend cookie).Sole env.enter.context.castGraph := hG.cons

/-! ### The recursion -/

mutual
/-- **Expressions after a past.** -/
theorem operand {env : Env} {budget : Budget}
    (hG : (BuiltinTypes.ofBackend cookie).Sole env.context.castGraph) (hint : Option Ty) :
    ∀ e : Source.Expr, p.Repeats (MapsSpent p.operandOf) (env.operand budget hint e)
      ((p.env env).operand budget (hint.map (Ty.renumber p.struct)) e)
  | .number n text => by
    rw [Env.operand, Env.operand]
    split
    · exact .pure rfl
    · exact .fail rfl
  | .boolean n value => by
    rw [Env.operand, Env.operand]
    exact (boolean value).bindMap fun e => .pure rfl
  | .null n => by
    rw [Env.operand, Env.operand]
    exact .pure rfl
  | .identifier name => by
    rw [Env.operand, Env.operand]
    exact (identifier name).bindMap fun e => .pure rfl
  | .binary n token left right => by
    rw [Env.operand, Env.operand]
    refine (overloads token.symbol).bindMap fun os => ?_
    refine (operand hG none left).spend fun l b => ?_
    refine (operand hG none right).spend fun r b => ?_
    exact (select hG token.symbol os [l, r] hint).spend fun e b => .pure rfl
  | .logicalNot n e => by
    rw [Env.operand, Env.operand]
    refine (overloads Source.notSymbol).bindMap fun os => ?_
    refine (operand hG none e).spend fun o b => ?_
    exact (select hG Source.notSymbol os [o] hint).spend fun e b => .pure rfl
  | .call n function arguments => by
    rw [Env.operand, Env.operand]
    refine (overloads function.text).bindMap fun os => ?_
    refine (operands hG arguments).spend fun as b => ?_
    exact (select hG function.text os as hint).spend fun e b => .pure rfl
  | .cast n type e => by
    rw [Env.operand, Env.operand]
    refine (resolveTypeIn type).bindMap fun destination => ?_
    refine (operand hG none e).spend fun o b => ?_
    exact (coerce hG destination false o).spend fun e b => .pure rfl
  | .block source => by
    rw [Env.operand, Env.operand]
    exact (block hG hint source).spend fun e b => .pure rfl
  | .ifThen n test thenArm => by
    rw [Env.operand, Env.operand]
    refine (operand hG (some env.types.boolTy) test).spend fun o b => ?_
    refine (settle hG (some env.types.boolTy) o).spend fun t b => ?_
    refine Repeats.freshPoint.bindMap fun q => ?_
    refine (block hG none thenArm).spend fun a b => .pure ?_
    rw [← p.numbers.expr_discard]
    rfl
  | .ifElse n test thenArm elseArm => by
    rw [Env.operand, Env.operand]
    refine (operand hG (some env.types.boolTy) test).spend fun o b => ?_
    refine (settle hG (some env.types.boolTy) o).spend fun t b => ?_
    refine Repeats.freshPoint.bindMap fun q => ?_
    refine (block hG hint thenArm).spend fun a b => ?_
    have htype : (hint.map (Ty.renumber p.struct)).getD (p.numbers.expr a).type.unqualified =
        (hint.getD a.type.unqualified).renumber p.struct := by
      rw [unqualified_expr, Option.getD_map]
    dsimp only
    rw [htype]
    generalize hint.getD a.type.unqualified = type
    refine (convert hG type true a).spend fun a b => ?_
    refine (block hG (some type) elseArm).spend fun c b => ?_
    refine (convert hG type true c).spend fun c b => ?_
    exact (conditional type t a c q).bindMap fun e => .pure rfl
  | .dereference n e => by
    rw [Env.operand, Env.operand]
    refine (operand hG none e).spend fun o b => ?_
    refine (plain hG o).spend fun e b => ?_
    exact (pointee e).bindMap fun e => .pure rfl

theorem operands {env : Env} {budget : Budget}
    (hG : (BuiltinTypes.ofBackend cookie).Sole env.context.castGraph) :
    ∀ es : List Source.Expr,
    p.Repeats (MapsSpent (List.map p.operandOf)) (env.operands budget es)
      ((p.env env).operands budget es)
  | [] => by
    rw [Env.operands, Env.operands]
    exact .pure rfl
  | e :: es => by
    rw [Env.operands, Env.operands]
    exact (operand hG none e).spend fun o b => (operands hG es).spend fun os b => .pure rfl

/-- **Blocks after a past.** -/
theorem block {env : Env} {budget : Budget}
    (hG : (BuiltinTypes.ofBackend cookie).Sole env.context.castGraph) (hint : Option Ty) :
    ∀ source : Source.Block, p.Repeats (MapsSpent p.numbers.expr) (env.block budget hint source)
      ((p.env env).block budget (hint.map (Ty.renumber p.struct)) source)
  | .unit n ss => by
    rw [Env.block, Env.block, enter]
    exact (statements (sole_enter hG) ss).enter fun ss inner _ => .pure rfl
  | .value n ss result => by
    rw [Env.block, Env.block, enter]
    refine (statements (sole_enter hG) ss).enter fun ss inner hinner => ?_
    refine (operand hinner hint result).spend fun o b => ?_
    refine (settle hinner hint o).spend fun e b => .pure ?_
    rw [valueBlock]
    rfl

/-- **Statements after a past.** -/
theorem statement {env : Env}
    (hG : (BuiltinTypes.ofBackend cookie).Sole env.context.castGraph) :
    ∀ source : Source.Stmt,
    p.Repeats (p.Enters cookie p.numbers.stmt) (env.statement source)
      ((p.env env).statement source)
  | .expression e => by
    rw [Env.statement, Env.statement]
    refine (operand hG none e).spend fun o b => ?_
    refine (settle hG none o).spend fun e b => .pure ⟨?_, hG⟩
    rw [← p.numbers.expr_discard]
    rfl
  | .define n name isMutable (some type) e => by
    rw [Env.statement, Env.statement]
    refine (declaredType name type).bindMap fun t => ?_
    refine (operand hG (some t) e).spend fun o b => ?_
    refine (settle hG (some t) o).spend fun e b => ?_
    exact defineVariable hG name isMutable e
  | .define n name isMutable none e => by
    rw [Env.statement, Env.statement]
    refine (operand hG none e).spend fun o b => ?_
    refine (plain hG o).spend fun e b => ?_
    exact defineVariable hG name isMutable e
  | .assign n target e => by
    rw [Env.statement, Env.statement]
    refine (operand hG none target).spend fun o b => ?_
    refine (settle hG none o).spend fun t b => ?_
    refine (checkAssignable t).bindMap fun _ => ?_
    dsimp only
    rw [unqualified_expr]
    refine (operand hG (some t.type.unqualified) e).spend fun o b => ?_
    exact (settle hG (some t.type.unqualified) o).spend fun e b => .pure ⟨rfl, hG⟩
  | .returnValue n e => by
    rw [Env.statement, Env.statement]
    refine (operand hG (some env.returnType) e).spend fun o b => ?_
    exact (settle hG (some env.returnType) o).spend fun e b => .pure ⟨rfl, hG⟩
  | .returnVoid n => by
    rw [Env.statement, Env.statement]
    exact returnNothing.bindMap fun s => .pure ⟨rfl, hG⟩

theorem statements {env : Env}
    (hG : (BuiltinTypes.ofBackend cookie).Sole env.context.castGraph) :
    ∀ source : List Source.Stmt,
    p.Repeats (p.Enters cookie p.numbers.stmts) (env.statements source)
      ((p.env env).statements source)
  | [] => by
    rw [Env.statements, Env.statements]
    exact .pure ⟨rfl, hG⟩
  | s :: ss => by
    rw [Env.statements, Env.statements]
    exact (statement hG s).enter fun s env₁ hG₁ =>
      (statements hG₁ ss).enter fun ss env₂ hG₂ => .pure ⟨rfl, hG₂⟩
end

end Past

end RangeTyping
