import Mathlib
import RangeTyping.Session
import RangeTyping.Proofs.Analysis.Forms
import RangeTyping.Proofs.Scope.Nesting

/-!
# The root scope

An analysis registers structs, functions and variables, and all of them in scopes that it opened
itself.  `LookupContext.Met` collects the contexts that it works in, from the module's own scope down
to the blocks of its functions.  The outermost scope of each of them, with its conversions, and its
table of type ids are those of the builtins (`LookupContext.Met.root`).
-/

namespace RangeTyping

namespace LookupContext

variable {c c' c'' : LookupContext}

/-- The second context comes from the first by declarations, none of which enters the table of type
ids. -/
def Registers : LookupContext → LookupContext → Prop :=
  Relation.ReflTransGen fun c c' => ∃ d : Declaration, d.cookie? = none ∧ c.declare d = .ok c'

namespace Registers

theorem refl (c : LookupContext) : c.Registers c := Relation.ReflTransGen.refl

theorem trans (h : c.Registers c') (h' : c'.Registers c'') : c.Registers c'' :=
  Relation.ReflTransGen.trans h h'

/-- **The scopes around the innermost one stay as they are**, and so does the table. -/
theorem around (h : c.Registers c') : c'.outer = c.outer ∧ c'.typeIds = c.typeIds := by
  induction h with
  | refl => exact ⟨rfl, rfl⟩
  | tail _ hstep ih =>
    obtain ⟨d, hcookie, hdeclare⟩ := hstep
    obtain ⟨-, houter, -, htypeIds⟩ := declare_ok hdeclare
    exact ⟨houter.trans ih.1, (htypeIds hcookie).trans ih.2⟩

/-! ### Registering -/

/-- Structs have no cookies. -/
theorem addType {name : String} {f : Flags} {i : StructId}
    (h : c.addType name (.struct f i) = .ok c') : c.Registers c' :=
  .single ⟨.addType name (.struct f i), rfl, h⟩

theorem addVariable {v : Variable} (h : c.addVariable v = .ok c') : c.Registers c' :=
  .single ⟨.addVariable v, rfl, congrArg (Except.mapError Failure.error) h⟩

theorem reserve {name : String} (h : c.reserve name = .ok c') : c.Registers c' :=
  .single ⟨.reserve name, rfl, congrArg (Except.mapError Failure.error) h⟩

theorem attach {S : StructStore} {o : Overload} (h : c.attach S o = .ok c') : c.Registers c' :=
  .single ⟨.attach S o, rfl, h⟩

/-! ### Stages -/

theorem declareStructs {m : Source.Module} {S S' : StructStore} {declared : List DeclaredStruct}
    {ds : List Diagnostic} (h : m.declareStructs S c = .ok (declared, ds, S', c')) :
    c.Registers c' := by
  obtain ⟨refused, S₁, blamed, hcollect, -, -⟩ := m.exists_of_declareStructs h
  refine collect_induction (I := fun _ s => c.Registers s.2) hcollect (.refl c) ?_
  rintro - ⟨S₁, c₁⟩ definition d ⟨S₂, c₂⟩ - hbefore hstep
  obtain ⟨c₃, hadd, hstep⟩ := Outcome.bind_ok hstep
  cases hstep
  exact hbefore.trans (addType (Outcome.mapError_ok hadd))

theorem registerFunctions {m : Source.Module} {S : StructStore} {nothing : Ty}
    {signatures : List Signature} {ds : List Diagnostic}
    (h : m.registerFunctions S nothing c = .ok (signatures, ds, c')) : c.Registers c' := by
  obtain ⟨⟨reserved, refused, c₁⟩, hreserve, h⟩ := Outcome.bind_ok h
  obtain ⟨⟨signatures₁, ds₁, c₂⟩, hregister, h⟩ := Outcome.bind_ok h
  cases h
  have hreserved : c.Registers c₁ := by
    refine collect_induction (I := fun _ c₁ => c.Registers c₁) hreserve (.refl c) ?_
    intro _ c₁ f f' c₂ _ hbefore hstep
    exact hbefore.trans (reserve (Signature.reserve_ok hstep).2)
  refine collect_induction (I := fun _ c₂ => c.Registers c₂) hregister hreserved ?_
  intro _ c₁ f sig c₂ _ hbefore hstep
  exact hbefore.trans (attach (Signature.register_ok hstep).2)

end Registers

end LookupContext

namespace Env

variable {env env' : Env} {s s' : Fresh}

/-! ### Bodies -/

theorem registers_declare {name : String} {type : Ty} {isMutable : Bool}
    {range : Option ValueRange} {location : Location} {v : Variable}
    (h : env.declare name type isMutable range location s = .ok ((v, env'), s')) :
    env.context.Registers env'.context := by
  obtain ⟨-, i, context, -, -, hcontext, rfl⟩ := declare_ok h
  exact .addVariable hcontext

theorem registers_defineVariable {name : Source.Name} {isMutable : Bool} {location : Location}
    {e : TypedExpr} {d : TypedStmt}
    (h : env.defineVariable name isMutable location e s = .ok ((d, env'), s')) :
    env.context.Registers env'.context := by
  obtain ⟨v, range, -, hdeclare, -⟩ := defineVariable_ok h
  exact registers_declare hdeclare

/-- A statement registers nothing but the variable that it defines. -/
theorem registers_statement {source : Source.Stmt} {d : TypedStmt}
    (h : env.statement source s = .ok ((d, env'), s')) : env.context.Registers env'.context := by
  cases source with
  | expression e =>
    obtain ⟨o, b₁, s₁, e, b₂, -, -, -, rfl⟩ := statement_ok h
    exact .refl _
  | define n name isMutable type e =>
    cases type with
    | some type =>
      obtain ⟨u, o, b₁, s₁, e, b₂, s₂, -, -, -, hdefine⟩ := statement_ok h
      exact registers_defineVariable hdefine
    | none =>
      obtain ⟨o, b₁, s₁, e, b₂, s₂, -, -, hdefine⟩ := statement_ok h
      exact registers_defineVariable hdefine
  | assign n target e =>
    obtain ⟨u, b₁, s₁, t, b₂, s₂, o, b₃, s₃, e, b₄, -, -, -, -, -, -, rfl⟩ := statement_ok h
    exact .refl _
  | returnValue n e =>
    obtain ⟨o, b₁, s₁, e, b₂, -, -, -, rfl⟩ := statement_ok h
    exact .refl _
  | returnVoid n =>
    obtain ⟨-, -, rfl, -⟩ := statement_ok h
    exact .refl _

theorem registers_statements {sources : List Source.Stmt} {ds : List TypedStmt}
    (h : env.statements sources s = .ok ((ds, env'), s')) :
    env.context.Registers env'.context := by
  induction sources generalizing env s ds with
  | nil =>
    cases h
    exact .refl _
  | cons source sources ih =>
    obtain ⟨d, env₁, s₁, rest, hd, hrest, -⟩ := statements_cons_ok h
    exact (registers_statement hd).trans (ih hrest)

theorem registers_parameterList {arguments : List Source.Argument} {types : List Ty}
    {ps : List Parameter}
    (h : Signature.parameterList env arguments types s = .ok ((ps, env'), s')) :
    env.context.Registers env'.context := by
  induction arguments generalizing env types s ps with
  | nil =>
    cases h
    exact .refl _
  | cons a rest ih =>
    cases types with
    | nil =>
      cases h
      exact .refl _
    | cons t ts =>
      rw [Signature.parameterList] at h
      obtain ⟨range, _, -, h⟩ := Analysis.bind_ok h
      obtain ⟨⟨v, env₁⟩, _, hdeclare, h⟩ := Analysis.bind_ok h
      obtain ⟨⟨ps₁, env₂⟩, _, hrest, h⟩ := Analysis.bind_ok h
      cases h
      exact (registers_declare hdeclare).trans (ih hrest)

end Env

/-! ### Contexts of an analysis -/

namespace LookupContext

/-- **The contexts that an analysis works in**: that of a new module, those that its stages make of
it, and those of bodies, where scopes are opened and parameters and variables declared. -/
inductive Met (b : Builtins) : LookupContext → Prop where
  | module : Met b b.moduleContext
  | structs {m : Source.Module} {S S' : StructStore} {c c' : LookupContext}
      {declared : List DeclaredStruct} {ds : List Diagnostic} (before : Met b c)
      (h : m.declareStructs S c = .ok (declared, ds, S', c')) : Met b c'
  | functions {m : Source.Module} {S : StructStore} {c c' : LookupContext}
      {signatures : List Signature} {ds : List Diagnostic} (before : Met b c)
      (h : m.registerFunctions S b.types.voidTy c = .ok (signatures, ds, c')) : Met b c'
  | enter {env : Env} (before : Met b env.context) : Met b env.enter.context
  | parameters {env env' : Env} {arguments : List Source.Argument} {types : List Ty}
      {ps : List Parameter} {s s' : Fresh} (before : Met b env.context)
      (h : Signature.parameterList env arguments types s = .ok ((ps, env'), s')) :
      Met b env'.context
  | statement {env env' : Env} {source : Source.Stmt} {d : TypedStmt} {s s' : Fresh}
      (before : Met b env.context) (h : env.statement source s = .ok ((d, env'), s')) :
      Met b env'.context

variable {cookie : Registration → Nat} {c : LookupContext}

/-- **The root scope and the table of type ids stay those of the builtins.** -/
theorem Met.root (h : c.Met (.prepare cookie)) :
    c.outer.getLast? = some (Builtins.prepare cookie).root.current ∧
      c.typeIds = (Builtins.prepare cookie).root.typeIds := by
  -- a step that registers something has the root scope among its outer scopes, never innermost
  have hstep : ∀ {c c' : LookupContext}, c.Registers c' →
      c.outer.getLast? = some (Builtins.prepare cookie).root.current ∧
        c.typeIds = (Builtins.prepare cookie).root.typeIds →
      c'.outer.getLast? = some (Builtins.prepare cookie).root.current ∧
        c'.typeIds = (Builtins.prepare cookie).root.typeIds := by
    intro c c' hregisters hroot
    obtain ⟨houter, htypeIds⟩ := hregisters.around
    rw [houter, htypeIds]
    exact hroot
  induction h with
  | module => exact ⟨rfl, rfl⟩
  | structs before h ih => exact hstep (.declareStructs h) ih
  | functions before h ih => exact hstep (.registerFunctions h) ih
  | @enter env before ih =>
    refine ⟨?_, ih.2⟩
    show (env.context.current :: env.context.outer).getLast? = _
    rw [List.getLast?_cons, ih.1]
    rfl
  | parameters before h ih => exact hstep (Env.registers_parameterList h) ih
  | statement before h ih => exact hstep (Env.registers_statement h) ih

theorem rootScope_of_getLast? {root : Scope} (h : c.outer.getLast? = some root) :
    c.rootScope = root := by
  rw [rootScope, h]
  rfl

end LookupContext

end RangeTyping
