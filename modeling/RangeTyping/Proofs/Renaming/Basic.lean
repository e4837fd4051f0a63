import Mathlib
import RangeTyping.Typed.Basic
import RangeTyping.Proofs.Analysis.Names
import RangeTyping.Proofs.Setting
import RangeTyping.Proofs.Tree.Rules

/-!
# Renaming

Numbers of structs and identities of values and branch targets are chosen in the course of an
analysis, and only which of them are equal matters.  A `Renaming` gives all of them other numbers;
it acts on types, typed expressions, functions and layouts and leaves everything else alone: names,
symbols, operations, ranges.

What a type is like does not depend on the numbers of its structs, so the questions that an analysis
asks about types have the same answers after renumbering (`Ty.asScalar?_renumber` and those after
it).  On types of a setting this holds for equality too (`Setting.Renumbers.same`).
-/

namespace RangeTyping

/-! ### Types -/

mutual
/-- The type with other numbers for its structs. -/
def Ty.renumber (ρ : StructId → StructId) : Ty → Ty
  | .scalar f s => .scalar f s
  | .function f as r => .function f (renumberAll ρ as) (renumber ρ r)
  | .pointer f t => .pointer f (renumber ρ t)
  | .array f t n => .array f (renumber ρ t) n
  | .struct f i => .struct f (ρ i)

/-- The types with other numbers for their structs. -/
def Ty.renumberAll (ρ : StructId → StructId) : List Ty → List Ty
  | [] => []
  | t :: ts => renumber ρ t :: renumberAll ρ ts
end

namespace Ty

variable {ρ : StructId → StructId} {t u : Ty} {f : Flags}

theorem renumberAll_eq_map (ts : List Ty) : renumberAll ρ ts = ts.map (renumber ρ) := by
  induction ts with
  | nil => rfl
  | cons t ts ih => rw [renumberAll, ih, List.map_cons]

@[simp] theorem renumber_ofScalar (s : Scalar) : (ofScalar s).renumber ρ = ofScalar s := rfl

@[simp] theorem renumber_boolTy (types : BuiltinTypes) :
    types.boolTy.renumber ρ = types.boolTy := rfl

@[simp] theorem renumber_voidTy (types : BuiltinTypes) :
    types.voidTy.renumber ρ = types.voidTy := rfl

@[simp] theorem renumber_arrow (as : List Ty) (r : Ty) :
    (arrow as r).renumber ρ = arrow (as.map (renumber ρ)) (r.renumber ρ) := by
  rw [arrow, renumber, renumberAll_eq_map]
  rfl

@[simp] theorem flags_renumber (t : Ty) : (t.renumber ρ).flags = t.flags := by
  cases t <;> rfl

@[simp] theorem renumber_withFlags (t : Ty) :
    (t.withFlags f).renumber ρ = (t.renumber ρ).withFlags f := by
  cases t <;> rfl

@[simp] theorem renumber_addFlags (t : Ty) :
    (t.addFlags f).renumber ρ = (t.renumber ρ).addFlags f := by
  rw [addFlags, addFlags, renumber_withFlags, flags_renumber]

@[simp] theorem renumber_unqualified (t : Ty) :
    t.unqualified.renumber ρ = (t.renumber ρ).unqualified := renumber_withFlags t

@[simp] theorem asScalar?_renumber (t : Ty) : (t.renumber ρ).asScalar? = t.asScalar? := by
  cases t <;> rfl

@[simp] theorem isVoid_renumber (t : Ty) : (t.renumber ρ).isVoid = t.isVoid := by
  rw [isVoid, isVoid, asScalar?_renumber]

@[simp] theorem isPointer_renumber (t : Ty) : (t.renumber ρ).isPointer = t.isPointer := by
  cases t <;> rfl

@[simp] theorem isFunction_renumber (t : Ty) : (t.renumber ρ).isFunction = t.isFunction := by
  cases t <;> rfl

@[simp] theorem isReference_renumber (t : Ty) : (t.renumber ρ).isReference = t.isReference := by
  rw [isReference, isReference, flags_renumber]

@[simp] theorem isMutable_renumber (t : Ty) : (t.renumber ρ).isMutable = t.isMutable := by
  rw [isMutable, isMutable, flags_renumber]

@[simp] theorem fullRange_renumber (t : Ty) : (t.renumber ρ).fullRange = t.fullRange := by
  rw [fullRange, fullRange, asScalar?_renumber]

mutual
@[simp] theorem renumber_id : ∀ t : Ty, t.renumber id = t
  | .scalar f s => rfl
  | .function f as r => by rw [renumber, renumberAll_id as, renumber_id r]
  | .pointer f t => by rw [renumber, renumber_id t]
  | .array f t n => by rw [renumber, renumber_id t]
  | .struct f i => rfl

theorem renumberAll_id : ∀ ts : List Ty, renumberAll id ts = ts
  | [] => rfl
  | t :: ts => by rw [renumberAll, renumber_id t, renumberAll_id ts]
end

mutual
/-- Different numbers make different types. -/
theorem renumber_injective (h : Function.Injective ρ) :
    ∀ t u : Ty, t.renumber ρ = u.renumber ρ → t = u
  | .scalar f s, u, heq => by
    cases u <;> cases heq
    rfl
  | .function f as r, u, heq => by
    cases u with
    | function g bs q =>
      injection heq with hf has hr
      rw [hf, renumberAll_injective h as bs has, renumber_injective h r q hr]
    | scalar | pointer | array | struct => cases heq
  | .pointer f t, u, heq => by
    cases u with
    | pointer g u =>
      injection heq with hf ht
      rw [hf, renumber_injective h t u ht]
    | scalar | function | array | struct => cases heq
  | .array f t n, u, heq => by
    cases u with
    | array g u m =>
      injection heq with hf ht hn
      rw [hf, hn, renumber_injective h t u ht]
    | scalar | function | pointer | struct => cases heq
  | .struct f i, u, heq => by
    cases u with
    | struct g j =>
      injection heq with hf hi
      rw [hf, h hi]
    | scalar | function | pointer | array => cases heq

theorem renumberAll_injective (h : Function.Injective ρ) :
    ∀ ts us : List Ty, renumberAll ρ ts = renumberAll ρ us → ts = us
  | [], us, heq => by
    cases us with
    | nil => rfl
    | cons => cases heq
  | t :: ts, us, heq => by
    cases us with
    | nil => cases heq
    | cons u us =>
      injection heq with ht hts
      rw [renumber_injective h t u ht, renumberAll_injective h ts us hts]
end

theorem knownIn_renumber {types : BuiltinTypes} {declared declared' : StructId → Prop}
    (h : ∀ i, declared i → declared' (ρ i)) :
    ∀ t : Ty, t.KnownIn types declared → (t.renumber ρ).KnownIn types declared'
  | .scalar _ _, ht => ht
  | .function _ _ _, ht => ht
  | .pointer _ t, ht => ⟨knownIn_renumber h t ht.1, (flags_renumber t).trans ht.2⟩
  | .array _ t _, ht => ⟨knownIn_renumber h t ht.1, (flags_renumber t).trans ht.2⟩
  | .struct _ i, ht => h i ht

end Ty

/-- The layout with other types for its members, in the same places. -/
def Layout.mapTypes (f : Ty → Ty) (l : Layout) : Layout :=
  { l with members := l.members.map fun m => { m with type := f m.type } }

/-! ### Settings -/

/-- The setting `Y` has the structs of `X` under other numbers. -/
structure Setting.Renumbers (X Y : Setting) (ρ : StructId → StructId) : Prop where
  cookie : Y.cookie = X.cookie
  injective : Function.Injective ρ
  declared : ∀ i, X.declared i → Y.declared (ρ i)

namespace Setting.Renumbers

variable {X Y : Setting} {ρ : StructId → StructId} {t u : Ty}

theorem types (h : X.Renumbers Y ρ) : Y.types = X.types := by
  rw [Setting.types, Setting.types, h.cookie]

theorem known (h : X.Renumbers Y ρ) (ht : X.Known t) : Y.Known (t.renumber ρ) := by
  rw [Known, h.types]
  exact Ty.knownIn_renumber h.declared t ht

theorem plain (h : X.Renumbers Y ρ) (ht : X.Plain t) : Y.Plain (t.renumber ρ) :=
  ⟨h.known ht.known, (Ty.flags_renumber t).trans ht.flags⟩

end Setting.Renumbers

/-- Types of a setting are the same exactly if they are equal. -/
theorem Setting.same_iff {X : Setting} {t u : Ty} (ht : X.Known t) (hu : X.Known u) :
    t.same X.structs u = true ↔ t = u := by
  refine ⟨eq_of_same ht hu, ?_⟩
  rintro rfl
  exact Ty.same_self X.structs t

/-- **Types of a setting are the same before and after renumbering.** -/
theorem Setting.Renumbers.same {X Y : Setting} {ρ : StructId → StructId} {t u : Ty}
    (h : X.Renumbers Y ρ) (ht : X.Known t) (hu : X.Known u) :
    (t.renumber ρ).same Y.structs (u.renumber ρ) = t.same X.structs u := by
  rw [Bool.eq_iff_iff, same_iff (h.known ht) (h.known hu), same_iff ht hu]
  exact ⟨Ty.renumber_injective h.injective t u, congrArg _⟩

/-! ### Typed trees -/

/-- Other numbers for structs, values and branch targets.  The identity of unread values keeps its
meaning. -/
structure Renaming where
  struct : StructId → StructId
  value : ValueId → ValueId
  point : PointId → PointId
  unread : value .unread = .unread

namespace Renaming

variable (r : Renaming)

/-- Renames a type. -/
def type (t : Ty) : Ty := t.renumber r.struct

/-- Renames what is known about a value. -/
def info (i : ValueInfo) : ValueInfo := ⟨r.value i.id, r.type i.type, i.range⟩

/-- Renames a variable. -/
def variableOf (v : Variable) : Variable := { v with type := r.type v.type, id := r.value v.id }

mutual
/-- Renames an expression. -/
def expr : TypedExpr → TypedExpr
  | .int i v => .int (r.info i) v
  | .bool i v => .bool (r.info i) v
  | .null i => .null (r.info i)
  | .variable i v => .variable (r.info i) (r.variableOf v)
  | .cast i op e => .cast (r.info i) op (expr e)
  | .call i f as => .call (r.info i) f (exprs as)
  | .binary i op a b => .binary (r.info i) op (expr a) (expr b)
  | .logicalNot i e => .logicalNot (r.info i) (expr e)
  | .block i ss => .block (r.info i) (stmts ss)
  | .valueBlock i ss e => .valueBlock (r.info i) (stmts ss) (expr e)
  | .ifThen i t a p => .ifThen (r.info i) (expr t) (expr a) (r.point p)
  | .ifElse i t a b p q => .ifElse (r.info i) (expr t) (expr a) (expr b) (r.point p) (r.point q)
  | .dereference i e => .dereference (r.info i) (expr e)

/-- Renames several expressions. -/
def exprs : List TypedExpr → List TypedExpr
  | [] => []
  | e :: es => expr e :: exprs es

/-- Renames a statement. -/
def stmt : TypedStmt → TypedStmt
  | .expression e => .expression (expr e)
  | .define v e => .define (r.variableOf v) (expr e)
  | .assign t e => .assign (expr t) (expr e)
  | .returnValue e => .returnValue (expr e)
  | .returnVoid => .returnVoid

/-- Renames several statements. -/
def stmts : List TypedStmt → List TypedStmt
  | [] => []
  | s :: ss => stmt s :: stmts ss
end

/-- Renames a parameter. -/
def parameter (p : Parameter) : Parameter := ⟨r.type p.type, p.name, r.value p.id⟩

/-- Renames a function.  Its name, its symbol and its place stay. -/
def function (f : TypedFunction) : TypedFunction :=
  { f with
    type := r.type f.type
    returnType := r.type f.returnType
    parameters := f.parameters.map r.parameter
    body := r.expr f.body }

/-- Renames a struct, which keeps its name. -/
def structOf (d : TypedStruct) : TypedStruct := { d with type := r.type d.type }

/-- Renames the types in a layout; offsets, size and alignment stay. -/
def layout (l : Layout) : Layout := l.mapTypes r.type

@[simp] theorem info_expr (e : TypedExpr) : (r.expr e).info = r.info e.info := by
  cases e <;> simp [expr, TypedExpr.info]

@[simp] theorem type_expr (e : TypedExpr) : (r.expr e).type = r.type e.type := by
  rw [TypedExpr.type, info_expr]
  rfl

@[simp] theorem range_expr (e : TypedExpr) : (r.expr e).range = e.range := by
  rw [TypedExpr.range, info_expr]
  rfl

@[simp] theorem id_expr (e : TypedExpr) : (r.expr e).id = r.value e.id := by
  rw [TypedExpr.id, info_expr]
  rfl

/-- Marking a value as unread and renaming can be done in either order. -/
theorem expr_discard (e : TypedExpr) : r.expr e.discard = (r.expr e).discard := by
  fun_induction TypedExpr.discard e with
  | case1 i v => rfl
  | case2 i p => rfl
  | case3 i s s' ih =>
    rw [expr, expr, TypedExpr.discard, ← ih, id_expr]
    rfl
  | case4 i ss e e' ih =>
    rw [expr, expr, TypedExpr.discard, ← ih, id_expr]
    rfl
  | case8 i op s hop =>
    rw [expr, expr, TypedExpr.discard, info, r.unread]
    · rfl
    · exact hop
  | _ => simp [expr, TypedExpr.discard, info, r.unread]

end Renaming

end RangeTyping
