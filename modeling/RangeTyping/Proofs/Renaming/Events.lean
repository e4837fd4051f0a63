import Mathlib
import RangeTyping.Typed.Event
import RangeTyping.Proofs.Renaming.Basic

/-!
# Renamed streams

The events of a renamed tree are the events of the tree, renamed (`Renaming.events_expr`,
`Renaming.events_function`).  A conditional whose value is unread sends no results, so a renaming
must not make an identity unread that was not; one that is one to one does not.
-/

namespace RangeTyping

namespace Renaming

variable (r : Renaming)

/-- Renames an event.  Modules have numbers of their own. -/
def event (number : Nat → Nat) : Event → Event
  | .moduleEnter id name location => .moduleEnter (number id) name location
  | .moduleLeave id => .moduleLeave (number id)
  | .declareIdentifier name symbol type => .declareIdentifier name symbol (r.type type)
  | .declareStruct type => .declareStruct (r.type type)
  | .defineStruct type => .defineStruct (r.type type)
  | .functionEnter symbol returnType parameters file location =>
    .functionEnter symbol (r.type returnType) (parameters.map r.parameter) file location
  | .functionLeave => .functionLeave
  | .returnValue id => .returnValue (r.value id)
  | .returnVoid => .returnVoid
  | .conditionalBranch id type condition p q =>
    .conditionalBranch (r.value id) (r.type type) (r.value condition) (r.point p) (r.point q)
  | .clauseResult id => .clauseResult (r.value id)
  | .jumpPoint p name => .jumpPoint (r.point p) name
  | .jump p => .jump (r.point p)
  | .literalInt id value type => .literalInt (r.value id) value (r.type type)
  | .literalBool id value => .literalBool (r.value id) value
  | .literalNull id type => .literalNull (r.value id) (r.type type)
  | .allocate id type name => .allocate (r.value id) (r.type type) name
  | .assign target value => .assign (r.value target) (r.value value)
  | .dereference id type address => .dereference (r.value id) (r.type type) (r.value address)
  | .convert op id source sourceType type =>
    .convert op (r.value id) (r.value source) (r.type sourceType) (r.type type)
  | .call id symbol arguments returnType =>
    .call (r.value id) symbol (arguments.map r.value) (r.type returnType)
  | .binary id operation left right type =>
    .binary (r.value id) operation (r.value left) (r.value right) (r.type type)
  | .logicalNot id operand => .logicalNot (r.value id) (r.value operand)

variable {r} {number : Nat → Nat}

@[simp] theorem holder_expr (e : TypedExpr) : (r.expr e).holder = r.value e.holder := by
  fun_induction TypedExpr.holder e with
  | case1 i ss e ih => rwa [expr, TypedExpr.holder]
  | case2 i e ih => rwa [expr, TypedExpr.holder]
  | case3 e hblock hdereference =>
    cases e with
    | valueBlock i ss e => exact absurd rfl (hblock i ss e)
    | dereference i e => exact absurd rfl (hdereference i e)
    | _ => rfl

theorem map_holder_exprs (es : List TypedExpr) :
    (r.exprs es).map TypedExpr.holder = (es.map TypedExpr.holder).map r.value := by
  induction es with
  | nil => rfl
  | cons e es ih => rw [exprs, List.map_cons, List.map_cons, List.map_cons, holder_expr, ih]

theorem isUnread_value (hr : Function.Injective r.value) (v : ValueId) :
    (r.value v).isUnread = v.isUnread := by
  have hunread : ∀ w : ValueId, w.isUnread = true ↔ w = .unread := fun w => beq_iff_eq
  rw [Bool.eq_iff_iff, hunread, hunread]
  exact ⟨fun h => hr (h.trans r.unread.symm), fun h => h ▸ r.unread⟩

theorem armResult_value (hr : Function.Injective r.value) (condition arm : ValueId) :
    TypedExpr.armResult (r.value condition) (r.value arm) =
      r.value (TypedExpr.armResult condition arm) := by
  rw [TypedExpr.armResult, TypedExpr.armResult, isUnread_value hr, apply_ite r.value, r.unread]

theorem castEvents_map (op : CastOp) (id : ValueId) (type : Ty) (source : ValueId)
    (sourceType : Ty) :
    TypedExpr.castEvents op (r.value id) (r.type type) (r.value source) (r.type sourceType) =
      (TypedExpr.castEvents op id type source sourceType).map (r.event number) := by
  cases op <;> rfl

mutual
/-- **The events of a renamed expression.** -/
theorem events_expr (hr : Function.Injective r.value) :
    ∀ e : TypedExpr, (r.expr e).events = e.events.map (r.event number)
  | .int i v => rfl
  | .bool i v => rfl
  | .null i => rfl
  | .variable i v => rfl
  | .cast i op e => by
    rw [expr, TypedExpr.events, TypedExpr.events, events_expr hr e, List.map_append,
      ← castEvents_map, holder_expr, type_expr]
    rfl
  | .call i f as => by
    rw [expr, TypedExpr.events, TypedExpr.events, eventsAll_exprs hr as, map_holder_exprs,
      List.map_append]
    rfl
  | .binary i op a b => by
    rw [expr, TypedExpr.events, TypedExpr.events, events_expr hr a, events_expr hr b, holder_expr,
      holder_expr, List.map_append, List.map_append]
    rfl
  | .logicalNot i e => by
    rw [expr, TypedExpr.events, TypedExpr.events, events_expr hr e, holder_expr, List.map_append]
    rfl
  | .block i ss => by rw [expr, TypedExpr.events, TypedExpr.events, stmtEventsAll_stmts hr ss]
  | .valueBlock i ss e => by
    rw [expr, TypedExpr.events, TypedExpr.events, stmtEventsAll_stmts hr ss, events_expr hr e,
      List.map_append]
  | .ifThen i t a p => by
    have hresult := armResult_value hr i.id a.holder
    rw [expr, TypedExpr.events, TypedExpr.events, events_expr hr t, events_expr hr a, holder_expr,
      holder_expr, show (r.info i).id = r.value i.id from rfl, hresult]
    simp only [List.map_append]
    rfl
  | .ifElse i t a b p q => by
    have hthen := armResult_value hr i.id a.holder
    have helse := armResult_value hr i.id b.holder
    rw [expr, TypedExpr.events, TypedExpr.events, events_expr hr t, events_expr hr a,
      events_expr hr b, holder_expr, holder_expr, holder_expr,
      show (r.info i).id = r.value i.id from rfl, hthen, helse]
    simp only [List.map_append]
    rfl
  | .dereference i e => by rw [expr, TypedExpr.events, TypedExpr.events, events_expr hr e]

theorem eventsAll_exprs (hr : Function.Injective r.value) : ∀ es : List TypedExpr,
    TypedExpr.eventsAll (r.exprs es) = (TypedExpr.eventsAll es).map (r.event number)
  | [] => rfl
  | e :: es => by
    rw [exprs, TypedExpr.eventsAll, TypedExpr.eventsAll, events_expr hr e, eventsAll_exprs hr es,
      List.map_append]

theorem stmtEvents_stmt (hr : Function.Injective r.value) : ∀ s : TypedStmt,
    TypedExpr.stmtEvents (r.stmt s) = (TypedExpr.stmtEvents s).map (r.event number)
  | .expression e => by rw [stmt, TypedExpr.stmtEvents, TypedExpr.stmtEvents, events_expr hr e]
  | .define v e => by
    rw [stmt, TypedExpr.stmtEvents, TypedExpr.stmtEvents, events_expr hr e, holder_expr,
      List.map_append]
    simp [event, variableOf, type]
  | .assign target e => by
    rw [stmt, TypedExpr.stmtEvents, TypedExpr.stmtEvents, events_expr hr e, events_expr hr target,
      holder_expr, holder_expr, List.map_append, List.map_append]
    rfl
  | .returnValue e => by
    rw [stmt, TypedExpr.stmtEvents, TypedExpr.stmtEvents, events_expr hr e, holder_expr, type_expr,
      type, Ty.isVoid_renumber, List.map_append, List.map_singleton, apply_ite (r.event number)]
    rfl
  | .returnVoid => rfl

theorem stmtEventsAll_stmts (hr : Function.Injective r.value) : ∀ ss : List TypedStmt,
    TypedExpr.stmtEventsAll (r.stmts ss) = (TypedExpr.stmtEventsAll ss).map (r.event number)
  | [] => rfl
  | s :: ss => by
    rw [stmts, TypedExpr.stmtEventsAll, TypedExpr.stmtEventsAll, stmtEvents_stmt hr s,
      stmtEventsAll_stmts hr ss, List.map_append]
end

theorem stmts_eq_map (ss : List TypedStmt) : r.stmts ss = ss.map r.stmt := by
  induction ss with
  | nil => rfl
  | cons s ss ih => rw [stmts, ih, List.map_cons]

theorem endsWithReturn_expr (e : TypedExpr) : (r.expr e).endsWithReturn = e.endsWithReturn := by
  cases e with
  | block i ss =>
    rw [expr, TypedExpr.endsWithReturn, TypedExpr.endsWithReturn, stmts_eq_map, List.getLast?_map]
    cases ss.getLast? with
    | none => rfl
    | some s => cases s <;> rfl
  | _ => rfl

/-- **The events of a renamed function.** -/
theorem events_function (hr : Function.Injective r.value) (file : String) (f : TypedFunction) :
    (r.function f).events file = (f.events file).map (r.event number) := by
  have hbody : (r.expr f.body).events = f.body.events.map (r.event number) := events_expr hr f.body
  rw [TypedFunction.events, TypedFunction.events,
    show (r.function f).body = r.expr f.body from rfl,
    show (r.function f).returnType = r.type f.returnType from rfl, hbody, endsWithReturn_expr,
    holder_expr, type, Ty.isVoid_renumber]
  cases f.body.endsWithReturn <;> cases f.returnType.isVoid <;> simp [event, function, type]

end Renaming

end RangeTyping
