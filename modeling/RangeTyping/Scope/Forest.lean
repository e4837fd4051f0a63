import RangeTyping.Scope.Context

/-!
# Contexts that share scopes

Contexts made from one another see each other's registrations: a copy of a context has the same
open scopes, and all contexts derived from one root share the root scope and its table of type ids.
The forest holds every scope once.  A `SharedContext` lists the scopes it has open, from the
innermost outwards, and counts the scopes it opens on its own.

`ContextForest.load` gives the plain context behind a shared one, and `ContextForest.save` puts back
what an operation did to it, so every operation is the one of `LookupContext`.
-/

namespace RangeTyping

/-- Every scope and every table of type ids, by number. -/
structure ContextForest where
  scopes : Array Scope
  tables : Array TypeIdTable

/-- A context whose scopes lie in a forest. -/
structure SharedContext where
  current : Nat
  outer : List Nat
  table : Nat
  nextLabel : Nat
deriving DecidableEq, Repr

namespace ContextForest

/-- The forest without scopes. -/
def empty : ContextForest := ⟨#[], #[]⟩

/-- A scope of the forest. -/
def scope (F : ContextForest) (i : Nat) : Scope := F.scopes[i]?.getD (.empty 0)

/-- The plain context behind a shared one. -/
def load (F : ContextForest) (h : SharedContext) : LookupContext :=
  { current := F.scope h.current
    outer := h.outer.map F.scope
    typeIds := F.tables[h.table]?.getD .empty
    nextLabel := h.nextLabel }

/-- Puts back the innermost scope and the table of type ids. -/
def save (F : ContextForest) (h : SharedContext) (c : LookupContext) : ContextForest :=
  { scopes := F.scopes.setIfInBounds h.current c.current
    tables := F.tables.setIfInBounds h.table c.typeIds }

/-- Takes in a context with a single scope. -/
def adopt (F : ContextForest) (c : LookupContext) : ContextForest × SharedContext :=
  (⟨F.scopes.push c.current, F.tables.push c.typeIds⟩,
    ⟨F.scopes.size, [], F.tables.size, c.nextLabel⟩)

/-- Opens a scope. -/
def push (F : ContextForest) (h : SharedContext) : ContextForest × SharedContext :=
  let c := (F.load h).push
  ({ F with scopes := F.scopes.push c.current },
    { h with
      current := F.scopes.size
      outer := h.current :: h.outer
      nextLabel := c.nextLabel })

/-- Closes the innermost scope, which must not be the only one. -/
def pop (h : SharedContext) : Except InternalError SharedContext :=
  match h.outer with
  | [] => .error .rootScopePopped
  | s :: rest => .ok { h with current := s, outer := rest }

/-- A context with a new scope right inside the outermost one. -/
def deriveModule (F : ContextForest) (h : SharedContext) : ContextForest × SharedContext :=
  F.push { h with current := (h.outer.getLast?).getD h.current, outer := [] }

end ContextForest

end RangeTyping
