import Mathlib
import RangeTyping.Cast.Resolve
import RangeTyping.Scope.Forest
import RangeTyping.Proofs.Analysis.Names

/-!
# Scopes nest

A block opens a scope, does what it likes in it and in scopes it opens further inside, and closes its
scope again.  Afterwards every context answers every question as before, the one in which the block
ran as well as the others that share scopes with it.  Within the block the scopes around it are as
they were, and a declaration hides what its name stands for there (`ContextForest.scopes_nest`).

What carries this is where a block writes.  Declarations go to the innermost scope, and within a block
that scope was opened by the block, so it has a number that the forest did not have before
(`ContextForest.Inside`).  Opening, closing and writing keep this (`Inside.push`, `Inside.pop`,
`Inside.save`), and so does every run of actions that does not close the block (`Inside.run`).
Contexts that were there before list old numbers only (`SharedContext.Lies`).
-/

namespace RangeTyping

/-! ### Declarations -/

/-- What can be registered in the innermost scope of a context. -/
inductive Declaration where
  | addType (name : String) (type : Ty)
  | addVariable (v : Variable)
  | reserve (name : String)
  | attach (S : StructStore) (o : Overload)
  | addCast (S : StructStore) (c : Cast)

namespace Declaration

/-- The type that a name stands for by the declaration. -/
def type? : Declaration → String → Option Ty
  | .addType key t, name => if name = key then some t else none
  | _, _ => none

/-- The object that a name stands for by the declaration.  Functions go on from what the scope itself
has under their name. -/
def object? (s : Scope) : Declaration → String → Option Object
  | .addVariable v, name => if name = v.name then some (.variable v) else none
  | .reserve key, name =>
    if name = key then some ((s.object? key).getD (.function ⟨key, []⟩)) else none
  | .attach _ o, name =>
    if name = o.name then
      (s.object? o.name).map fun
        | .function f => .function { f with overloads := f.overloads ++ [o] }
        | other => other
    else none
  | _, _ => none

/-- The cookie that the declaration enters in the table of type ids. -/
def cookie? : Declaration → Option Nat
  | .addType _ t => t.cookie?
  | _ => none

end Declaration

namespace Scope

variable {s s' : Scope}

/-- The second scope is the first one with the declaration. -/
structure Declares (s : Scope) (d : Declaration) (s' : Scope) : Prop where
  type? : ∀ name, s'.type? name = (d.type? name).or (s.type? name)
  object? : ∀ name, s'.object? name = (d.object? s name).or (s.object? name)

/-- A name that is free stands for what is entered under it. -/
theorem lookup_enter {α : Type} {entries : List (String × α)} {key : String}
    (hfree : entries.lookup key = none) (a : α) (name : String) :
    (entries ++ [(key, a)]).lookup name =
      (if name = key then some a else none).or (entries.lookup name) := by
  rw [lookup_concat]
  by_cases hname : name = key
  · simp [hname, hfree]
  · simp [hname]

theorem declares_addType {key : String} {t : Ty} (h : s.addType key t = .ok s') :
    s.Declares (.addType key t) s' := by
  obtain ⟨hfree, rfl⟩ := addType_ok h
  exact ⟨lookup_enter hfree t, fun _ => rfl⟩

theorem declares_addVariable {v : Variable} (h : s.addVariable v = .ok s') :
    s.Declares (.addVariable v) s' := by
  obtain ⟨hfree, rfl⟩ := addVariable_ok h
  exact ⟨fun _ => rfl, lookup_enter hfree _⟩

theorem declares_reserve {key : String} (h : s.reserve key = .ok s') :
    s.Declares (.reserve key) s' := by
  rcases reserve_ok h with ⟨f, hf, rfl⟩ | ⟨hfree, rfl⟩
  · refine ⟨fun _ => rfl, fun name => ?_⟩
    by_cases hname : name = key
    · simp [Declaration.object?, hname, hf]
    · simp [Declaration.object?, hname]
  · refine ⟨fun _ => rfl, fun name => ?_⟩
    simp only [Declaration.object?, hfree]
    exact lookup_enter hfree _ name

theorem declares_attach {S : StructStore} {o : Overload} (h : attach S s o = .ok s') :
    s.Declares (.attach S o) s' := by
  obtain ⟨f, hf, rfl⟩ := attach_ok h
  refine ⟨fun _ => rfl, fun name => ?_⟩
  simp only [Declaration.object?, hf]
  rw [object?, lookup_replace]
  by_cases hname : name = o.name
  · subst hname
    rw [object?] at hf
    simp [hf]
  · simp [hname, object?]

end Scope

namespace LookupContext

variable {c c' : LookupContext} {d : Declaration}

/-- Registers a declaration in the innermost scope. -/
def declare (c : LookupContext) : Declaration → Outcome RegistrationError LookupContext
  | .addType name t => c.addType name t
  | .addVariable v => (c.addVariable v).mapError .error
  | .reserve name => (c.reserve name).mapError .error
  | .attach S o => c.attach S o
  | .addCast S cast => .ok (c.addCast S cast)

theorem mapError_ok {ε δ α : Type} {f : ε → δ} {x : Except ε α} {a : α}
    (h : x.mapError f = .ok a) : x = .ok a := by
  cases x with
  | ok b =>
    cases h
    rfl
  | error e => cases h

/-- **A declaration goes to the innermost scope** and to nothing else but the table of type ids. -/
theorem declare_ok (h : c.declare d = .ok c') :
    c.current.Declares d c'.current ∧ c'.outer = c.outer ∧ c'.nextLabel = c.nextLabel ∧
      (d.cookie? = none → c'.typeIds = c.typeIds) := by
  cases d with
  | addType key t =>
    obtain ⟨scope, hscope, hc⟩ := addType_ok h
    have hdeclares := Scope.declares_addType hscope
    rcases hc with ⟨-, rfl⟩ | ⟨cookie, hcookie, rfl⟩
    · exact ⟨hdeclares, rfl, rfl, fun _ => rfl⟩
    · exact ⟨hdeclares, rfl, rfl, fun hnone => nomatch hcookie.symm.trans hnone⟩
  | addVariable v =>
    obtain ⟨scope, hscope, h⟩ := Outcome.bind_ok (mapError_ok h)
    cases h
    exact ⟨Scope.declares_addVariable hscope, rfl, rfl, fun _ => rfl⟩
  | reserve key =>
    obtain ⟨scope, hscope, h⟩ := Outcome.bind_ok (mapError_ok h)
    cases h
    exact ⟨Scope.declares_reserve hscope, rfl, rfl, fun _ => rfl⟩
  | attach S o =>
    obtain ⟨scope, hscope, h⟩ := Outcome.bind_ok h
    cases h
    exact ⟨Scope.declares_attach hscope, rfl, rfl, fun _ => rfl⟩
  | addCast S cast =>
    cases h
    exact ⟨⟨fun _ => rfl, fun _ => rfl⟩, rfl, rfl, fun _ => rfl⟩

theorem ofInternal_error {ε α : Type} {x : Except InternalError α} {e : InternalError}
    (h : (Outcome.ofInternal x : Outcome ε α) = .error (.internal e)) : x = .error e := by
  cases x with
  | ok a => cases h
  | error e' =>
    cases h
    rfl

theorem signature_ne_rootScopePopped {S : StructStore} {o : Overload} :
    o.signature S ≠ .error .rootScopePopped := by
  unfold Overload.signature
  split <;> nofun

theorem anyWith_ne_rootScopePopped {S : StructStore} {arguments : List Ty} {os : List Overload} :
    Overload.anyWith S arguments os ≠ .error .rootScopePopped := by
  induction os with
  | nil => nofun
  | cons o rest ih =>
    intro h
    rcases Outcome.bind_error h with h | ⟨signature, -, h⟩
    · exact signature_ne_rootScopePopped h
    · dsimp only at h
      split at h
      · cases h
      · exact ih h

/-- Declarations do not close scopes. -/
theorem declare_ne_rootScopePopped : c.declare d ≠ .error (.internal .rootScopePopped) := by
  intro h
  cases d with
  | addType key t =>
    simp only [declare, addType] at h
    split at h
    · cases h
    · split at h
      · cases h
      · split at h <;> cases h
  | addVariable v =>
    simp only [declare] at h
    cases hv : c.addVariable v <;> rw [hv] at h <;> cases h
  | reserve key =>
    simp only [declare] at h
    cases hv : c.reserve key <;> rw [hv] at h <;> cases h
  | attach S o =>
    rcases Outcome.bind_error h with h | ⟨_, -, h⟩
    · unfold Scope.attach at h
      split at h
      · rcases Outcome.bind_error h with h | ⟨signature, -, h⟩
        · exact signature_ne_rootScopePopped (ofInternal_error h)
        · rcases Outcome.bind_error h with h | ⟨taken, -, h⟩
          · exact anyWith_ne_rootScopePopped (ofInternal_error h)
          · cases taken <;> cases h
      · cases h
    · cases h
  | addCast S cast => cases h

theorem type?_eq_or (c : LookupContext) (name : String) :
    c.type? name = (c.current.type? name).or (c.outer.findSome? (·.type? name)) := by
  rw [type?, scopes, List.findSome?_cons]
  cases c.current.type? name <;> rfl

theorem object?_eq_or (c : LookupContext) (name : String) :
    c.object? name = (c.current.object? name).or (c.outer.findSome? (·.object? name)) := by
  rw [object?, scopes, List.findSome?_cons]
  cases c.current.object? name <;> rfl

/-- **What was declared last hides what its name stood for**, and no other name is concerned. -/
theorem lookup_of_declare (h : c.declare d = .ok c') (name : String) :
    c'.type? name = (d.type? name).or (c.type? name) ∧
      c'.object? name = (d.object? c.current name).or (c.object? name) := by
  obtain ⟨hdeclares, houter, -⟩ := declare_ok h
  rw [type?_eq_or, type?_eq_or, object?_eq_or, object?_eq_or, houter, hdeclares.type?,
    hdeclares.object?, Option.or_assoc, Option.or_assoc]
  exact ⟨rfl, rfl⟩

/-- The second context answers every question like the first one. -/
structure Agrees (c c' : LookupContext) : Prop where
  type? : ∀ name, c'.type? name = c.type? name
  object? : ∀ name, c'.object? name = c.object? name
  castsTo : ∀ S t, c'.castsTo S t = c.castsTo S t
  resolve : ∀ S (q : CastQuery), q.resolve S c'.castGraph = q.resolve S c.castGraph

theorem agrees_of_scopes (h : c'.scopes = c.scopes) : c.Agrees c' := by
  have hgraph : c'.castGraph = c.castGraph := by rw [castGraph, castGraph, h]
  constructor
  · intro name
    rw [LookupContext.type?, h, LookupContext.type?]
  · intro name
    rw [LookupContext.object?, h, LookupContext.object?]
  · intro S t
    rw [LookupContext.castsTo, hgraph, LookupContext.castsTo]
  · intro S q
    rw [hgraph]

end LookupContext

/-! ### Actions -/

/-- What can be done with a context. -/
inductive ContextAction where
  | push
  | pop
  | declare (d : Declaration)
  | sealTypeIds

/-- The number of scopes that are open after some actions, if `depth` are before them and the actions
do not close the outermost of these. -/
def ContextAction.depth : Nat → List ContextAction → Option Nat
  | depth, [] => some depth
  | depth, .push :: rest => ContextAction.depth (depth + 1) rest
  | depth + 2, .pop :: rest => ContextAction.depth (depth + 1) rest
  | _, .pop :: _ => none
  | depth, .declare _ :: rest => ContextAction.depth depth rest
  | depth, .sealTypeIds :: rest => ContextAction.depth depth rest

/-- The numbers of the open scopes, from the innermost outwards. -/
def SharedContext.stack (h : SharedContext) : List Nat := h.current :: h.outer

/-- The forest has every scope of the context, which lists each of them once, and its table. -/
structure SharedContext.Lies (h : SharedContext) (F : ContextForest) : Prop where
  lt : ∀ k ∈ h.stack, k < F.scopes.size
  nodup : h.stack.Nodup
  table : h.table < F.tables.size

theorem SharedContext.Lies.mono {h : SharedContext} {F F' : ContextForest} (hl : h.Lies F)
    (hs : F.scopes.size ≤ F'.scopes.size ∧ F.tables.size ≤ F'.tables.size) : h.Lies F' :=
  ⟨fun k hk => (hl.lt k hk).trans_le hs.1, hl.nodup, hl.table.trans_le hs.2⟩

namespace ContextForest

variable {F F' F₀ : ContextForest} {h h' h₀ g : SharedContext} {hs : List SharedContext}
  {a : ContextAction} {as bs : List ContextAction} {c : LookupContext} {k depth depth' : Nat}

/-- Acts on a context.  A declaration that is refused leaves everything as it is. -/
def act (F : ContextForest) (h : SharedContext) :
    ContextAction → Except InternalError (ContextForest × SharedContext)
  | .push => .ok (F.push h)
  | .pop => do return (F, ← pop h)
  | .declare d =>
    match (F.load h).declare d with
    | .ok c => .ok (F.save h c, h)
    | .error (.error _) => .ok (F, h)
    | .error (.internal e) => .error e
  | .sealTypeIds => .ok (F.save h (F.load h).sealTypeIds, h)

/-- Acts on a context, one action after the other. -/
def run (F : ContextForest) (h : SharedContext) :
    List ContextAction → Except InternalError (ContextForest × SharedContext)
  | [] => .ok (F, h)
  | a :: rest => do
    let (F', h') ← F.act h a
    F'.run h' rest

/-- **The forests and contexts that come about**: contexts are new, copies of others, or modules
derived from others, and each of them is acted on. -/
inductive Reached : ContextForest → List SharedContext → Prop where
  | empty : Reached .empty []
  | new {F : ContextForest} {hs : List SharedContext} (hr : Reached F hs) :
      Reached (F.adopt .new).1 ((F.adopt .new).2 :: hs)
  | copy {F : ContextForest} {hs : List SharedContext} {h : SharedContext} (hr : Reached F hs)
      (hh : h ∈ hs) : Reached F (h :: hs)
  | derive {F : ContextForest} {hs : List SharedContext} {h : SharedContext} (hr : Reached F hs)
      (hh : h ∈ hs) : Reached (F.deriveModule h).1 ((F.deriveModule h).2 :: hs)
  | act {F F' : ContextForest} {hs hs' : List SharedContext} {h h' : SharedContext}
      {a : ContextAction} (hr : Reached F (hs ++ h :: hs')) (ha : F.act h a = .ok (F', h')) :
      Reached F' (hs ++ h' :: hs')

/-! ### Scopes by number -/

theorem scopes_load (F : ContextForest) (h : SharedContext) :
    (F.load h).scopes = h.stack.map F.scope := rfl

theorem scope_push_of_lt (hk : k < F.scopes.size) : (F.push h).1.scope k = F.scope k := by
  simp only [scope, push]
  rw [Array.getElem?_push_lt hk, Array.getElem?_eq_getElem hk]

theorem scope_save_of_ne (hk : k ≠ h.current) : (F.save h c).scope k = F.scope k := by
  simp only [scope, save]
  rw [Array.getElem?_setIfInBounds_ne hk.symm]

theorem scope_save_self (hk : h.current < F.scopes.size) :
    (F.save h c).scope h.current = c.current := by
  simp only [scope, save]
  rw [Array.getElem?_setIfInBounds_self_of_lt hk, Option.getD_some]

theorem size_push : (F.push h).1.scopes.size = F.scopes.size + 1 := Array.size_push _

theorem size_save : (F.save h c).scopes.size = F.scopes.size := Array.size_setIfInBounds

theorem size_tables_save : (F.save h c).tables.size = F.tables.size := Array.size_setIfInBounds

/-- What an action does to the forest and to the context. -/
theorem act_cases (ha : F.act h a = .ok (F', h')) :
    (a = .push ∧ (F', h') = F.push h) ∨
      (a = .pop ∧ F' = F ∧ ∃ s rest, h.outer = s :: rest ∧
        h' = { h with current := s, outer := rest }) ∨
      h' = h ∧ (F' = F ∨ ∃ c, F' = F.save h c) := by
  cases a with
  | push =>
    cases ha
    exact .inl ⟨rfl, rfl⟩
  | pop =>
    obtain ⟨h₁, hpop, ha⟩ := Outcome.bind_ok ha
    cases ha
    unfold pop at hpop
    split at hpop
    · cases hpop
    · rename_i s rest houter
      cases hpop
      exact .inr (.inl ⟨rfl, rfl, s, rest, houter, rfl⟩)
  | declare d =>
    simp only [act] at ha
    split at ha
    · cases ha
      exact .inr (.inr ⟨rfl, .inr ⟨_, rfl⟩⟩)
    · -- what is refused changes nothing
      cases ha
      exact .inr (.inr ⟨rfl, .inl rfl⟩)
    · cases ha
  | sealTypeIds =>
    cases ha
    exact .inr (.inr ⟨rfl, .inr ⟨_, rfl⟩⟩)

/-! ### Contexts lie in their forest -/

theorem size_le_of_act (ha : F.act h a = .ok (F', h')) :
    F.scopes.size ≤ F'.scopes.size ∧ F.tables.size ≤ F'.tables.size := by
  rcases act_cases ha with ⟨-, hpush⟩ | ⟨-, rfl, -⟩ | ⟨-, rfl | ⟨c, rfl⟩⟩
  · cases hpush
    exact ⟨size_push ▸ Nat.le_succ _, le_rfl⟩
  · exact ⟨le_rfl, le_rfl⟩
  · exact ⟨le_rfl, le_rfl⟩
  · exact ⟨size_save.ge, size_tables_save.ge⟩

theorem lies_push (hl : h.Lies F) : (F.push h).2.Lies (F.push h).1 := by
  have hstack : (F.push h).2.stack = F.scopes.size :: h.stack := rfl
  constructor
  · intro k hk
    rw [size_push]
    rw [hstack, List.mem_cons] at hk
    rcases hk with rfl | hk
    · exact Nat.lt_succ_self _
    · exact (hl.lt k hk).trans (Nat.lt_succ_self _)
  · -- the new scope has a number that was not in use
    rw [hstack, List.nodup_cons]
    exact ⟨fun hmem => lt_irrefl _ (hl.lt _ hmem), hl.nodup⟩
  · exact hl.table

theorem lies_act (hl : h.Lies F) (ha : F.act h a = .ok (F', h')) : h'.Lies F' := by
  have hsize := size_le_of_act ha
  rcases act_cases ha with ⟨-, hpush⟩ | ⟨-, rfl, s, rest, houter, rfl⟩ | ⟨rfl, -⟩
  · cases hpush
    exact lies_push hl
  · have hstack : h.stack = h.current :: s :: rest := by rw [SharedContext.stack, houter]
    exact ⟨fun k hk => hl.lt k (hstack ▸ List.mem_cons_of_mem _ hk),
      (List.nodup_cons.1 (hstack ▸ hl.nodup)).2, hl.table⟩
  · exact hl.mono hsize

theorem Reached.lies (hr : F.Reached hs) : ∀ h ∈ hs, h.Lies F := by
  induction hr with
  | empty => simp
  | @new F hs hr ih =>
    intro h hh
    rcases List.mem_cons.1 hh with rfl | hh
    · refine ⟨?_, ?_, ?_⟩ <;> simp [adopt, SharedContext.stack, LookupContext.new]
    · exact (ih h hh).mono ⟨by simp [adopt], by simp [adopt]⟩
  | copy hr hmem ih =>
    intro h hh
    rcases List.mem_cons.1 hh with rfl | hh
    · exact ih _ hmem
    · exact ih h hh
  | @derive F hs h₁ hr hmem ih =>
    intro h hh
    have hroot : (h₁.outer.getLast?).getD h₁.current ∈ h₁.stack := by
      exact List.mem_of_getLast? List.getLast?_cons
    have hl := ih h₁ hmem
    rcases List.mem_cons.1 hh with rfl | hh
    · apply lies_push
      exact ⟨fun k hk => by
        rw [List.mem_singleton.1 hk]
        exact hl.lt _ hroot, List.nodup_singleton _, hl.table⟩
    · exact (ih h hh).mono ⟨size_push ▸ Nat.le_succ _, le_rfl⟩
  | @act F F' hs hs' h₁ h₂ a hr ha ih =>
    intro h hh
    have hsize := size_le_of_act ha
    rcases List.mem_append.1 hh with hh | hh
    · exact (ih h (List.mem_append_left _ hh)).mono hsize
    rcases List.mem_cons.1 hh with rfl | hh
    · exact lies_act (ih h₁ (by simp)) ha
    · exact (ih h (by simp [hh])).mono hsize

/-! ### Within a block -/

/-- The context was `h₀` when the block began, and the block has opened `depth` scopes that are still
open.  All of them are new, and the scopes that were there before are as they were. -/
structure Inside (F₀ : ContextForest) (h₀ : SharedContext) (depth : Nat) (F : ContextForest)
    (h : SharedContext) : Prop where
  stack : ∃ opened : List Nat, h.stack = opened ++ h₀.stack ∧ opened.length = depth ∧
    ∀ k ∈ opened, F₀.scopes.size ≤ k
  kept : ∀ k < F₀.scopes.size, F.scope k = F₀.scope k
  size : F₀.scopes.size ≤ F.scopes.size

namespace Inside

theorem refl (F : ContextForest) (h : SharedContext) : Inside F h 0 F h :=
  ⟨⟨[], rfl, rfl, by simp⟩, fun _ _ => rfl, le_rfl⟩

theorem push (hi : Inside F₀ h₀ depth F h) : Inside F₀ h₀ (depth + 1) (F.push h).1 (F.push h).2 := by
  obtain ⟨opened, hstack, hlength, hnew⟩ := hi.stack
  refine ⟨⟨F.scopes.size :: opened, ?_, by simp [hlength], ?_⟩, fun k hk => ?_, ?_⟩
  · rw [List.cons_append, ← hstack]
    rfl
  · intro k hk
    rcases List.mem_cons.1 hk with rfl | hk
    · exact hi.size
    · exact hnew k hk
  · rw [scope_push_of_lt (hk.trans_le hi.size), hi.kept k hk]
  · rw [size_push]
    exact hi.size.trans (Nat.le_succ _)

/-- A scope that the block opened can be closed. -/
theorem pop (hi : Inside F₀ h₀ (depth + 1) F h) :
    ∃ h', ContextForest.pop h = .ok h' ∧ Inside F₀ h₀ depth F h' := by
  obtain ⟨opened, hstack, hlength, hnew⟩ := hi.stack
  obtain ⟨k, opened, rfl⟩ := List.exists_cons_of_length_eq_add_one hlength
  have houter : h.outer = opened ++ h₀.stack := (List.cons.inj hstack).2
  have hne : h.outer ≠ [] := by simp [houter, SharedContext.stack]
  obtain ⟨s, rest, hrest⟩ := List.exists_cons_of_ne_nil hne
  refine ⟨{ h with current := s, outer := rest }, ?_, ⟨opened, ?_, by simpa using hlength,
    fun j hj => hnew j (List.mem_cons_of_mem _ hj)⟩, hi.kept, hi.size⟩
  · rw [ContextForest.pop, hrest]
  · exact hrest.symm.trans houter

/-- What is written to the innermost scope goes to a new one. -/
theorem save (hi : Inside F₀ h₀ (depth + 1) F h) (c : LookupContext) :
    Inside F₀ h₀ (depth + 1) (F.save h c) h := by
  obtain ⟨opened, hstack, hlength, hnew⟩ := hi.stack
  refine ⟨⟨opened, hstack, hlength, hnew⟩, fun k hk => ?_, hi.size.trans size_save.ge⟩
  -- the innermost scope is one that the block opened
  have hcurrent : F₀.scopes.size ≤ h.current := by
    obtain ⟨j, opened, rfl⟩ := List.exists_cons_of_length_eq_add_one hlength
    rw [(List.cons.inj hstack).1]
    exact hnew j List.mem_cons_self
  rw [scope_save_of_ne (hk.trans_le hcurrent).ne, hi.kept k hk]

/-- **Actions stay within the block** as long as they do not close it, and they are not stopped by
closing too many scopes. -/
theorem run (hi : Inside F₀ h₀ (depth + 1) F h)
    (hd : ContextAction.depth (depth + 1) as = some depth') :
    F.run h as ≠ .error .rootScopePopped ∧
      ∀ F' h', F.run h as = .ok (F', h') → Inside F₀ h₀ depth' F' h' := by
  -- the depth before each action is positive, so that a block's scope is always the innermost one
  induction as generalizing F h depth with
  | nil =>
    cases hd
    refine ⟨nofun, fun F' h' hrun => ?_⟩
    cases hrun
    exact hi
  | cons a as ih =>
    cases a with
    | push => exact ih hi.push hd
    | pop =>
      cases depth with
      | zero => cases hd
      | succ depth =>
        obtain ⟨h', hpop, hi'⟩ := hi.pop
        simp only [ContextForest.run, act, hpop]
        exact ih hi' hd
    | declare d =>
      cases hdeclare : (F.load h).declare d with
      | ok c =>
        simp only [ContextForest.run, act, hdeclare]
        exact ih (hi.save c) hd
      | error e =>
        cases e with
        | error e =>
          simp only [ContextForest.run, act, hdeclare]
          exact ih hi hd
        | internal e =>
          simp only [ContextForest.run, act, hdeclare]
          refine ⟨?_, nofun⟩
          rintro he
          cases he
          exact absurd hdeclare LookupContext.declare_ne_rootScopePopped
    | sealTypeIds => exact ih (hi.save _) hd

/-- The scopes around the block are as they were. -/
theorem scopes_eq (hi : Inside F₀ h₀ depth F h) (hl : h₀.Lies F₀) :
    ∃ inner : List Scope, inner.length = depth ∧
      (F.load h).scopes = inner ++ (F₀.load h₀).scopes := by
  obtain ⟨opened, hstack, hlength, -⟩ := hi.stack
  refine ⟨opened.map F.scope, by simp [hlength], ?_⟩
  rw [scopes_load, scopes_load, hstack, List.map_append]
  congr 1
  exact List.map_congr_left fun k hk => hi.kept k (hl.lt k hk)

/-- After the block, its context answers as before. -/
theorem agrees (hi : Inside F₀ h₀ 0 F h) (hl : h₀.Lies F₀) : (F₀.load h₀).Agrees (F.load h) := by
  obtain ⟨inner, hlength, hscopes⟩ := hi.scopes_eq hl
  rw [List.length_eq_zero_iff.1 hlength] at hscopes
  exact LookupContext.agrees_of_scopes hscopes

/-- The other contexts answer as before all the time. -/
theorem agrees_of_lies (hi : Inside F₀ h₀ depth F h) (hg : g.Lies F₀) :
    (F₀.load g).Agrees (F.load g) := by
  apply LookupContext.agrees_of_scopes
  rw [scopes_load, scopes_load]
  exact List.map_congr_left fun k hk => hi.kept k (hg.lt k hk)

end Inside

theorem run_append : F.run h (as ++ bs) = (do
    let (F', h') ← F.run h as
    F'.run h' bs) := by
  induction as generalizing F h with
  | nil => rfl
  | cons a as ih =>
    simp only [List.cons_append, run, bind_assoc, ih]

/-- **A block that is opened and closed** leaves the scopes as they were. -/
theorem inside_of_block (hdepth : ContextAction.depth 1 as = some 1) :
    F.run h (.push :: as ++ [.pop]) ≠ .error .rootScopePopped ∧
      ∀ F' h', F.run h (.push :: as ++ [.pop]) = .ok (F', h') → Inside F h 0 F' h' := by
  obtain ⟨hsafe, hinside⟩ := (Inside.refl F h).push.run hdepth
  have happend : F.run h (.push :: as ++ [.pop]) = (do
      let (F', h') ← (F.push h).1.run (F.push h).2 as
      F'.run h' [.pop]) := run_append
  rw [happend]
  cases hrun : (F.push h).1.run (F.push h).2 as with
  | error e =>
    refine ⟨fun he => hsafe ?_, nofun⟩
    cases he
    exact hrun
  | ok result =>
    obtain ⟨F₁, h₁⟩ := result
    -- the block's own scope is still open, so the last action closes it
    obtain ⟨h₂, hpop, hi⟩ := (hinside F₁ h₁ hrun).pop
    have hlast : F₁.run h₁ [.pop] = .ok (F₁, h₂) := by
      simp only [run, act, hpop]
      rfl
    refine ⟨?_, fun F' h' hend => ?_⟩
    · intro he
      exact nomatch hlast.symm.trans he
    · cases hlast.symm.trans hend
      exact hi

/-- What is put back is what the context then is. -/
theorem load_save (hl : h.Lies F) (houter : c.outer = (F.load h).outer)
    (hlabel : c.nextLabel = h.nextLabel) : (F.save h c).load h = c := by
  have hfresh : h.current ∉ h.outer := (List.nodup_cons.1 hl.nodup).1
  have hmap : h.outer.map (F.save h c).scope = c.outer := by
    rw [houter]
    exact List.map_congr_left fun k hk => scope_save_of_ne fun heq => hfresh (heq ▸ hk)
  have htable : (F.save h c).tables[h.table]?.getD .empty = c.typeIds := by
    simp only [save]
    rw [Array.getElem?_setIfInBounds_self_of_lt hl.table, Option.getD_some]
  simp only [load, scope_save_self (hl.lt _ List.mem_cons_self), hmap, htable, ← hlabel]

/-- **Scopes nest.**  Let a context be reached by any operations on any contexts.  If it opens a scope
and closes it again, whatever it does in between in the scope and further inside, every context answers
every question as before.  In between, the scopes around are as they were, and names that mean nothing
further inside are looked up there.  What is declared in the innermost scope hides what its name stood
for, and leaves every other name alone. -/
theorem scopes_nest (hr : F.Reached hs) (hh : h ∈ hs) :
    (∀ as, ContextAction.depth 1 as = some 1 →
      F.run h (.push :: as ++ [.pop]) ≠ .error .rootScopePopped ∧
      ∀ F' h', F.run h (.push :: as ++ [.pop]) = .ok (F', h') →
        (F.load h).Agrees (F'.load h') ∧ ∀ g ∈ hs, (F.load g).Agrees (F'.load g)) ∧
    (∀ as depth F' h', ContextAction.depth 1 as = some depth →
      F.run h (.push :: as) = .ok (F', h') →
        ∃ inner : List Scope, inner.length = depth ∧
          (F'.load h').scopes = inner ++ (F.load h).scopes ∧
          ∀ name,
            (F'.load h').type? name = (inner.findSome? (·.type? name)).or ((F.load h).type? name) ∧
            (F'.load h').object? name =
              (inner.findSome? (·.object? name)).or ((F.load h).object? name)) ∧
    ∀ d c, (F.load h).declare d = .ok c → ∀ name,
      ((F.save h c).load h).type? name = (d.type? name).or ((F.load h).type? name) ∧
      ((F.save h c).load h).object? name =
        (d.object? (F.load h).current name).or ((F.load h).object? name) := by
  have hl := hr.lies h hh
  refine ⟨fun as hdepth => ?_, fun as depth F' h' hdepth hrun => ?_, fun d c hdeclare name => ?_⟩
  · obtain ⟨hsafe, hinside⟩ := inside_of_block (F := F) (h := h) hdepth
    refine ⟨hsafe, fun F' h' hrun => ?_⟩
    have hi := hinside F' h' hrun
    exact ⟨hi.agrees hl, fun g hg => hi.agrees_of_lies (hr.lies g hg)⟩
  · obtain ⟨inner, hlength, hscopes⟩ :=
      (((Inside.refl F h).push.run hdepth).2 F' h' hrun).scopes_eq hl
    refine ⟨inner, hlength, hscopes, fun name => ?_⟩
    simp only [LookupContext.type?, LookupContext.object?, hscopes, List.findSome?_append, and_self]
  · obtain ⟨-, houter, hlabel, -⟩ := LookupContext.declare_ok hdeclare
    rw [load_save hl houter hlabel]
    exact LookupContext.lookup_of_declare hdeclare name

/-- A block that declares the variable of the scope around it anew, twice, and reserves a name further
inside: within the block the name stands for the block's variable, afterwards for the one around. -/
theorem scopes_nest_hidden :
    let outside : Variable :=
      ⟨"x", .ofScalar ⟨"U8", 1, 1, .unsignedInt, 0, 1⟩, ⟨1⟩, none, ⟨0, 0, ""⟩⟩
    let inside : Variable := { outside with id := ⟨2⟩ }
    let body : List ContextAction := [.declare (.addVariable inside), .declare (.addVariable inside),
      .push, .declare (.reserve "f")]
    let F : ContextForest := ⟨#[⟨0, [], [("x", .variable outside)], []⟩], #[.empty]⟩
    let h : SharedContext := ⟨0, [], 0, 1⟩
    F.Reached [h] ∧
      (∃ F₁ h₁, F.run h (.push :: body) = .ok (F₁, h₁) ∧
        (F₁.load h₁).object? "x" = some (.variable inside)) ∧
      ∃ F₂ h₂, F.run h (.push :: (body ++ [.pop]) ++ [.pop]) = .ok (F₂, h₂) ∧
        (F.load h).Agrees (F₂.load h₂) ∧ (F₂.load h₂).object? "x" = some (.variable outside) := by
  intro outside inside body F h
  have hnew : Reached ⟨#[.empty 0], #[.empty]⟩ ([] ++ h :: []) := .new .empty
  have hr : F.Reached ([] ++ h :: []) := .act (a := .declare (.addVariable outside)) hnew rfl
  obtain ⟨hafter, -, -⟩ := scopes_nest hr List.mem_cons_self
  refine ⟨hr, ⟨_, _, rfl, rfl⟩, _, _, rfl, ?_, rfl⟩
  exact ((hafter (body ++ [.pop]) rfl).2 _ _ rfl).1

end ContextForest

end RangeTyping
