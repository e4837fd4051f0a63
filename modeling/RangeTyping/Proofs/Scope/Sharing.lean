import Mathlib
import RangeTyping.Proofs.Isolation.Root

/-!
# By value and with shared scopes

The analysis hands its contexts on by value: a block works in a copy that has one scope more, and what
stands behind the block goes on with the context from before it (`Env.enter`).  Shared contexts open a
scope, write to it and close it.  Both come to the same.  Every context that an analysis works in is the
plain context behind a shared one, which comes from the module's by opening scopes and declaring
(`LookupContext.Met.leadsTo`).  From there a block runs over the shared scopes as it is analysed, and
closing its scope gives back the scopes that the analysis goes on with (`ContextForest.Behind.block`).
So `ContextForest.scopes_nest` holds of the contexts of the analysis.
-/

namespace RangeTyping

namespace ContextForest

variable {F F' : ContextForest} {h h' : SharedContext} {c c' : LookupContext} {d : Declaration}
  {as bs : List ContextAction}

/-- The shared context lies in the forest, and `c` is the plain context behind it. -/
structure Behind (F : ContextForest) (h : SharedContext) (c : LookupContext) : Prop where
  lies : h.Lies F
  load : F.load h = c

theorem run_trans (hrun : F.run h as = .ok (F', h')) : F.run h (as ++ bs) = F'.run h' bs := by
  rw [run_append, hrun]
  rfl

/-- A context with a single scope is behind its shared form. -/
theorem behind_adopt (F : ContextForest) (hc : c.outer = []) :
    (F.adopt c).1.Behind (F.adopt c).2 c := by
  refine ⟨⟨?_, List.nodup_singleton _, ?_⟩, ?_⟩
  · simp [adopt, SharedContext.stack]
  · simp [adopt]
  · cases c
    cases hc
    simp [adopt, load, scope]

namespace Behind

/-- **Opening a scope** by value and over shared scopes. -/
theorem push (hb : F.Behind h c) : (F.push h).1.Behind (F.push h).2 c.push := by
  refine ⟨lies_push hb.lies, ?_⟩
  have houter : (h.current :: h.outer).map (F.push h).1.scope = c.scopes := by
    rw [← hb.load, scopes_load]
    exact List.map_congr_left fun k hk => scope_push_of_lt (hb.lies.lt k hk)
  have hcurrent : (F.push h).1.scope F.scopes.size = .empty c.nextLabel := by
    rw [← hb.load]
    simp [ContextForest.push, scope, LookupContext.push]
  rw [LookupContext.push, ← houter, ← hcurrent, ← hb.load]
  rfl

/-- **A declaration** by value and over shared scopes. -/
theorem declare (hb : F.Behind h c) (hd : c.declare d = .ok c') :
    ∃ F', F.act h (.declare d) = .ok (F', h) ∧ F'.Behind h c' := by
  obtain ⟨-, houter, hlabel, -⟩ := LookupContext.declare_ok hd
  rw [← hb.load] at hd houter hlabel
  refine ⟨F.save h c', ?_, hb.lies.mono ⟨size_save.ge, size_tables_save.ge⟩,
    load_save hb.lies houter hlabel⟩
  simp only [act, hd]

/-- Declarations one after the other. -/
theorem registers (hb : F.Behind h c) (hr : c.Registers c') :
    ∃ (ds : List Declaration) (F' : ContextForest),
      F.run h (ds.map .declare) = .ok (F', h) ∧ F'.Behind h c' := by
  induction hr with
  | refl => exact ⟨[], F, rfl, hb⟩
  | tail _ hstep ih =>
    obtain ⟨d, -, hd⟩ := hstep
    obtain ⟨ds, F₁, hrun, hb₁⟩ := ih
    obtain ⟨F₂, hact, hb₂⟩ := hb₁.declare hd
    refine ⟨ds ++ [d], F₂, ?_, hb₂⟩
    rw [List.map_append, run_trans hrun]
    simp only [List.map_cons, List.map_nil, run, hact]
    rfl

end Behind

theorem depth_declarations (ds : List Declaration) (depth : Nat) :
    ContextAction.depth depth (ds.map .declare) = some depth := by
  induction ds with
  | nil => rfl
  | cons d ds ih => exact ih

/-- **A block that is analysed** from the context behind `h` runs over the shared scopes.  It opens its
scope and declares its variables there, as it does by value.  Closing the scope gives back the scopes
that the analysis goes on with, and changes none for the other contexts. -/
theorem Behind.block {env inner : Env} {sources : List Source.Stmt} {ss : List TypedStmt}
    {s s' : Fresh} (hb : F.Behind h env.context)
    (hss : env.enter.statements sources s = .ok ((ss, inner), s')) :
    ∃ (ds : List Declaration) (F' : ContextForest) (h' h'' : SharedContext),
      F.run h (.push :: ds.map .declare) = .ok (F', h') ∧ F'.Behind h' inner.context ∧
      F.run h (.push :: ds.map .declare ++ [.pop]) = .ok (F', h'') ∧
      (F'.load h'').scopes = env.context.scopes ∧
      ∀ g : SharedContext, g.Lies F → (F'.load g).scopes = (F.load g).scopes := by
  obtain ⟨ds, F', hrun, hb'⟩ := hb.push.registers (Env.registers_statements hss)
  have hopen : F.run h (.push :: ds.map .declare) = .ok (F', (F.push h).2) := hrun
  have hi := ((Inside.refl F h).push.run (depth_declarations ds 1)).2 _ _ hrun
  obtain ⟨h'', hpop, hi'⟩ := hi.pop
  refine ⟨ds, F', _, h'', hopen, hb', ?_, ?_, fun g hg => ?_⟩
  · rw [run_trans hopen]
    simp only [run, act, hpop]
    rfl
  · obtain ⟨closed, hlength, hscopes⟩ := hi'.scopes_eq hb.lies
    rw [hscopes, List.length_eq_zero_iff.1 hlength, hb.load]
    rfl
  · rw [scopes_load, scopes_load]
    exact List.map_congr_left fun k hk => hi'.kept k (hg.lt k hk)

/-! ### The contexts of an analysis -/

/-- Actions on the shared context lead to one that `c` is behind. -/
def LeadsTo (F : ContextForest) (h : SharedContext) (c : LookupContext) : Prop :=
  ∃ as F' h', F.run h as = .ok (F', h') ∧ F'.Behind h' c

theorem LeadsTo.push (hl : F.LeadsTo h c) : F.LeadsTo h c.push := by
  obtain ⟨as, F', h', hrun, hb⟩ := hl
  exact ⟨as ++ [.push], _, _, run_trans hrun, hb.push⟩

theorem LeadsTo.registers (hl : F.LeadsTo h c) (hr : c.Registers c') : F.LeadsTo h c' := by
  obtain ⟨as, F', h', hrun, hb⟩ := hl
  obtain ⟨ds, F'', hdeclare, hb'⟩ := hb.registers hr
  exact ⟨as ++ ds.map .declare, F'', h', (run_trans hrun).trans hdeclare, hb'⟩

/-- The shared context of a new module, over the scope of the builtins. -/
def ofModule (b : Builtins) : ContextForest × SharedContext :=
  let (F, root) := empty.adopt b.root
  F.deriveModule root

end ContextForest

/-- **Every context of an analysis is behind a shared one**, to which opening scopes and declaring lead
from the module's. -/
theorem LookupContext.Met.leadsTo {cookie : Registration → Nat} {c : LookupContext}
    (hc : c.Met (.prepare cookie)) :
    (ContextForest.ofModule (.prepare cookie)).1.LeadsTo
      (ContextForest.ofModule (.prepare cookie)).2 c := by
  induction hc with
  | module => exact ⟨[], _, _, rfl, (ContextForest.behind_adopt _ rfl).push⟩
  | structs _ hstage ih => exact ih.registers (.declareStructs hstage)
  | functions _ hstage ih => exact ih.registers (.registerFunctions hstage)
  | enter _ ih => exact ih.push
  | parameters _ hps ih => exact ih.registers (Env.registers_parameterList hps)
  | statement _ hst ih => exact ih.registers (Env.registers_statement hst)

end RangeTyping
