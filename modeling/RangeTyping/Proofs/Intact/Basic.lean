import RangeTyping.Proofs.Outcome

/-!
# Computations that break no invariant

A computation is *intact* (`Outcome.Intact`) if it ends in a value or in a recoverable error, but
not in an internal error.  A sequence of steps is intact if each step is, given that the steps
before it ended well (`Intact.bind`); so the lemmas about successful steps can be used to show that
the next step is intact.

A computation without recoverable errors is intact if it has a value (`Intact.ofInternal`).
-/

namespace RangeTyping

/-- The computation does not end in an internal error. -/
def Outcome.Intact {ε α : Type} : Outcome ε α → Prop
  | .error (.internal _) => False
  | _ => True

namespace Outcome.Intact

variable {ε δ α β : Type}

/-- **A sequence is intact if its steps are.** -/
theorem bind {x : Outcome ε α} {f : α → Outcome ε β} (hx : Intact x)
    (hf : ∀ a, x = .ok a → Intact (f a)) : Intact (x >>= f) := by
  cases x with
  | ok a => exact hf a rfl
  | error failure =>
    cases failure with
    | internal e => exact hx
    | error e => trivial

/-- What has a value breaks no invariant. -/
theorem ofInternal {x : Except InternalError α} (h : ∃ a, x = .ok a) :
    Intact (Outcome.ofInternal x : Outcome ε α) := by
  obtain ⟨a, rfl⟩ := h
  trivial

theorem mapError {x : Outcome ε α} (f : ε → δ) (hx : Intact x) : Intact (x.mapError f) := by
  cases x with
  | ok a => trivial
  | error failure =>
    cases failure with
    | internal e => exact hx
    | error e => trivial

end Outcome.Intact

/-! ### Steps of an analysis -/

namespace Analysis

variable {α β : Type} {s : Fresh}

/-- A sequence of steps is intact if its steps are. -/
theorem intact_bind {x : Analysis α} {f : α → Analysis β} (hx : Outcome.Intact (x s))
    (hf : ∀ a t, x s = .ok (a, t) → Outcome.Intact (f a t)) : Outcome.Intact ((x >>= f) s) :=
  Outcome.Intact.bind hx fun p hp => hf p.1 p.2 hp

theorem intact_freshValue : Outcome.Intact (freshValue s) := trivial

theorem intact_freshPoint : Outcome.Intact (freshPoint s) := trivial

theorem intact_lift {x : Outcome Diagnostic α} (h : Outcome.Intact x) :
    Outcome.Intact ((liftM x : Analysis α) s) :=
  Outcome.Intact.bind h fun _ _ => trivial

theorem intact_liftInternal {x : Except InternalError α} (h : ∃ a, x = .ok a) :
    Outcome.Intact ((liftM x : Analysis α) s) :=
  Outcome.Intact.bind (.ofInternal h) fun _ _ => trivial

/-- An identity that is drawn unless it is known already. -/
theorem intact_drawUnless {c : Prop} [Decidable c] {i : ValueId} {f : ValueId → Analysis β}
    (hf : ∀ id t, Outcome.Intact (f id t)) :
    Outcome.Intact ((if c then (pure i >>= f) else (freshValue >>= f)) s) := by
  split
  · exact hf i s
  · exact hf _ _

/-- An attempt at an intact step has a result. -/
theorem intact_attempt {x : Analysis α} (h : Outcome.Intact (x s)) :
    Outcome.Intact (x.attempt s) := by
  unfold attempt
  match hx : x s with
  | .ok (a, t) => trivial
  | .error (.error d) => trivial
  | .error (.internal e) =>
    rw [hx] at h
    exact h

end Analysis

/-- **A run over a list of items has a result**, if in the states that a run goes through every step
is intact. -/
theorem collect_total {σ α β : Type} {step : σ → α → Outcome Diagnostic (β × σ)} {I : σ → Prop}
    {as : List α} {s : σ} (hstart : I s) (hintact : ∀ s a, a ∈ as → I s → (step s a).Intact)
    (hstep : ∀ s a b s', a ∈ as → I s → step s a = .ok (b, s') → I s') :
    ∃ r, collect step s as = .ok r := by
  induction as generalizing s with
  | nil => exact ⟨_, rfl⟩
  | cons a as ih =>
    have hrest : ∀ s, I s → ∃ r, collect step s as = .ok r := fun s hs =>
      ih hs (fun s a' ha' => hintact s a' (List.mem_cons_of_mem a ha'))
        fun s a' b s' ha' => hstep s a' b s' (List.mem_cons_of_mem a ha')
    rw [collect]
    split
    · rename_i e he
      have hno := hintact s a (List.mem_cons_self ..) hstart
      rw [he] at hno
      exact hno.elim
    · -- after a diagnostic the run goes on from the same state
      obtain ⟨⟨results, diagnostics, t⟩, hr⟩ := hrest s hstart
      rw [hr]
      exact ⟨_, rfl⟩
    · rename_i b s' hs
      obtain ⟨⟨results, diagnostics, t⟩, hr⟩ :=
        hrest s' (hstep s a b s' (List.mem_cons_self ..) hstart hs)
      rw [hr]
      exact ⟨_, rfl⟩

end RangeTyping
