import Mathlib.Init

/-!
# Runs of labelled transition systems

A system is a relation between a state, an event and the next state.  `Run`
lists the events that lead from one state to another, and an invariant is
carried along a run by showing that every step keeps it.
-/

namespace Basis

variable {σ ε : Type}

/-- The events lead from the first state to the last. -/
inductive Run (step : σ → ε → σ → Prop) : σ → List ε → σ → Prop where
  | refl (state : σ) : Run step state [] state
  | step {first second last : σ} {event : ε} {events : List ε} :
      step first event second → Run step second events last →
      Run step first (event :: events) last

/-- The steps of a system whose events meet a condition on the state before
them. -/
def Restricted (step : σ → ε → σ → Prop) (allowed : σ → ε → Prop) :
    σ → ε → σ → Prop :=
  fun state event next => allowed state event ∧ step state event next

namespace Run

variable {step : σ → ε → σ → Prop} {first last : σ} {events : List ε}

/-- What every step keeps holds at the end of a run. -/
theorem invariant {holds : σ → Prop}
    (kept : ∀ state event next, holds state → step state event next →
      holds next)
    (run : Run step first events last) (initially : holds first) :
    holds last := by
  induction run with
  | refl state => exact initially
  | step taken run induction => exact induction (kept _ _ _ initially taken)

theorem restricted_invariant {allowed : σ → ε → Prop} {holds : σ → Prop}
    (run : Run (Restricted step allowed) first events last)
    (initially : holds first)
    (kept : ∀ state event next, allowed state event →
      step state event next → holds state → holds next) : holds last :=
  run.invariant
    (fun _ _ _ held ⟨permitted, taken⟩ => kept _ _ _ permitted taken held)
    initially

/-- What every step keeps of a state and the events before it holds at the end
of a run, of all the events. -/
theorem history {holds : List ε → σ → Prop}
    (kept : ∀ past state event next, holds past state →
      step state event next → holds (past ++ [event]) next)
    (run : Run step first events last) (past : List ε)
    (initially : holds past first) : holds (past ++ events) last := by
  induction run generalizing past with
  | refl state => simpa using initially
  | step taken run induction =>
      simpa using induction _ (kept past _ _ _ initially taken)

/-- A system whose steps are steps of another one, as far as the two states are
related, has its runs. -/
theorem simulates {τ : Type} {spec : τ → ε → τ → Prop} {related : σ → τ → Prop}
    (simulated : ∀ state other event next, related state other →
      step state event next →
      ∃ otherNext, spec other event otherNext ∧ related next otherNext)
    (run : Run step first events last) {other : τ}
    (initially : related first other) :
    ∃ otherLast, Run spec other events otherLast ∧ related last otherLast := by
  induction run generalizing other with
  | refl state => exact ⟨other, .refl other, initially⟩
  | step taken run induction =>
      obtain ⟨otherNext, specTaken, relatedNext⟩ :=
        simulated _ _ _ _ initially taken
      obtain ⟨otherLast, specRun, relatedLast⟩ := induction relatedNext
      exact ⟨otherLast, .step specTaken specRun, relatedLast⟩

theorem forall_events {shows : ε → Prop}
    (shown : ∀ state event next, step state event next → shows event)
    (run : Run step first events last) : ∀ event ∈ events, shows event := by
  induction run with
  | refl state => exact fun _ member => absurd member List.not_mem_nil
  | step taken run induction =>
      intro event member
      rcases List.mem_cons.mp member with rfl | later
      · exact shown _ _ _ taken
      · exact induction event later

/-- The events that use up some of the work of a state, while the others do not
make it more, are not more than there is work. -/
theorem countP_add_le {work : σ → Nat} {uses : ε → Bool}
    (used : ∀ state event next, step state event next →
      work next + (uses event).toNat ≤ work state)
    (run : Run step first events last) :
    events.countP uses + work last ≤ work first := by
  induction run with
  | refl state => exact Nat.le_of_eq (Nat.zero_add _)
  | @step first second last event events taken run induction =>
      have less := used _ _ _ taken
      have counted : (event :: events).countP uses =
          events.countP uses + (uses event).toNat := by
        rw [List.countP_cons]
        cases uses event <;> rfl
      omega

theorem length_le {work : σ → Nat}
    (decreases : ∀ state event next, step state event next →
      work next < work state)
    (run : Run step first events last) : events.length ≤ work first := by
  have counted : events.countP (fun _ => true) + work last ≤ work first :=
    run.countP_add_le decreases
  rw [List.countP_true] at counted
  omega

end Run

end Basis
