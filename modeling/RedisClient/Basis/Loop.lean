import RedisClient.Basis.Outcome

/-!
# Loops over outcomes

A loop is given by one turn: its test, and its body where the test succeeds.
`loop` evaluates it with a bound on the number of turns, and `Turns` counts how
often a state goes round.  A loop whose state has a measure that every turn
decreases needs no bound.
-/

namespace Basis

/-- How one turn of a loop ends. -/
inductive Turn (σ ρ : Type) where
  | again (state : σ)
  | leave (result : ρ)

/-- The state a turn goes on with, or the result it leaves with. -/
def Turn.Keeps {σ ρ : Type} (holds : σ → Prop) (ends : ρ → Prop) :
    Turn σ ρ → Prop
  | .again next => holds next
  | .leave result => ends result

namespace Outcome

variable {ε σ ρ : Type} {turn : σ → Outcome ε (Turn σ ρ)}

/-- Take turns until one leaves the loop. -/
def loop (turn : σ → Outcome ε (Turn σ ρ)) : Nat → σ → Outcome ε ρ
  | 0, _ => .exhausted
  | fuel + 1, state => do
      match ← turn state with
      | .again next => loop turn fuel next
      | .leave result => .returns result

/-- `Turns turn count first last`: exactly `count` turns lead from one state to
the other. -/
inductive Turns (turn : σ → Outcome ε (Turn σ ρ)) : Nat → σ → σ → Prop where
  | refl (state : σ) : Turns turn 0 state state
  | step {count : Nat} {first second last : σ} :
      turn first = .returns (.again second) → Turns turn count second last →
      Turns turn (count + 1) first last

theorem loop_succ_of_again {fuel : Nat} {state next : σ}
    (taken : turn state = .returns (.again next)) :
    loop turn (fuel + 1) state = loop turn fuel next := by
  simp [loop, taken]

theorem loop_succ_of_leave {fuel : Nat} {state : σ} {result : ρ}
    (left : turn state = .returns (.leave result)) :
    loop turn (fuel + 1) state = .returns result := by
  simp [loop, left]

/-- A loop that leaves after `count` turns does so for every larger bound and
for no smaller one. -/
theorem Turns.loop_eq {count : Nat} {first last : σ} {result : ρ}
    (turns : Turns turn count first last)
    (left : turn last = .returns (.leave result)) (fuel : Nat) :
    loop turn fuel first =
      if fuel ≤ count then .exhausted else .returns result := by
  induction turns generalizing fuel with
  | refl state =>
      cases fuel with
      | zero => rfl
      | succ fuel => simp [loop_succ_of_leave left]
  | step taken later induction =>
      cases fuel with
      | zero => simp [loop]
      | succ fuel =>
          rw [loop_succ_of_again taken, induction left fuel]
          simp only [Nat.add_le_add_iff_right]

theorem Turns.loop_add {count : Nat} {first last : σ}
    (turns : Turns turn count first last) (fuel : Nat) :
    loop turn (count + fuel) first = loop turn fuel last := by
  induction turns with
  | refl state => rw [Nat.zero_add]
  | step taken later induction =>
      rw [Nat.add_right_comm, loop_succ_of_again taken, induction]

theorem Turns.snoc {count : Nat} {first second last : σ}
    (turns : Turns turn count first second)
    (taken : turn second = .returns (.again last)) :
    Turns turn (count + 1) first last := by
  induction turns with
  | refl state => exact .step taken (.refl last)
  | step before later induction => exact .step before (induction taken)

/-- A loop that returns has returned from every state on its way. -/
theorem Turns.loop_of_returns {count fuel : Nat} {first last : σ}
    {result : ρ} (turns : Turns turn count first last)
    (run : loop turn fuel first = .returns result) :
    ∃ left, loop turn left last = .returns result := by
  induction turns generalizing fuel with
  | refl state => exact ⟨fuel, run⟩
  | step taken later induction =>
      cases fuel with
      | zero => cases run
      | succ fuel =>
          rw [loop_succ_of_again taken] at run
          exact induction run

/-- What every turn keeps holds where the loop is left. -/
theorem loop_invariant {holds : σ → Prop} {ends : ρ → Prop}
    (kept : ∀ state, holds state →
      (turn state).Meets True (Turn.Keeps holds ends))
    (fuel : Nat) {state : σ} (initially : holds state) :
    (loop turn fuel state).Meets True ends := by
  induction fuel generalizing state with
  | zero => trivial
  | succ fuel induction =>
      apply (kept state initially).bind
      intro ended keeps
      cases ended with
      | again next => exact induction keeps
      | leave result => exact keeps

/-- A loop with a decreasing measure ends within that many turns and one. -/
theorem loop_ne_exhausted (measure : σ → Nat)
    (decreases : ∀ state, (turn state).Meets False
      (Turn.Keeps (fun next => measure next < measure state) fun _ => True))
    {fuel : Nat} {state : σ} (enough : measure state < fuel) :
    loop turn fuel state ≠ .exhausted := by
  have ends : (loop turn fuel state).Meets False fun _ => True := by
    induction fuel generalizing state with
    | zero => omega
    | succ fuel induction =>
        apply (decreases state).bind
        intro ended smaller
        cases ended with
        | again next =>
            have less : measure next < measure state := smaller
            exact induction (by omega)
        | leave result => trivial
  exact ends.ne_exhausted id

end Outcome

end Basis
