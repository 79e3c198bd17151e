import RedisClient.ReplyLoop

/-!
# The replies in a buffer

`decodedFrom` lists what the loops over `load_data` take out of a buffer,
whatever they do with it.  Where a loop ends at `end`, it has handled exactly
these replies.
-/

namespace RedisClient

open Basis

/-- The replies of at most `fuel` turns. -/
def decodedFuel (memory : Bytes) (stop : Nat) : Nat → Nat → List Reply
  | 0, _ => []
  | fuel + 1, it =>
      if it = stop then []
      else
        match loadData memory stop it with
        | .returns (reply, next) => reply :: decodedFuel memory stop fuel next
        | _ => []

/-- The replies from `it` on, up to `end` or to the first call of `load_data`
that does not return. -/
def decodedFrom (memory : Bytes) (stop it : Nat) : List Reply :=
  decodedFuel memory stop (memory.length + 1) it

section Equations

variable {memory : Bytes} {stop it : Nat}

private theorem decodedFuel_succ {fuel : Nat} (positive : 0 < fuel)
    (enough : it ≠ stop → memory.length < fuel + it) :
    decodedFuel memory stop fuel it =
      decodedFuel memory stop (fuel + 1) it := by
  induction fuel generalizing it with
  | zero => cases positive
  | succ fuel induction =>
      by_cases atStop : it = stop
      · simp [decodedFuel, atStop]
      · rw [decodedFuel, decodedFuel, if_neg atStop, if_neg atStop]
        cases run : loadData memory stop it with
        | returns loaded =>
            obtain ⟨reply, next⟩ := loaded
            obtain ⟨inside, advances⟩ := loadData_progress atStop run
            have room := enough atStop
            have roomLater : next ≠ stop → memory.length < fuel + next := by
              intro notStop
              have forward := advances.resolve_left notStop
              omega
            simp only [induction (by omega) roomLater]
        | throws exception => rfl
        | faults position => rfl
        | exhausted => rfl

@[simp] theorem decodedFrom_stop (memory : Bytes) (stop : Nat) :
    decodedFrom memory stop stop = [] := by
  simp [decodedFrom, decodedFuel]

theorem decodedFrom_of_returns (notStop : it ≠ stop) {reply : Reply}
    {next : Nat} (run : loadData memory stop it = .returns (reply, next)) :
    decodedFrom memory stop it = reply :: decodedFrom memory stop next := by
  obtain ⟨inside, advances⟩ := loadData_progress notStop run
  have room : next ≠ stop → memory.length < memory.length + next := by
    intro nextNotStop
    have forward := advances.resolve_left nextNotStop
    omega
  rw [decodedFrom, decodedFuel, if_neg notStop, run]
  simp only
  rw [decodedFuel_succ (by omega) room]
  rfl

theorem decodedFrom_of_not_returns (notStop : it ≠ stop)
    (broken : ∀ loaded, loadData memory stop it ≠ .returns loaded) :
    decodedFrom memory stop it = [] := by
  rw [decodedFrom, decodedFuel, if_neg notStop]
  cases run : loadData memory stop it with
  | returns loaded => exact absurd run (broken loaded)
  | throws exception => rfl
  | faults position => rfl
  | exhausted => rfl

end Equations

/-- A loop that ends without an error has accepted the decoded replies in
turn. -/
theorem replyLoop_decoded {σ : Type} {accept : σ → Reply → σ × ErrorCode}
    {memory : Bytes} {stop it fuel next : Nat} {state final : σ}
    {code : ErrorCode}
    (run : Outcome.loop (replyTurn accept memory stop) fuel (state, it) =
      .returns (final, code, next)) (success : code.isError = false) :
    acceptAll accept state (decodedFrom memory stop it) = some final := by
  let holds (current : σ × Nat) : Prop :=
    acceptAll accept state (decodedFrom memory stop it) =
      acceptAll accept current.1 (decodedFrom memory stop current.2)
  let ends (ended : σ × ErrorCode × Nat) : Prop :=
    ended.2.1.isError = false →
      acceptAll accept state (decodedFrom memory stop it) = some ended.1
  have kept : ∀ current, holds current →
      (replyTurn accept memory stop current).Meets True
        (Turn.Keeps holds ends) := by
    intro ⟨current, here⟩ same
    apply (replyTurn_meets accept memory stop here current).weaken False.elim
    rintro ended (⟨atStop, rfl⟩ | ⟨notStop, reply, next, loaded, rfl⟩)
    · intro _
      rw [same, atStop, decodedFrom_stop]
      rfl
    · simp only [holds, decodedFrom_of_returns notStop loaded,
        acceptAll] at same
      split <;> rename_i refused
      · intro accepted
        simp only [refused] at accepted
        cases accepted
      · rw [if_neg refused] at same
        exact same
  exact (Outcome.loop_invariant kept fuel rfl).of_returns run success

private theorem pushBack_success {memory : Bytes} {stop fuel : Nat}
    {state : List Reply × Nat} {ended : List Reply × ErrorCode × Nat}
    (run : Outcome.loop (replyTurn pushBack memory stop) fuel state =
      .returns ended) : ended.2.1.isError = false := by
  have kept : ∀ current, True →
      (replyTurn pushBack memory stop current).Meets True
        (Turn.Keeps (fun _ => True)
          fun ended => ended.2.1.isError = false) := by
    intro ⟨current, here⟩ _
    apply (replyTurn_meets pushBack memory stop here current).weaken False.elim
    rintro ended (⟨atStop, rfl⟩ | ⟨notStop, reply, next, loaded, rfl⟩)
    · rfl
    · trivial
  exact (Outcome.loop_invariant kept fuel trivial).of_returns run

theorem readReplies_decoded {memory : Bytes} {stop it next : Nat}
    {replies : List Reply}
    (run : readReplies memory stop it = .returns (replies, next)) :
    replies = decodedFrom memory stop it := by
  obtain ⟨⟨collected, code, last⟩, loopRun, ended⟩ :=
    Outcome.bind_eq_returns_iff.mp run
  cases ended
  have accepted := replyLoop_decoded loopRun (pushBack_success loopRun)
  rw [acceptAll_pushBack] at accepted
  cases accepted
  rfl

end RedisClient
