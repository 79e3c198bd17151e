import RedisClient.SubscriberConnection

/-!
# Waiting for a connection

Whether a call that waits for the connection waits for somebody who will make
it.  `wait_for` is woken by the connection alone.  A call that leaves its loop
because it has tested the connection leaves one behind, unless that drops in
between; a call that leaves it because its attempt was aborted leaves the
waiting calls to nobody.
-/

namespace RedisClient

open Basis

/-- A call that waits finds the connection made, or another call that is
connecting. -/
def SubscriberConnection.Attended (state : SubscriberConnection) : Prop :=
  .waiting ∈ state.calls →
    state.connected = true ∨ state.connecting = true

/-- The next thing the call does is `connecting_ = false`. -/
def CallPoint.leaving : CallPoint → Bool
  | .leavingAborted _ => true
  | .leavingConnected => true
  | _ => false

/-- No attempt in the loop is aborted, and the connection drops neither between
the test that ends the loop and `connecting_ = false`, nor while nobody connects
and a call waits. -/
def SubscriberConnection.Undisturbed (state : SubscriberConnection) :
    ConnectionEvent → Prop
  | .attempted call attempt =>
      attempt = .aborted →
        ∀ attempts, state.calls[call]? ≠ some (.attempting attempts)
  | .drop =>
      .leavingConnected ∉ state.calls ∧
        (state.connecting = true ∨ .waiting ∉ state.calls)
  | _ => True

/-- A call sets the flag, keeps it, or clears it behind its loop; only with the
flag set does it begin to wait. -/
private theorem CallPoint.proceed_cases {point next : CallPoint}
    {connected connecting flag : Bool}
    (moves : point.proceed connected connecting = some (next, flag)) :
    flag = true ∨
      (next ≠ .waiting ∧ (flag = connecting ∨ point.leaving = true)) := by
  cases point with
  | testing =>
      cases moves
      exact Or.inr ⟨by split <;> simp, Or.inl rfl⟩
  | comparing =>
      cases moves
      exact Or.inl rfl
  | waiting =>
      cases connected <;> cases moves
      exact Or.inr ⟨nofun, Or.inl rfl⟩
  | exchanged =>
      cases moves
      exact Or.inr ⟨nofun, Or.inl rfl⟩
  | looping attempts =>
      cases moves
      exact Or.inr ⟨by split <;> simp, Or.inl rfl⟩
  | sleeping attempts =>
      cases moves
      exact Or.inr ⟨nofun, Or.inl rfl⟩
  | leavingAborted error =>
      cases moves
      exact Or.inr ⟨nofun, Or.inr rfl⟩
  | leavingConnected =>
      cases moves
      exact Or.inr ⟨nofun, Or.inr rfl⟩
  | _ => cases moves

/-- A call comes to its exit only behind a test that has seen the connection. -/
private theorem CallPoint.connected_of_leaving {point next : CallPoint}
    {connected connecting flag : Bool}
    (moves : point.proceed connected connecting = some (next, flag))
    (leaving : next.leaving = true) :
    next = .leavingConnected ∧ connected = true := by
  cases point with
  | testing => cases connected <;> cases moves <;> cases leaving
  | comparing => cases connecting <;> cases moves <;> cases leaving
  | waiting => cases connected <;> cases moves; cases leaving
  | looping attempts =>
      cases connected <;> cases moves
      · cases leaving
      · exact ⟨rfl, rfl⟩
  | exchanged => cases moves; cases leaving
  | sleeping attempts => cases moves; cases leaving
  | leavingAborted error => cases moves; cases leaving
  | leavingConnected => cases moves; cases leaving
  | _ => cases moves

private theorem CallPoint.not_leaving_of_attempted {point next : CallPoint}
    {attempt : ConnectAttempt} (moves : point.attempted attempt = some next)
    (kept : attempt = .aborted → ∀ attempts, point ≠ .attempting attempts) :
    next.leaving = false := by
  cases point with
  | attemptingFirst =>
      cases moves
      rfl
  | attempting attempts =>
      have notAborted : attempt.error.value ≠ operationAborted.value := by
        cases attempt with
        | succeeds => decide
        | fails error isError notAborted => exact notAborted
        | aborted => exact absurd rfl (kept rfl attempts)
      rw [CallPoint.attempted, if_neg notAborted] at moves
      cases moves
      rfl
  | _ => cases moves

private theorem CallPoint.proceed_of_leaving {point : CallPoint}
    (leaving : point.leaving = true) (connected connecting : Bool) :
    ∃ error, point.proceed connected connecting =
      some (.returned error, false) := by
  cases point with
  | leavingAborted error => exact ⟨error, rfl⟩
  | leavingConnected => exact ⟨.success, rfl⟩
  | _ => cases leaving

private theorem CallPoint.inside_of_leaving {point : CallPoint}
    (leaving : point.leaving = true) : point.inside = true := by
  cases point <;> first | rfl | cases leaving

/-- What every undisturbed step keeps.  A call that is about to leave finds the
connection made. -/
structure SubscriberConnection.Minded (state : SubscriberConnection) :
    Prop where
  exclusive : state.Exclusive
  attended : state.Attended
  leaves : ∀ point ∈ state.calls, point.leaving = true →
    point = .leavingConnected ∧ state.connected = true

theorem SubscriberConnection.start_minded :
    SubscriberConnection.start.Minded :=
  ⟨SubscriberConnection.start_exclusive, nofun, nofun⟩

private theorem SubscriberConnection.Minded.append
    {state : SubscriberConnection} (minded : state.Minded) {point : CallPoint}
    (notWaiting : point ≠ .waiting) (stays : point.leaving = false)
    (outside : point.inside = false) :
    ({ state with calls := state.calls ++ [point] } :
      SubscriberConnection).Minded := by
  refine ⟨?_, fun waits => ?_, fun other member leaving => ?_⟩
  · simp only [SubscriberConnection.Exclusive, Tasks.countP_append_singleton,
      outside]
    exact minded.exclusive
  · rcases List.mem_append.mp waits with before | new
    · exact minded.attended before
    · exact absurd (List.mem_singleton.mp new).symm notWaiting
  · rcases List.mem_append.mp member with before | new
    · exact minded.leaves other before leaving
    · rw [List.mem_singleton.mp new, stays] at leaving
      cases leaving

theorem ConnectionStep.minded {state next : SubscriberConnection}
    {event : ConnectionEvent} (step : ConnectionStep state event next)
    (allowed : state.Undisturbed event) (minded : state.Minded) :
    next.Minded := by
  have exclusive := step.exclusive minded.exclusive
  cases step with
  | get => exact minded.append nofun rfl rfl
  | asyncConnect => exact minded.append nofun rfl rfl
  | @proceed call point next flag found moves =>
      refine ⟨exclusive, fun waits => ?_, fun other member leaving => ?_⟩
      · rcases CallPoint.proceed_cases moves with
          rfl | ⟨notWaiting, kept | leaving⟩
        · exact Or.inr rfl
        · rw [kept]
          exact minded.attended
            ((List.mem_or_eq_of_mem_set waits).resolve_right notWaiting.symm)
        · exact Or.inl
            (minded.leaves point (List.mem_of_getElem? found) leaving).2
      · rcases List.mem_or_eq_of_mem_set member with before | rfl
        · exact minded.leaves other before leaving
        · exact CallPoint.connected_of_leaving moves leaving
  | @attempted call point next attempt found moves =>
      have inside := (CallPoint.inside_attempted moves).1
      refine ⟨exclusive, fun _ => Or.inr (minded.exclusive.held found inside),
        fun other member leaving => ?_⟩
      -- the call in the attempt is the only one inside
      have notAborted := CallPoint.not_leaving_of_attempted moves
        fun aborted attempts same =>
          allowed aborted attempts (same ▸ found)
      obtain ⟨place, placed⟩ := List.mem_iff_getElem?.mp member
      by_cases same : call = place
      · subst same
        rw [Tasks.found_set_self found] at placed
        cases placed
        rw [notAborted] at leaving
        cases leaving
      · rw [List.getElem?_set_ne same] at placed
        have outside :=
          minded.exclusive.outside found inside placed same
        rw [CallPoint.inside_of_leaving leaving] at outside
        cases outside
  | drop =>
      obtain ⟨notLeaving, connecting⟩ := allowed
      refine ⟨exclusive, fun waits => ?_, fun other member leaving => ?_⟩
      · exact Or.inr (connecting.resolve_right fun none => none waits)
      · have connected := (minded.leaves other member leaving).1
        rw [connected] at member
        exact absurd member notLeaving

/-! ## What a disturbance leads to -/

/-- A call that leaves without a connection strands the next one to come. -/
private theorem SubscriberConnection.strands {state : SubscriberConnection}
    {call : Nat} {point : CallPoint} (found : state.calls[call]? = some point)
    (leaving : point.leaving = true) (held : state.connecting = true)
    (down : state.connected = false) :
    ∃ more last,
      Run (Restricted ConnectionStep SubscriberConnection.Undisturbed) state
        more last ∧ ¬last.Attended := by
  have added : (state.calls ++ [CallPoint.comparing])[state.calls.length]? =
      some .comparing := List.getElem?_concat_length
  have compares : CallPoint.comparing.proceed state.connected
      state.connecting = some (.waiting, true) := by
    rw [held]
    rfl
  have notLast : state.calls.length ≠ call :=
    fun same => absurd found (by simp [← same])
  have waits := Tasks.found_set_self added .waiting
  have stays : ((state.calls ++ [CallPoint.comparing]).set state.calls.length
      .waiting)[call]? = some point := by
    rw [List.getElem?_set_ne notLast]
    exact Tasks.found_append found _
  obtain ⟨error, leaves⟩ :=
    CallPoint.proceed_of_leaving leaving state.connected true
  have different : CallPoint.waiting ≠ point := by
    rintro rfl
    cases leaving
  refine ⟨[.asyncConnect, .proceed state.calls.length, .proceed call], _,
    .step ⟨trivial, .asyncConnect⟩
    (.step ⟨trivial, .proceed added compares⟩
      (.step ⟨trivial, .proceed stays leaves⟩ (.refl _))), ?_⟩
  intro attended
  have stranded := Tasks.mem_set_of_ne (List.mem_of_getElem? waits) stays
    different (.returned error)
  rcases attended stranded with connected | connecting
  · exact Bool.false_ne_true (down.symm.trans connected)
  · cases connecting

theorem ConnectionStep.strands {state next : SubscriberConnection}
    {event : ConnectionEvent} (step : ConnectionStep state event next)
    (exclusive : state.Exclusive) (disturbed : ¬state.Undisturbed event) :
    ∃ more last,
      Run (Restricted ConnectionStep SubscriberConnection.Undisturbed) next
        more last ∧ ¬last.Attended := by
  cases step with
  | get => exact absurd trivial disturbed
  | asyncConnect => exact absurd trivial disturbed
  | proceed => exact absurd trivial disturbed
  | @attempted call point next attempt found moves =>
      simp only [SubscriberConnection.Undisturbed, Classical.not_imp,
        not_forall, not_not] at disturbed
      obtain ⟨rfl, attempts, attempting⟩ := disturbed
      cases found.symm.trans attempting
      cases moves
      exact SubscriberConnection.strands (Tasks.found_set_self found _) rfl
        (exclusive.held found rfl) rfl
  | drop =>
      by_cases leaving : .leavingConnected ∈ state.calls
      · obtain ⟨call, found⟩ := List.mem_iff_getElem?.mp leaving
        exact SubscriberConnection.strands found rfl
          (exclusive.held found rfl) rfl
      · simp only [SubscriberConnection.Undisturbed, leaving, not_false_eq_true,
          true_and, not_or, not_not] at disturbed
        obtain ⟨clear, waits⟩ := disturbed
        refine ⟨[], _, .refl _, fun attended => ?_⟩
        rcases attended waits with connected | connecting
        · cases connected
        · exact clear connecting

/-- In every run in which no attempt in the loop is aborted, and no connection
drops behind the test that ends the loop or while a call waits and nobody
connects, every waiting call is attended to and the normal exit leaves a
connection behind.  Every other step can be followed by such steps to a call
that is not attended to. -/
theorem waiters_attended {events : List ConnectionEvent}
    {state : SubscriberConnection}
    (run : Run (Restricted ConnectionStep SubscriberConnection.Undisturbed)
      .start events state) :
    state.Attended ∧
      (.leavingConnected ∈ state.calls → state.connected = true) ∧
      ∀ event next, ConnectionStep state event next →
        ¬state.Undisturbed event →
        ∃ more last,
          Run (Restricted ConnectionStep SubscriberConnection.Undisturbed) next
            more last ∧ ¬last.Attended := by
  have minded : state.Minded :=
    run.restricted_invariant SubscriberConnection.start_minded
      fun _ _ _ allowed step minded => step.minded allowed minded
  exact ⟨minded.attended, fun leaving => (minded.leaves _ leaving rfl).2,
    fun _ _ step disturbed => step.strands minded.exclusive disturbed⟩

/-- A call waits while the first attempt of another one is aborted and the
second one connects, and goes on waiting when that call has left. -/
theorem waiters_attended_connected :
    (SubscriberConnection.mk false true
      [.returned .success, .waiting]).Attended :=
  have run : Run
      (Restricted ConnectionStep SubscriberConnection.Undisturbed) .start
      [.get, .proceed 0, .proceed 0, .asyncConnect, .proceed 1, .proceed 0,
        .attempted 0 .aborted, .proceed 0, .proceed 0,
        .attempted 0 .succeeds, .proceed 0, .proceed 0]
      ⟨false, true, [.returned .success, .waiting]⟩ :=
    .step ⟨trivial, .get⟩ (.step ⟨trivial, .proceed rfl rfl⟩
      (.step ⟨trivial, .proceed rfl rfl⟩ (.step ⟨trivial, .asyncConnect⟩
        (.step ⟨trivial, .proceed rfl rfl⟩
          (.step ⟨trivial, .proceed rfl rfl⟩
            (.step ⟨nofun, .attempted rfl rfl⟩
              (.step ⟨trivial, .proceed rfl rfl⟩
                (.step ⟨trivial, .proceed rfl rfl⟩
                  (.step ⟨nofun, .attempted rfl rfl⟩
                    (.step ⟨trivial, .proceed rfl rfl⟩
                      (.step ⟨trivial, .proceed rfl rfl⟩
                        (.refl _))))))))))))
  (waiters_attended run).1

/-- The attempt in the loop is aborted: its call clears the flag and returns,
and the other call goes on waiting. -/
theorem not_waiters_attended_aborted :
    ¬∀ events state, Run ConnectionStep .start events state →
      state.Attended := by
  intro attended
  have run : Run ConnectionStep .start
      [.get, .proceed 0, .proceed 0, .asyncConnect, .proceed 1, .proceed 0,
        .attempted 0 .aborted, .proceed 0, .proceed 0, .attempted 0 .aborted,
        .proceed 0]
      ⟨false, false, [.returned operationAborted, .waiting]⟩ :=
    .step .get (.step (.proceed rfl rfl) (.step (.proceed rfl rfl)
      (.step .asyncConnect (.step (.proceed rfl rfl) (.step (.proceed rfl rfl)
        (.step (.attempted rfl rfl) (.step (.proceed rfl rfl)
          (.step (.proceed rfl rfl) (.step (.attempted rfl rfl)
            (.step (.proceed rfl rfl) (.refl _)))))))))))
  rcases attended _ _ run (by simp) with connected | connecting
  · cases connected
  · cases connecting

end RedisClient
