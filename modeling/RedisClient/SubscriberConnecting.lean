import RedisClient.SubscriberConnection

/-!
# The return of `get`

A call of `get` or `async_connect` takes a bounded number of steps for itself
and for every attempt that fails and every connection that drops: it never
spins.  Where no call can go on and none is in an attempt, all have returned
but those that wait for a connection nobody is making.
-/

namespace RedisClient

open Basis

/-- The steps a call can still take while no attempt fails and no connection
drops. -/
def CallPoint.work (connected : Bool) : CallPoint → Nat
  | .testing => 6
  | .comparing => 5
  | .waiting => 1
  | .exchanged => 4
  | .attemptingFirst => 3
  | .looping _ => if connected then 2 else 5
  | .sleeping _ => 4
  | .attempting _ => 3
  | .leavingAborted _ => 1
  | .leavingConnected => 1
  | .returned _ => 0

def SubscriberConnection.work (state : SubscriberConnection) : Nat :=
  Tasks.total (CallPoint.work state.connected) state.calls

/-- How much longer an event can make a run. -/
def ConnectionEvent.brings : ConnectionEvent → Nat
  | .get => 7
  | .asyncConnect => 6
  | .proceed _ => 0
  | .attempted _ attempt => if attempt.connects then 0 else 3
  | .drop => 4

/-- No call goes on, and none is in an attempt that could end. -/
def SubscriberConnection.Rests (state : SubscriberConnection) : Prop :=
  ∀ call next, ¬ConnectionStep state (.proceed call) next ∧
    ∀ attempt, ¬ConnectionStep state (.attempted call attempt) next

/-! ## What the steps use up -/

namespace CallPoint

variable {point next : CallPoint}

theorem work_proceed {connected connecting flag : Bool}
    (moves : point.proceed connected connecting = some (next, flag)) :
    next.work connected < point.work connected := by
  cases point with
  | testing =>
      cases moves
      cases connected
      · exact Nat.lt_succ_self 5
      · exact Nat.succ_pos 5
  | comparing =>
      cases moves
      cases connecting
      · exact Nat.lt_succ_self 4
      · exact Nat.lt_of_sub_eq_succ rfl
  | waiting =>
      cases connected
      · cases moves
      · cases moves
        exact Nat.one_pos
  | exchanged =>
      cases moves
      exact Nat.lt_succ_self 3
  | looping attempts =>
      cases moves
      cases connected
      · exact Nat.lt_succ_self 4
      · exact Nat.lt_succ_self 1
  | sleeping attempts =>
      cases moves
      exact Nat.lt_succ_self 3
  | leavingAborted error =>
      cases moves
      exact Nat.one_pos
  | leavingConnected =>
      cases moves
      exact Nat.one_pos
  | _ => cases moves

/-- An attempt that does not connect leads back to the test of the loop, from
where the next one ends three steps later. -/
theorem work_attempted {attempt : ConnectAttempt}
    (moves : point.attempted attempt = some next) :
    point.inFlight = true ∧ next.work attempt.connects + 1 ≤
      point.work attempt.connects + if attempt.connects then 0 else 3 := by
  cases point with
  | attemptingFirst =>
      cases moves
      refine ⟨rfl, ?_⟩
      cases connects : attempt.connects <;> simp [work]
  | attempting attempts =>
      refine ⟨rfl, ?_⟩
      simp only [attempted] at moves
      split at moves
      · cases moves
        exact (Nat.le_succ 2).trans (Nat.le_add_right 3 _)
      · cases moves
        cases connects : attempt.connects <;> simp [work]
  | _ => cases moves

theorem work_le (point : CallPoint) (connected other : Bool) :
    point.work connected ≤ point.work other + 3 * point.inside.toNat := by
  cases point with
  | looping attempts =>
      cases connected <;> cases other <;> simp [work, inside]
  | _ => exact Nat.le_add_right _ _

end CallPoint

/-- While an attempt is in flight no call tests the connection. -/
private theorem SubscriberConnection.Exclusive.work_eq
    {state : SubscriberConnection} (exclusive : state.Exclusive) {call : Nat}
    {point : CallPoint} (found : state.calls[call]? = some point)
    (flying : point.inFlight = true) (connected : Bool) :
    Tasks.total (CallPoint.work connected) state.calls = state.work := by
  apply Tasks.total_congr
  intro other member
  cases other with
  | looping attempts =>
      obtain ⟨index, otherFound⟩ := List.mem_iff_getElem?.mp member
      have same : call = index := by
        by_contra different
        have outside := exclusive.outside found
          (CallPoint.inside_of_inFlight flying) otherFound different
        cases outside
      subst same
      cases found.symm.trans otherFound
      cases flying
  | _ => rfl

theorem ConnectionStep.work_le {state next : SubscriberConnection}
    {event : ConnectionEvent} (step : ConnectionStep state event next)
    (exclusive : state.Exclusive) :
    next.work + 1 ≤ state.work + event.brings := by
  cases step with
  | get =>
      simp only [SubscriberConnection.work, Tasks.total_append_singleton,
        ConnectionEvent.brings, CallPoint.work]
      omega
  | asyncConnect =>
      simp only [SubscriberConnection.work, Tasks.total_append_singleton,
        ConnectionEvent.brings, CallPoint.work]
      omega
  | @proceed call point moved flag found moves =>
      have less := CallPoint.work_proceed moves
      have sum := Tasks.total_set_add (CallPoint.work state.connected) found
        moved
      simp only [SubscriberConnection.work, ConnectionEvent.brings]
      omega
  | @attempted call point moved attempt found moves =>
      obtain ⟨flying, less⟩ := CallPoint.work_attempted moves
      have same := exclusive.work_eq found flying attempt.connects
      have sum := Tasks.total_set_add (CallPoint.work attempt.connects) found
        moved
      have afterwards : SubscriberConnection.work
          ⟨state.connecting, attempt.connects, state.calls.set call moved⟩ =
          Tasks.total (CallPoint.work attempt.connects)
            (state.calls.set call moved) := rfl
      rw [afterwards, ConnectionEvent.brings]
      omega
  | drop =>
      have heavier := Tasks.total_le_add_countP
        (fun point => CallPoint.work_le point false state.connected)
        state.calls
      have single := Bool.toNat_le state.connecting
      rw [exclusive] at heavier
      simp only [SubscriberConnection.work, ConnectionEvent.brings]
      omega

private theorem length_le_brings {events : List ConnectionEvent}
    {state : SubscriberConnection} (run : Run ConnectionStep .start events
      state) :
    state.Exclusive ∧ events.length + state.work ≤
      (events.map ConnectionEvent.brings).sum := by
  refine @Run.history _ _ _ _ _ _
    (fun past later => later.Exclusive ∧ past.length + later.work ≤
      (past.map ConnectionEvent.brings).sum) ?_ run [] ?_
  · rintro past later event next ⟨exclusive, bounded⟩ step
    have less := step.work_le exclusive
    refine ⟨step.exclusive exclusive, ?_⟩
    simp only [List.length_append, List.length_singleton, List.map_append,
      List.map_singleton, List.sum_append, List.sum_singleton]
    omega
  · exact ⟨SubscriberConnection.start_exclusive, Nat.le_refl 0⟩

/-! ## Where no call goes on -/

/-- A call waits for nothing but the connection or the end of its attempt. -/
private theorem CallPoint.exists_next (point : CallPoint)
    (connected connecting : Bool) :
    (∃ next, point.proceed connected connecting = some next) ∨
      (∃ next, point.attempted .succeeds = some next) ∨
      (point = .waiting ∧ connected = false) ∨
      ∃ error, point = .returned error := by
  cases point with
  | waiting =>
      cases connected
      · exact Or.inr (Or.inr (Or.inl ⟨rfl, rfl⟩))
      · exact Or.inl ⟨_, rfl⟩
  | attemptingFirst => exact Or.inr (Or.inl ⟨_, rfl⟩)
  | attempting attempts => exact Or.inr (Or.inl ⟨_, rfl⟩)
  | returned error => exact Or.inr (Or.inr (Or.inr ⟨error, rfl⟩))
  | _ => exact Or.inl ⟨_, rfl⟩

namespace SubscriberConnection.Rests

variable {state : SubscriberConnection}

private theorem waiting_or_returned (rests : state.Rests) {point : CallPoint}
    (member : point ∈ state.calls) :
    (point = .waiting ∧ state.connected = false) ∨
      ∃ error, point = .returned error := by
  obtain ⟨call, found⟩ := List.mem_iff_getElem?.mp member
  rcases point.exists_next state.connected state.connecting with
    ⟨⟨next, flag⟩, moves⟩ | ⟨next, moves⟩ | stays
  · exact absurd (.proceed found moves) (rests call _).1
  · exact absurd (.attempted found moves) ((rests call _).2 .succeeds)
  · exact stays

private theorem not_connecting (rests : state.Rests)
    (exclusive : state.Exclusive) : state.connecting = false := by
  have nobody : state.calls.countP CallPoint.inside = 0 := by
    apply List.countP_eq_zero.mpr
    intro point member
    rcases rests.waiting_or_returned member with ⟨rfl, _⟩ | ⟨error, rfl⟩
    · nofun
    · nofun
  rw [exclusive] at nobody
  exact Bool.toNat_eq_zero.mp nobody

end SubscriberConnection.Rests

/-- In every run the calls take at most seven steps each, three more for every
attempt that fails and four for every connection that drops.  Where none of them
goes on, every call has returned, or waits while there is no connection and
nobody connecting. -/
theorem calls_return {events : List ConnectionEvent}
    {state : SubscriberConnection}
    (run : Run ConnectionStep .start events state) :
    events.length ≤ (events.map ConnectionEvent.brings).sum ∧
      (state.Rests → ∀ point ∈ state.calls,
        (∃ error, point = .returned error) ∨
          (point = .waiting ∧ state.connected = false ∧
            state.connecting = false)) := by
  obtain ⟨exclusive, bounded⟩ := length_le_brings run
  refine ⟨by omega, fun rests point member => ?_⟩
  rcases rests.waiting_or_returned member with ⟨waits, down⟩ | returned
  · exact Or.inr ⟨waits, down, rests.not_connecting exclusive⟩
  · exact Or.inl returned

/-- A call whose first attempt is aborted takes every step there is. -/
theorem calls_return_secondAttempt :
    ∃ events state, Run ConnectionStep .start events state ∧
      events.length = (events.map ConnectionEvent.brings).sum ∧
      ∀ point ∈ state.calls, ∃ error, point = .returned error := by
  have run : Run ConnectionStep .start
      [.get, .proceed 0, .proceed 0, .proceed 0, .attempted 0 .aborted,
        .proceed 0, .proceed 0, .attempted 0 .succeeds, .proceed 0,
        .proceed 0]
      ⟨false, true, [.returned .success]⟩ :=
    .step .get (.step (.proceed rfl rfl) (.step (.proceed rfl rfl)
      (.step (.proceed rfl rfl) (.step (.attempted rfl rfl)
        (.step (.proceed rfl rfl) (.step (.proceed rfl rfl)
          (.step (.attempted rfl rfl) (.step (.proceed rfl rfl)
            (.step (.proceed rfl rfl) (.refl _))))))))))
  have rests :
      (SubscriberConnection.mk false true [.returned .success]).Rests := by
    intro call next
    constructor
    · intro step
      cases step with
      | proceed found moves =>
          obtain rfl := List.mem_singleton.mp (List.mem_of_getElem? found)
          cases moves
    · intro attempt step
      cases step with
      | attempted found moves =>
          obtain rfl := List.mem_singleton.mp (List.mem_of_getElem? found)
          cases moves
  refine ⟨_, _, run, by decide, fun point member => ?_⟩
  exact ((calls_return run).2 rests point member).resolve_right
    fun waits => absurd waits.2.1 (by decide)

end RedisClient
