import RedisClient.Basis.Run
import RedisClient.Basis.Tasks
import RedisClient.Socket

/-!
# Connecting a subscriber

`redis_subscriber_connection` as a transition system.  Any number of coroutines
call `get` or `async_connect`, each stands at one of the points at which another
one may run, and the connection may drop at any time.  `connecting_` is to let
one of them at a time through to the connection.
-/

namespace RedisClient

open Basis

/-- How `connection_->async_connect()` ends. -/
inductive ConnectAttempt where
  | succeeds
  | fails (error : ErrorCode) (isError : error.isError = true)
      (notAborted : error.value ≠ operationAborted.value)
  | aborted

def ConnectAttempt.error : ConnectAttempt → ErrorCode
  | .succeeds => .success
  | .fails error _ _ => error
  | .aborted => operationAborted

/-- `connection_->connected()` behind an attempt. -/
def ConnectAttempt.connects : ConnectAttempt → Bool
  | .succeeds => true
  | _ => false

/-- Where a call of `get` or `async_connect` stands.  A comment names what it
does next. -/
inductive CallPoint where
  -- `connection_->connected()` in `get`
  | testing
  -- `connecting_.compare_exchange_strong(expected_connecting_status, true)`
  | comparing
  -- `co_await connection_->wait_for(client_connection_state::connected)`
  | waiting
  -- `co_await net::this_coro::executor`
  | exchanged
  -- the first `co_await connection_->async_connect()`
  | attemptingFirst
  -- `while (!connection_->connected())`
  | looping (attempts : Nat)
  -- `co_await timer.async_wait(delay)`
  | sleeping (attempts : Nat)
  -- `co_await connection_->async_connect()` in the loop
  | attempting (attempts : Nat)
  -- `connecting_ = false` behind an aborted attempt
  | leavingAborted (error : ErrorCode)
  -- `connecting_ = false` behind the loop
  | leavingConnected
  | returned (error : ErrorCode)
  deriving DecidableEq

/-- What a call does until another coroutine may run, with the flag it leaves
behind.  A call in an attempt waits for its end, and `wait_for` for the
connection. -/
def CallPoint.proceed (connected connecting : Bool) :
    CallPoint → Option (CallPoint × Bool)
  | .testing =>
      some (if connected then .returned .success else .comparing, connecting)
  | .comparing => some (if connecting then .waiting else .exchanged, true)
  | .waiting =>
      if connected then some (.returned .success, connecting) else none
  | .exchanged => some (.attemptingFirst, connecting)
  | .looping attempts =>
      some (if connected then .leavingConnected else .sleeping (attempts + 1),
        connecting)
  | .sleeping attempts => some (.attempting attempts, connecting)
  | .leavingAborted error => some (.returned error, false)
  | .leavingConnected => some (.returned .success, false)
  | _ => none

/-- What a call does with the end of its attempt.  The error of the first one
is only logged. -/
def CallPoint.attempted (attempt : ConnectAttempt) :
    CallPoint → Option CallPoint
  | .attemptingFirst => some (.looping 1)
  | .attempting attempts =>
      if attempt.error.value = operationAborted.value then
        some (.leavingAborted attempt.error)
      else some (.looping attempts)
  | _ => none

/-- The members of `redis_subscriber_connection` the coroutines share, and the
coroutines. -/
structure SubscriberConnection where
  connecting : Bool
  connected : Bool
  calls : List CallPoint

def SubscriberConnection.start : SubscriberConnection := ⟨false, false, []⟩

inductive ConnectionEvent where
  | get
  | asyncConnect
  | proceed (call : Nat)
  | attempted (call : Nat) (attempt : ConnectAttempt)
  | drop

inductive ConnectionStep :
    SubscriberConnection → ConnectionEvent → SubscriberConnection → Prop where
  | get {state : SubscriberConnection} :
      ConnectionStep state .get
        { state with calls := state.calls ++ [.testing] }
  | asyncConnect {state : SubscriberConnection} :
      ConnectionStep state .asyncConnect
        { state with calls := state.calls ++ [.comparing] }
  | proceed {state : SubscriberConnection} {call : Nat}
      {point next : CallPoint} {connecting : Bool} :
      state.calls[call]? = some point →
      point.proceed state.connected state.connecting =
        some (next, connecting) →
      ConnectionStep state (.proceed call)
        { state with
          connecting := connecting
          calls := state.calls.set call next }
  | attempted {state : SubscriberConnection} {call : Nat}
      {point next : CallPoint} {attempt : ConnectAttempt} :
      state.calls[call]? = some point →
      point.attempted attempt = some next →
      ConnectionStep state (.attempted call attempt)
        { state with
          connected := attempt.connects
          calls := state.calls.set call next }
  | drop {state : SubscriberConnection} :
      ConnectionStep state .drop { state with connected := false }

/-- Between a successful exchange and the exit from `async_connect`. -/
def CallPoint.inside : CallPoint → Bool
  | .exchanged => true
  | .attemptingFirst => true
  | .looping _ => true
  | .sleeping _ => true
  | .attempting _ => true
  | .leavingAborted _ => true
  | .leavingConnected => true
  | _ => false

/-- A connection attempt is in flight. -/
def CallPoint.inFlight : CallPoint → Bool
  | .attemptingFirst => true
  | .attempting _ => true
  | _ => false

theorem CallPoint.inside_of_inFlight {point : CallPoint}
    (flying : point.inFlight = true) : point.inside = true := by
  cases point <;> first | rfl | cases flying

/-- A call enters when it sets the flag, and it clears the flag when it
leaves. -/
theorem CallPoint.inside_proceed {point next : CallPoint}
    {connected connecting flag : Bool}
    (moves : point.proceed connected connecting = some (next, flag))
    (held : point.inside = true → connecting = true) :
    next.inside.toNat + connecting.toNat =
      point.inside.toNat + flag.toNat := by
  cases point with
  | testing =>
      cases moves
      cases connected <;> rfl
  | comparing =>
      cases moves
      cases connecting <;> rfl
  | waiting =>
      cases connected <;> cases moves
      rfl
  | looping attempts =>
      cases moves
      cases connected <;> rfl
  | leavingAborted error =>
      cases moves
      rw [held rfl]
      rfl
  | leavingConnected =>
      cases moves
      rw [held rfl]
      rfl
  | exchanged => cases moves; rfl
  | sleeping attempts => cases moves; rfl
  | _ => cases moves

theorem CallPoint.inside_attempted {point next : CallPoint}
    {attempt : ConnectAttempt} (moves : point.attempted attempt = some next) :
    point.inside = true ∧ next.inside = true := by
  cases point with
  | attemptingFirst =>
      cases moves
      exact ⟨rfl, rfl⟩
  | attempting attempts =>
      simp only [CallPoint.attempted] at moves
      split at moves <;> cases moves <;> exact ⟨rfl, rfl⟩
  | _ => cases moves

/-- The flag counts the calls that are inside. -/
def SubscriberConnection.Exclusive (state : SubscriberConnection) : Prop :=
  state.calls.countP CallPoint.inside = state.connecting.toNat

theorem SubscriberConnection.start_exclusive :
    SubscriberConnection.start.Exclusive := rfl

theorem SubscriberConnection.Exclusive.held {state : SubscriberConnection}
    (exclusive : state.Exclusive) {call : Nat} {point : CallPoint}
    (found : state.calls[call]? = some point)
    (inside : point.inside = true) : state.connecting = true := by
  have counted := Tasks.countP_pos_of_found found inside
  rw [exclusive] at counted
  cases flag : state.connecting with
  | false => simp [flag] at counted
  | true => rfl

theorem SubscriberConnection.Exclusive.outside {state : SubscriberConnection}
    (exclusive : state.Exclusive) {call other : Nat}
    {point otherPoint : CallPoint} (found : state.calls[call]? = some point)
    (inside : point.inside = true)
    (otherFound : state.calls[other]? = some otherPoint)
    (different : call ≠ other) : otherPoint.inside = false := by
  have single : state.calls.countP CallPoint.inside ≤ 1 := by
    rw [exclusive]
    exact Bool.toNat_le _
  cases otherInside : otherPoint.inside with
  | false => rfl
  | true =>
      have same :=
        Tasks.index_eq_of_single single found inside otherFound otherInside
      exact absurd same different

theorem ConnectionStep.exclusive {state next : SubscriberConnection}
    {event : ConnectionEvent} (step : ConnectionStep state event next)
    (exclusive : state.Exclusive) : next.Exclusive := by
  cases step with
  | get =>
      simp only [SubscriberConnection.Exclusive,
        Tasks.countP_append_singleton]
      exact exclusive
  | asyncConnect =>
      simp only [SubscriberConnection.Exclusive,
        Tasks.countP_append_singleton]
      exact exclusive
  | @proceed call point next flag found moves =>
      have counted := Tasks.countP_set_add CallPoint.inside found next
      have balance := CallPoint.inside_proceed moves (exclusive.held found)
      simp only [SubscriberConnection.Exclusive] at exclusive ⊢
      omega
  | @attempted call point next attempt found moves =>
      obtain ⟨before, after⟩ := CallPoint.inside_attempted moves
      simp only [SubscriberConnection.Exclusive]
      rw [Tasks.countP_set_of_eq found (after.trans before.symm)]
      exact exclusive
  | drop => exact exclusive

theorem ConnectionStep.moved {state next : SubscriberConnection}
    {event : ConnectionEvent} (step : ConnectionStep state event next)
    {call : Nat} {before after : CallPoint}
    (found : state.calls[call]? = some before)
    (foundNext : next.calls[call]? = some after) (differ : before ≠ after) :
    (event = .proceed call ∧
      before.proceed state.connected state.connecting =
        some (after, next.connecting)) ∨
    ∃ attempt, event = .attempted call attempt ∧
      before.attempted attempt = some after := by
  have unmoved : state.calls[call]? ≠ some after := by
    rw [found]
    intro same
    exact differ (Option.some.inj same)
  cases step with
  | get =>
      rw [Tasks.found_append found] at foundNext
      exact absurd (found.trans foundNext) unmoved
  | asyncConnect =>
      rw [Tasks.found_append found] at foundNext
      exact absurd (found.trans foundNext) unmoved
  | @proceed moving point moved flag foundPoint moves =>
      by_cases same : moving = call
      · subst same
        rw [Tasks.found_set_self foundPoint] at foundNext
        cases foundNext
        cases found.symm.trans foundPoint
        exact Or.inl ⟨rfl, moves⟩
      · rw [List.getElem?_set_ne same] at foundNext
        exact absurd foundNext unmoved
  | @attempted moving point moved attempt foundPoint moves =>
      by_cases same : moving = call
      · subst same
        rw [Tasks.found_set_self foundPoint] at foundNext
        cases foundNext
        cases found.symm.trans foundPoint
        exact Or.inr ⟨attempt, rfl, moves⟩
      · rw [List.getElem?_set_ne same] at foundNext
        exact absurd foundNext unmoved
  | drop => exact absurd foundNext unmoved

theorem ConnectionStep.clear_of_exit {state next : SubscriberConnection}
    {event : ConnectionEvent} (step : ConnectionStep state event next)
    (exclusive : state.Exclusive) {call : Nat} {before after : CallPoint}
    (found : state.calls[call]? = some before) (inside : before.inside = true)
    (foundNext : next.calls[call]? = some after)
    (outside : after.inside = false) : next.connecting = false := by
  have held := exclusive.held found inside
  have differ : before ≠ after := by
    rintro rfl
    rw [inside] at outside
    cases outside
  rcases step.moved found foundNext differ with
    ⟨-, moves⟩ | ⟨attempt, -, moves⟩
  · have balance := CallPoint.inside_proceed moves fun _ => held
    rw [outside, inside, held] at balance
    cases flag : next.connecting with
    | false => rfl
    | true =>
        rw [flag] at balance
        cases balance
  · rw [(CallPoint.inside_attempted moves).2] at outside
    cases outside

/-- While the flag is clear and the connection is down, a new call of `get`
comes through to the connection. -/
theorem SubscriberConnection.reconnects {state : SubscriberConnection}
    (clear : state.connecting = false) (down : state.connected = false) :
    ∃ next,
      Run ConnectionStep state
        [.get, .proceed state.calls.length, .proceed state.calls.length] next ∧
      next.calls[state.calls.length]? = some .exchanged ∧
      next.connecting = true := by
  have added : (state.calls ++ [CallPoint.testing])[state.calls.length]? =
      some .testing := List.getElem?_concat_length
  have tested := Tasks.found_set_self added .comparing
  have exchanged := Tasks.found_set_self tested .exchanged
  have tests : CallPoint.testing.proceed state.connected state.connecting =
      some (.comparing, state.connecting) := by
    rw [down]
    rfl
  have exchanges : CallPoint.comparing.proceed state.connected
      state.connecting = some (.exchanged, true) := by
    rw [clear]
    rfl
  exact ⟨_, .step .get (.step (.proceed added tests)
    (.step (.proceed tested exchanges) (.refl _))), exchanged, rfl⟩

/-- In every run the flag is set exactly while one call is between its exchange
and its exit, there is never more than one, and never more than one attempt in
flight.  Every exit leaves the flag clear, and then a later `get` connects. -/
theorem connecting_exclusive {events : List ConnectionEvent}
    {state : SubscriberConnection}
    (run : Run ConnectionStep .start events state) :
    (state.connecting = true ↔ state.calls.countP CallPoint.inside = 1) ∧
    state.calls.countP CallPoint.inside ≤ 1 ∧
    state.calls.countP CallPoint.inFlight ≤ 1 ∧
    (∀ event next (call : Nat) (before after : CallPoint),
      ConnectionStep state event next →
      state.calls[call]? = some before → before.inside = true →
      next.calls[call]? = some after → after.inside = false →
      next.connecting = false) ∧
    (state.connecting = false → state.connected = false →
      ∃ next,
        Run ConnectionStep state
          [.get, .proceed state.calls.length, .proceed state.calls.length]
          next ∧
        next.calls[state.calls.length]? = some .exchanged ∧
        next.connecting = true) := by
  have exclusive : state.Exclusive :=
    run.invariant (fun _ _ _ kept step => step.exclusive kept)
      SubscriberConnection.start_exclusive
  have single : state.calls.countP CallPoint.inside ≤ 1 := by
    rw [exclusive]
    exact Bool.toNat_le _
  have flying : state.calls.countP CallPoint.inFlight ≤
      state.calls.countP CallPoint.inside :=
    List.countP_mono_left fun point _ => CallPoint.inside_of_inFlight
  refine ⟨?_, single, flying.trans single, ?_, SubscriberConnection.reconnects⟩
  · rw [exclusive]
    cases state.connecting <;> simp
  · intro event next call before after step found inside foundNext outside
    exact step.clear_of_exit exclusive found inside foundNext outside

/-- Two calls, of which the second waits while the first attempt of the other
one is aborted. -/
theorem connecting_exclusive_twoCalls :
    ([.looping 1, .waiting] : List CallPoint).countP CallPoint.inFlight ≤ 1 :=
  have run : Run ConnectionStep .start
      [.get, .proceed 0, .proceed 0, .asyncConnect, .proceed 1, .proceed 0,
        .attempted 0 .aborted]
      ⟨true, false, [.looping 1, .waiting]⟩ :=
    .step .get (.step (.proceed rfl rfl) (.step (.proceed rfl rfl)
      (.step .asyncConnect (.step (.proceed rfl rfl) (.step (.proceed rfl rfl)
        (.step (.attempted rfl rfl) (.refl _)))))))
  (connecting_exclusive run).2.2.1

end RedisClient
