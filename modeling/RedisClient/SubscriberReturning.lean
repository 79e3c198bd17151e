import RedisClient.SubscriberProgress
import RedisClient.SubscriberShutdown
import RedisClient.SubscriberStopping

/-!
# The return of `stop`

A stop that finds its reader returns: the reader cannot be kept waiting by the
queue, which `stop` has closed, nor by a read, which `cancel` has ended.  What
is left to do until then is a number that every step of a reader or of a stop
makes smaller, and where none of them can take another step, no stop is left
waiting.
-/

namespace RedisClient

open Basis

/-- A step of a reader or of a stop that `start` or the other end of the
connection has no part in. -/
def SubscriberEvent.unwinds : SubscriberEvent → Bool
  | .resume _ => true
  | .sendDone _ => true
  | .latched _ => true
  | .disconnected _ => true
  | _ => false

/-- Such a step within the condition for stopping, or a call of `read`. -/
def Subscriber.Unwinds (state : Subscriber) (event : SubscriberEvent) : Prop :=
  state.StopsReader event ∧ (event.unwinds = true ∨ event.isReceive = true)

/-- No reader and no stop can take another step. -/
def Subscriber.Settled (state : Subscriber) : Prop :=
  ∀ event next, event.unwinds = true → ¬SubscriberStep state event next

/-- The waits a call of `stop` has before it. -/
def StopCall.waits (call : StopCall) : Nat :=
  match call.point with
  | .waiting => 2
  | .disconnecting => 1
  | .returned => 0

/-- The steps the readers and the stops can still take. -/
def Subscriber.unwinding (state : Subscriber) : Nat :=
  Tasks.total ReaderTask.work state.readers +
    Tasks.total StopCall.waits state.stops

/-- Every step of a reader or a stop uses up some of what is left to do, and a
call of `read` adds nothing to it. -/
theorem SubscriberStep.unwinding_le {state next : Subscriber}
    {event : SubscriberEvent} (step : SubscriberStep state event next)
    (unwinds : state.Unwinds event) :
    next.unwinding + event.unwinds.toNat ≤ state.unwinding := by
  obtain ⟨_, kind⟩ := unwinds
  cases step with
  | @resume reader task later found moves =>
      have less := ReaderTask.work_of_resume moves
      have sum := Tasks.total_set_add ReaderTask.work found later
      simp only [Subscriber.unwinding, Subscriber.resumed,
        SubscriberEvent.unwinds, Bool.toNat_true]
      omega
  | @sendDone reader stop it task reply queue given code found sending sent =>
      have less := ReaderTask.work_of_sendDone sending code
      have sum := Tasks.total_set_add ReaderTask.work found
        (task.moveTo (.sent stop it code))
      simp only [Subscriber.unwinding, SubscriberEvent.unwinds,
        Bool.toNat_true]
      omega
  | @latched call since found opened =>
      have sum := Tasks.total_set_add StopCall.waits found
        ⟨.disconnecting, since⟩
      simp only [StopCall.waits] at sum
      simp only [Subscriber.unwinding, SubscriberEvent.unwinds,
        Bool.toNat_true]
      omega
  | @disconnected call since found =>
      have sum := Tasks.total_set_add StopCall.waits found ⟨.returned, since⟩
      simp only [StopCall.waits] at sum
      simp only [Subscriber.unwinding, SubscriberEvent.unwinds,
        Bool.toNat_true]
      omega
  | receive => exact Nat.le_refl _
  | _ => rcases kind with kind | kind <;> cases kind

theorem SubscriberStep.closed_kept {state next : Subscriber}
    {event : SubscriberEvent} (step : SubscriberStep state event next)
    (closed : state.stops ≠ [] → state.queue.closed = true) :
    next.stops ≠ [] → next.queue.closed = true := by
  cases step with
  | start =>
      intro stopped
      rw [Subscriber.stops_start, Ne, List.map_eq_nil_iff] at stopped
      unfold Subscriber.start
      split
      · exact closed stopped
      · exact closed stopped
  | stop => exact fun _ => rfl
  | latched found opened =>
      exact fun _ => closed (List.ne_nil_of_mem (List.mem_of_getElem? found))
  | disconnected found =>
      exact fun _ => closed (List.ne_nil_of_mem (List.mem_of_getElem? found))
  | resume found moves => exact closed
  | readDone found reading => exact closed
  | sendDone found sending sent =>
      intro stopped
      obtain ⟨rfl, rfl, rfl⟩ := Channel.asyncSend_of_closed sent
        (closed stopped)
      exact closed stopped
  | receive =>
      exact fun stopped =>
        state.queue.asyncReceive_buffer.2.1.trans (closed stopped)

namespace Subscriber

variable {state : Subscriber}

/-- Behind a stop the reader goes on or has its send refused. -/
private theorem Stopping.not_settled (stopping : state.Stopping)
    (stopped : state.stops ≠ []) (closed : state.queue.closed = true)
    (notUsed : state.latch ≠ 0) : ¬state.Settled := by
  intro settled
  obtain ⟨task, member, alive⟩ :=
    List.countP_pos_iff.mp (stopping.reader stopped notUsed)
  obtain ⟨reader, found⟩ := List.mem_iff_getElem?.mp member
  have away := stopping.away stopped notUsed task member
  rw [ReaderTask.alive] at alive
  have halts : task.point.goesOn = false := by
    by_contra goesOn
    obtain ⟨next, goes⟩ := task.exists_resume state.readMessages
      (Bool.eq_true_of_not_eq_false goesOn)
    exact settled (.resume reader) _ rfl (.resume found goes)
  cases point : task.point with
  | sending reply stop it =>
      have refused : state.queue.asyncSend reply =
          some (state.queue, [], channelClosed) := by
        rw [Channel.asyncSend, if_pos closed]
      exact settled (.sendDone reader) _ rfl (.sendDone found point refused)
  | reading =>
      rw [point] at away
      cases away
  | finished =>
      rw [point] at alive
      cases alive
  | failed =>
      rw [point] at alive
      cases alive
  | _ =>
      rw [point] at halts
      cases halts

private theorem Settled.returned (settled : state.Settled)
    (used : state.latch = 0) : ∀ call ∈ state.stops,
      call.point = .returned := by
  intro call member
  obtain ⟨index, found⟩ := List.mem_iff_getElem?.mp member
  obtain ⟨point, since⟩ := call
  cases point with
  | waiting =>
      exact absurd (.latched found used) (settled (.latched index) _ rfl)
  | disconnecting =>
      exact absurd (.disconnected found)
        (settled (.disconnected index) _ rfl)
  | returned => rfl

end Subscriber

/-- The readers and the stops take no more steps than there are left, in
whatever order and however many calls of `read` come between, and where none
of them can take another, every call of `stop` has returned. -/
theorem stop_returns {events : List SubscriberEvent} {state : Subscriber}
    (run : Run (Restricted SubscriberStep Subscriber.StopsReader) .initial
      events state)
    {onward : List SubscriberEvent} {later : Subscriber}
    (unwinding : Run (Restricted SubscriberStep Subscriber.Unwinds) state
      onward later) :
    onward.countP SubscriberEvent.unwinds ≤ state.unwinding ∧
      (later.Settled → ∀ call ∈ later.stops, call.point = .returned) := by
  let holds (state : Subscriber) : Prop :=
    state.Stopping ∧ (state.stops ≠ [] → state.queue.closed = true)
  have before : holds state :=
    run.restricted_invariant ⟨Subscriber.initial_stopping, nofun⟩
      fun _ _ _ allowed step ⟨stopping, closed⟩ =>
        ⟨step.stopping_kept allowed stopping, step.closed_kept closed⟩
  have behind : holds later :=
    unwinding.restricted_invariant before
      fun _ _ _ allowed step ⟨stopping, closed⟩ =>
        ⟨step.stopping_kept allowed.1 stopping, step.closed_kept closed⟩
  constructor
  · have counted := unwinding.countP_add_le
      fun _ _ _ ⟨unwinds, step⟩ => step.unwinding_le unwinds
    exact (Nat.le_add_right _ _).trans counted
  · intro settled call member
    have stopped : later.stops ≠ [] := List.ne_nil_of_mem member
    have used : later.latch = 0 := by
      by_contra notUsed
      exact behind.1.not_settled stopped (behind.2 stopped) notUsed settled
    exact settled.returned used call member

/-- A stop ends the read of its reader, which counts the latch down. -/
theorem stop_returns_reading :
    ∃ state later, Run (Restricted SubscriberStep Subscriber.StopsReader)
        .initial [.start, .resume 0, .resume 0, .stop] state ∧
      Run (Restricted SubscriberStep Subscriber.Unwinds) state
        [.resume 0, .receive, .latched 0, .disconnected 0] later ∧
      state.unwinding = 4 ∧ ∀ call ∈ later.stops, call.point = .returned := by
  have notConnecting : ∀ task ∈
      [(⟨.reading, .zeros⟩ : ReaderTask)], task.point ≠ .connecting := by
    intro task member
    cases List.mem_singleton.mp member
    nofun
  have decodes : ∀ task,
      [(⟨.read ⟨operationAborted, .empty⟩, .zeros⟩ : ReaderTask)][0]? =
        some task → task.Decodes := by
    intro task found stop it parses
    cases found
    cases parses
  have run : ∃ state later,
      Run (Restricted SubscriberStep Subscriber.StopsReader)
        .initial [.start, .resume 0, .resume 0, .stop] state ∧
      Run (Restricted SubscriberStep Subscriber.Unwinds) state
        [.resume 0, .receive, .latched 0, .disconnected 0] later ∧
      state.unwinding = 4 ∧
      later.readers = [⟨.finished, .zeros⟩] ∧
      later.stops = [⟨.returned, false⟩] :=
    ⟨_, _, .step ⟨Or.inl rfl, .start⟩ (.step ⟨Or.inl rfl, .resume rfl rfl⟩
      (.step ⟨Or.inl rfl, .resume rfl rfl⟩
        (.step ⟨Or.inr ⟨by decide, notConnecting⟩, .stop⟩ (.refl _)))),
      .step ⟨⟨Or.inr (Or.inr decodes), Or.inl rfl⟩, .resume rfl rfl⟩
        (.step ⟨⟨trivial, Or.inr rfl⟩, .receive⟩
          (.step ⟨⟨trivial, Or.inl rfl⟩, .latched rfl rfl⟩
            (.step ⟨⟨trivial, Or.inl rfl⟩, .disconnected rfl⟩ (.refl _)))),
      rfl, rfl, rfl⟩
  obtain ⟨state, later, run, unwinding, left, readers, stops⟩ := run
  have settled : later.Settled := by
    intro event next unwinds step
    have still (reader : Nat) :=
      Subscriber.reader_still readers rfl nofun reader next
    cases event with
    | resume reader => exact (still reader).1 step
    | sendDone reader => exact (still reader).2 step
    | latched call =>
        cases step with
        | latched found opened =>
            rw [stops, List.getElem?_singleton] at found
            split at found <;> cases found
    | disconnected call =>
        cases step with
        | disconnected found =>
            rw [stops, List.getElem?_singleton] at found
            split at found <;> cases found
    | _ => cases unwinds
  exact ⟨state, later, run, unwinding, left,
    (stop_returns run unwinding).2 settled⟩

end RedisClient
