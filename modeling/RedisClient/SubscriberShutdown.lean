import RedisClient.SubscriberQueue

/-!
# What can be read after `stop`

`stop` closes the queue for good, and a later `start` does not open it again.
The replies that are queued then are all that is ever delivered: the calls of
`read` take them in order, and fail as soon as they are gone.
-/

namespace RedisClient

open Basis

/-- The event is a call of `read`. -/
def SubscriberEvent.isReceive : SubscriberEvent → Bool
  | .receive => true
  | _ => false

/-- The calls of `read` among the events. -/
def receives (events : List SubscriberEvent) : Nat :=
  events.countP SubscriberEvent.isReceive

/-- So many calls of `read` have emptied a closed queue, on which none of them
waits. -/
structure Drained (state : Subscriber) (reads : Nat) (later : Subscriber) :
    Prop where
  closed : later.queue.closed = true
  nobodyWaits : later.queue.receivers = 0
  delivered : later.delivered =
    state.delivered ++ state.queue.buffer.take reads
  buffer : later.queue.buffer = state.queue.buffer.drop reads

theorem drained_stop (state : Subscriber) : Drained state 0 state.stop where
  closed := rfl
  nobodyWaits := rfl
  delivered := (List.append_nil _).symm
  buffer := rfl

namespace Drained

variable {state later next : Subscriber} {reads : Nat}

theorem same (drained : Drained state reads later)
    (sameQueue : next.queue = later.queue)
    (sameDelivered : next.delivered = later.delivered) :
    Drained state reads next := by
  constructor
  · rw [sameQueue]
    exact drained.closed
  · rw [sameQueue]
    exact drained.nobodyWaits
  · rw [sameDelivered]
    exact drained.delivered
  · rw [sameQueue]
    exact drained.buffer

theorem receive (drained : Drained state reads later) :
    Drained state (reads + 1)
      { later with
        queue := later.queue.asyncReceive.1
        delivered := later.delivered ++ later.queue.asyncReceive.2 } := by
  have buffer := drained.buffer
  have behind : state.queue.buffer.drop (reads + 1) =
      later.queue.buffer.drop 1 := by
    rw [buffer, List.drop_drop]
  have taken : state.queue.buffer.take (reads + 1) =
      state.queue.buffer.take reads ++ later.queue.buffer.take 1 := by
    rw [buffer, List.take_add]
  cases queued : later.queue.buffer with
  | nil =>
      rw [queued] at behind taken
      have received : later.queue.asyncReceive = (later.queue, []) := by
        simp only [Channel.asyncReceive, queued, drained.closed, if_true]
      rw [received]
      constructor
      · exact drained.closed
      · exact drained.nobodyWaits
      · rw [taken, drained.delivered]
        simp
      · rw [behind, queued]
        rfl
  | cons reply rest =>
      rw [queued] at behind taken
      have received : later.queue.asyncReceive =
          ({ later.queue with buffer := rest }, [reply]) := by
        simp only [Channel.asyncReceive, queued]
      rw [received]
      constructor
      · exact drained.closed
      · exact drained.nobodyWaits
      · rw [taken, drained.delivered]
        simp
      · rw [behind]
        rfl

theorem step (drained : Drained state reads later) {event : SubscriberEvent}
    (taken : SubscriberStep later event next) :
    Drained state (reads + event.isReceive.toNat) next := by
  cases taken with
  | start =>
      unfold Subscriber.start
      split
      · exact drained.same rfl rfl
      · exact drained.same rfl rfl
  | stop => exact ⟨rfl, rfl, drained.delivered, drained.buffer⟩
  | latched found opened => exact drained.same rfl rfl
  | disconnected found => exact drained.same rfl rfl
  | resume found moves => exact drained.same rfl rfl
  | readDone found reading => exact drained.same rfl rfl
  | sendDone found sending sent =>
      obtain ⟨rfl, rfl, rfl⟩ :=
        Channel.asyncSend_of_closed sent drained.closed
      exact drained.same rfl (List.append_nil _)
  | receive => exact drained.receive

end Drained

/-- Whatever follows a call of `stop`, further calls of `start` and `stop`
included: the calls of `read` give the replies that were queued at the call, in
order, and then fail; nothing else is delivered, and none of them waits. -/
theorem stopped_drains {state last : Subscriber}
    {events : List SubscriberEvent}
    (run : Run SubscriberStep state.stop events last) :
    Drained state (receives events) last := by
  refine @Run.history _ _ _ _ _ _
    (fun past later => Drained state (receives past) later) ?_ run [] ?_
  · intro past later event next drained taken
    have moved := drained.step taken
    rwa [receives, Tasks.countP_append_singleton]
  · exact drained_stop state

/-- A subscriber with one reply in its queue. -/
private def oneQueued : Subscriber :=
  { Subscriber.initial with queue := ⟨[.ofError .success], 0, false⟩ }

/-- After `stop` it is read once, and starting again does not help. -/
theorem stopped_drains_oneQueued :
    ∃ last, Run SubscriberStep oneQueued.stop [.receive, .start, .receive]
        last ∧
      last.delivered = [.ofError .success] := by
  have run : Run SubscriberStep oneQueued.stop [.receive, .start, .receive]
      _ := .step .receive (.step .start (.step .receive (.refl _)))
  exact ⟨_, run, (stopped_drains run).delivered⟩

end RedisClient
