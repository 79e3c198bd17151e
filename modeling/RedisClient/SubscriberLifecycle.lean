import RedisClient.SubscriberMachine

/-!
# Starting and stopping a subscriber

Whether two readers can be alive at once, and whether a reader can outlive a
stop that has passed the latch.  The latch can be used up only once, and `start`
looks at it together with a flag that `stop` clears before its reader has ended,
so both depend on when `start` is called.
-/

namespace RedisClient

open Basis

namespace ReaderTask

variable {task next : ReaderTask} {readMessages : Bool}

theorem alive_of_resume (moves : task.resume readMessages = some next) :
    task.alive = true := by
  obtain ⟨point, readBuffer⟩ := task
  cases point <;> first | rfl | cases moves

@[simp] theorem alive_moveTo (task : ReaderTask) (point : ReaderPoint) :
    (task.moveTo point).alive = point.alive := rfl

@[simp] theorem alive_cancel (task : ReaderTask) :
    task.cancel.alive = task.alive := by
  obtain ⟨point, readBuffer⟩ := task
  cases point <;> rfl

end ReaderTask

namespace Subscriber

variable {state : Subscriber} {reader : Nat} {task next : ReaderTask}

theorem alive_start (state : Subscriber) :
    state.start.alive =
      if state.running then state.alive else state.alive + 1 := by
  unfold start
  split
  · rfl
  · exact Tasks.countP_append_singleton _ _ _

@[simp] theorem readMessages_start (state : Subscriber) :
    state.start.readMessages = true := by
  unfold start
  split <;> rename_i running
  · simp only [Subscriber.running, Bool.and_eq_true] at running
    exact running.2
  · rfl

@[simp] theorem latch_start (state : Subscriber) :
    state.start.latch = state.latch := by
  unfold start
  split <;> rfl

@[simp] theorem stops_start (state : Subscriber) :
    state.start.stops = state.stops.map StopCall.overtaken := by
  unfold start
  split <;> rfl

@[simp] theorem alive_stop (state : Subscriber) :
    state.stop.alive = state.alive :=
  Tasks.countP_map_of_eq ReaderTask.alive_cancel _

theorem alive_resumed (found : state.readers[reader]? = some task)
    (moves : task.resume state.readMessages = some next) :
    (state.resumed reader task next).alive + 1 =
      state.alive + next.alive.toNat := by
  have counted := Tasks.countP_set_add ReaderTask.alive found next
  rw [ReaderTask.alive_of_resume moves] at counted
  exact counted

theorem countP_readDone (found : state.readers[reader]? = some task)
    (reading : task.point = .reading) (result : ReadResult) :
    (state.readers.set reader (task.readDone result)).countP
      ReaderTask.alive = state.alive := by
  have same : (task.readDone result).alive = task.alive := by
    rw [ReaderTask.alive, ReaderTask.alive, reading]
    rfl
  exact Tasks.countP_set_of_eq found same

theorem countP_sendDone (found : state.readers[reader]? = some task)
    {reply : Reply} {stop it : Nat}
    (sending : task.point = .sending reply stop it) (code : ErrorCode) :
    (state.readers.set reader (task.moveTo (.sent stop it code))).countP
      ReaderTask.alive = state.alive := by
  have same : (task.moveTo (.sent stop it code)).alive = task.alive := by
    rw [ReaderTask.alive_moveTo, ReaderTask.alive, sending]
    rfl
  exact Tasks.countP_set_of_eq found same

theorem latch_resumed (state : Subscriber) (reader : Nat)
    (task next : ReaderTask) :
    (next.point = .finished ∧
        (state.resumed reader task next).latch = state.latch - 1) ∨
      (next.point ≠ .finished ∧
        (state.resumed reader task next).latch = state.latch) := by
  cases point : next.point <;> simp [resumed, point]

end Subscriber

/-- What the steps do to the latch and to the number of readers. -/
theorem SubscriberStep.counts {state next : Subscriber}
    {event : SubscriberEvent} (step : SubscriberStep state event next) :
    (event = .start ∧ next = state.start) ∨
      (∃ reader task moved, state.readers[reader]? = some task ∧
        task.resume state.readMessages = some moved ∧
        next = state.resumed reader task moved) ∨
      (next.alive = state.alive ∧ next.latch = state.latch) := by
  cases step with
  | start => exact Or.inl ⟨rfl, rfl⟩
  | stop => exact Or.inr (Or.inr ⟨state.alive_stop, rfl⟩)
  | latched found opened => exact Or.inr (Or.inr ⟨rfl, rfl⟩)
  | disconnected found => exact Or.inr (Or.inr ⟨rfl, rfl⟩)
  | resume found moves => exact Or.inr (Or.inl ⟨_, _, _, found, moves, rfl⟩)
  | readDone found reading =>
      exact Or.inr (Or.inr ⟨Subscriber.countP_readDone found reading _, rfl⟩)
  | sendDone found sending sent =>
      exact Or.inr (Or.inr ⟨Subscriber.countP_sendDone found sending _, rfl⟩)
  | receive => exact Or.inr (Or.inr ⟨rfl, rfl⟩)

/-! ## One reader at a time -/

/-- `start` finds the subscriber running, or no reader. -/
def Subscriber.StartsAlone (state : Subscriber) : SubscriberEvent → Prop
  | .start => state.running = true ∨ state.alive = 0
  | _ => True

theorem SubscriberStep.single_kept {state next : Subscriber}
    {event : SubscriberEvent} (step : SubscriberStep state event next)
    (allowed : state.StartsAlone event) (single : state.alive ≤ 1) :
    next.alive ≤ 1 := by
  rcases step.counts with ⟨rfl, rfl⟩ |
    ⟨reader, task, moved, found, moves, rfl⟩ | ⟨alive, latch⟩
  · rw [Subscriber.alive_start]
    rcases allowed with running | none
    · rw [if_pos running]
      exact single
    · rw [none]
      split <;> omega
  · have counted := Subscriber.alive_resumed found moves
    have once := Bool.toNat_le moved.alive
    omega
  · omega

/-- Whether the last of the calls of `start` and `stop` is a start. -/
def SubscriberEvent.leavesStarted (started : Bool) : SubscriberEvent → Bool
  | .start => true
  | .stop => false
  | _ => started

def startedLast (events : List SubscriberEvent) : Bool :=
  events.foldl SubscriberEvent.leavesStarted false

/-- The reader has left its loop, which counts the latch down. -/
def ReaderTask.left (task : ReaderTask) : Bool :=
  match task.point with
  | .finished => true
  | _ => false

/-- What `running` depends on is known from the calls and the readers. -/
structure Subscriber.Recalls (past : List SubscriberEvent)
    (state : Subscriber) : Prop where
  started : state.readMessages = startedLast past
  latch : state.latch = 1 - state.readers.countP ReaderTask.left

theorem Subscriber.Recalls.running_iff {past : List SubscriberEvent}
    {state : Subscriber} (recalls : state.Recalls past) :
    state.running = true ↔
      startedLast past = true ∧ ∀ task ∈ state.readers, task.left = false := by
  have none : state.latch ≠ 0 ↔
      state.readers.countP ReaderTask.left = 0 := by
    have latch := recalls.latch
    omega
  simp only [Subscriber.running, Bool.and_eq_true, bne_iff_ne, none,
    List.countP_eq_zero, Bool.not_eq_true, recalls.started]
  exact and_comm

private theorem ReaderTask.left_of_resume {task next : ReaderTask}
    {readMessages : Bool} (moves : task.resume readMessages = some next) :
    task.left = false := by
  obtain ⟨point, readBuffer⟩ := task
  cases point <;> first | rfl | cases moves

theorem SubscriberStep.recalls {past : List SubscriberEvent}
    {state next : Subscriber} {event : SubscriberEvent}
    (step : SubscriberStep state event next) (recalls : state.Recalls past) :
    next.Recalls (past ++ [event]) := by
  obtain ⟨started, latch⟩ := recalls
  have later : startedLast (past ++ [event]) =
      event.leavesStarted (startedLast past) := by
    rw [startedLast, List.foldl_append]
    rfl
  rw [← started] at later
  cases step with
  | start =>
      have counted :
          (state.readers ++ [ReaderTask.spawned]).countP ReaderTask.left =
            state.readers.countP ReaderTask.left :=
        Tasks.countP_append_singleton _ _ _
      refine ⟨(Subscriber.readMessages_start state).trans later.symm, ?_⟩
      rw [Subscriber.latch_start, latch, Subscriber.start]
      split
      · rfl
      · exact congrArg (1 - ·) counted.symm
  | stop =>
      refine ⟨later.symm, latch.trans (congrArg (1 - ·) ?_)⟩
      refine (Tasks.countP_map_of_eq (fun task => ?_) _).symm
      obtain ⟨point, readBuffer⟩ := task
      cases point <;> rfl
  | latched found opened => exact ⟨later.symm, latch⟩
  | disconnected found => exact ⟨later.symm, latch⟩
  | @resume reader task moved found moves =>
      have counted := Tasks.countP_set_add ReaderTask.left found moved
      rw [ReaderTask.left_of_resume moves] at counted
      refine ⟨later.symm, ?_⟩
      change _ = 1 - (state.readers.set reader moved).countP ReaderTask.left
      rcases Subscriber.latch_resumed state reader task moved with
        ⟨finished, latchNext⟩ | ⟨notFinished, latchNext⟩
      · have left : moved.left = true := by rw [ReaderTask.left, finished]
        rw [left] at counted
        simp only [Bool.toNat_false, Bool.toNat_true] at counted
        omega
      · have stays : moved.left = false := by
          unfold ReaderTask.left
          split
          · rename_i finished
            exact absurd finished notFinished
          · rfl
        rw [stays] at counted
        omega
  | readDone found reading =>
      refine ⟨later.symm, latch.trans (congrArg (1 - ·) ?_)⟩
      refine (Tasks.countP_set_of_eq found ?_).symm
      rw [ReaderTask.left, ReaderTask.left, reading]
      rfl
  | sendDone found sending sent =>
      refine ⟨later.symm, latch.trans (congrArg (1 - ·) ?_)⟩
      refine (Tasks.countP_set_of_eq found ?_).symm
      rw [ReaderTask.left, ReaderTask.left, sending]
      rfl
  | receive => exact ⟨later.symm, latch⟩

/-- In every run in which `start` is called only while the subscriber runs or
has no reader, there is never more than one.  That is so where the last call was
a start and no reader has left its loop, or where all readers have ended; a call
at any other time gives a second one at once. -/
theorem one_reader {events : List SubscriberEvent} {state : Subscriber}
    (run : Run (Restricted SubscriberStep Subscriber.StartsAlone) .initial
      events state) :
    state.alive ≤ 1 ∧
      (state.StartsAlone .start ↔
        (startedLast events = true ∧
            ∀ task ∈ state.readers, task.left = false) ∨
          ∀ task ∈ state.readers, task.alive = false) ∧
      (¬state.StartsAlone .start →
        SubscriberStep state .start state.start ∧ state.start.alive = 2) := by
  have single : state.alive ≤ 1 :=
    run.restricted_invariant (Nat.zero_le 1)
      fun _ _ _ allowed step => step.single_kept allowed
  have recalls : state.Recalls events :=
    run.history (fun _ _ _ _ recalls ⟨_, step⟩ => step.recalls recalls) []
      ⟨rfl, rfl⟩
  refine ⟨single, ?_, fun violated => ⟨.start, ?_⟩⟩
  · rw [Subscriber.StartsAlone, recalls.running_iff, Subscriber.alive,
      List.countP_eq_zero]
    simp only [Bool.not_eq_true]
  simp only [Subscriber.StartsAlone, not_or, Bool.not_eq_true] at violated
  rw [Subscriber.alive_start, violated.1]
  simp only [Bool.false_eq_true, if_false]
  omega

/-- A second `start` behind the end of the first reader. -/
theorem one_reader_startAgain :
    ∃ state, Run (Restricted SubscriberStep Subscriber.StartsAlone) .initial
      [.start, .stop, .resume 0, .start] state ∧ state.alive ≤ 1 := by
  have run : ∃ state, Run (Restricted SubscriberStep Subscriber.StartsAlone)
      .initial [.start, .stop, .resume 0, .start] state :=
    ⟨_, .step ⟨Or.inr rfl, .start⟩ (.step ⟨trivial, .stop⟩
      (.step ⟨trivial, .resume rfl rfl⟩ (.step ⟨Or.inr rfl, .start⟩
        (.refl _))))⟩
  obtain ⟨state, run⟩ := run
  exact ⟨state, run, (one_reader run).1⟩

/-- Behind the first stop the latch is used up and `running` is always false:
the guard of `start` stops nothing. -/
theorem not_one_reader_restarted :
    ¬∀ events state, Run SubscriberStep .initial events state →
      state.alive ≤ 1 := by
  intro single
  have run : Run SubscriberStep .initial
      [.start, .stop, .resume 0, .latched 0, .disconnected 0, .start, .start]
      _ :=
    .step .start (.step .stop (.step (.resume rfl rfl) (.step (.latched rfl rfl)
      (.step (.disconnected rfl) (.step .start (.step .start (.refl _)))))))
  exact absurd (single _ _ run) (by decide)

/-! ## Quiescence -/

/-- Behind the latch of a stop no reader is alive, unless `start` was called
after the stop began. -/
def Subscriber.Quiescent (state : Subscriber) : Prop :=
  ∀ call ∈ state.stops, call.point ≠ .waiting → call.startedSince = false →
    state.alive = 0

/-- `start` finds the subscriber running, or it spawns the only reader while
the latch is still to be counted down. -/
def Subscriber.StartsBeforeLatch (state : Subscriber) :
    SubscriberEvent → Prop
  | .start => state.running = true ∨ (state.alive = 0 ∧ state.latch ≠ 0)
  | _ => True

/-- The latch stands for the one reader there may be. -/
structure Subscriber.Latched (state : Subscriber) : Prop where
  alive_le : state.alive ≤ state.latch
  latch_le : state.latch ≤ 1
  passed : ∀ call ∈ state.stops, call.point ≠ .waiting → state.latch = 0

theorem Subscriber.initial_latched : Subscriber.initial.Latched where
  alive_le := Nat.zero_le 1
  latch_le := Nat.le_refl 1
  passed := nofun

theorem Subscriber.Latched.quiescent {state : Subscriber}
    (latched : state.Latched) : state.Quiescent := by
  intro call member passed notStarted
  have used := latched.passed call member passed
  have aliveLe := latched.alive_le
  omega

theorem SubscriberStep.passed {state next : Subscriber}
    {event : SubscriberEvent} (step : SubscriberStep state event next)
    (passed : ∀ call ∈ state.stops, call.point ≠ .waiting → state.latch = 0) :
    ∀ call ∈ next.stops, call.point ≠ .waiting → state.latch = 0 := by
  intro call member past
  cases step with
  | start =>
      rw [Subscriber.stops_start] at member
      obtain ⟨before, beforeMember, rfl⟩ := List.mem_map.mp member
      exact passed before beforeMember past
  | stop =>
      rcases List.mem_append.mp member with before | new
      · exact passed call before past
      · cases List.mem_singleton.mp new
        exact absurd rfl past
  | latched found opened => exact opened
  | @disconnected index since found =>
      exact passed _ (List.mem_of_getElem? found) (by simp)
  | resume found moves => exact passed call member past
  | readDone found reading => exact passed call member past
  | sendDone found sending sent => exact passed call member past
  | receive => exact passed call member past

theorem SubscriberStep.latched_kept {state next : Subscriber}
    {event : SubscriberEvent} (step : SubscriberStep state event next)
    (allowed : state.StartsBeforeLatch event) (latched : state.Latched) :
    next.Latched := by
  obtain ⟨aliveLe, latchLe, passed⟩ := latched
  have stillPassed := step.passed passed
  rcases step.counts with ⟨rfl, rfl⟩ |
    ⟨reader, task, moved, found, moves, rfl⟩ | ⟨alive, latch⟩
  · refine ⟨?_, ?_, ?_⟩
    · rw [Subscriber.alive_start, Subscriber.latch_start]
      rcases allowed with running | ⟨none, opened⟩
      · rw [if_pos running]
        exact aliveLe
      · rw [none]
        split <;> omega
    · rw [Subscriber.latch_start]
      exact latchLe
    · simpa only [Subscriber.latch_start] using stillPassed
  · have counted := Subscriber.alive_resumed found moves
    rcases Subscriber.latch_resumed state reader task moved with
      ⟨finished, latch⟩ | ⟨notFinished, latch⟩
    · have ended : moved.alive = false := by
        rw [ReaderTask.alive, finished]
        rfl
      rw [ended] at counted
      simp only [Bool.toNat_false] at counted
      refine ⟨by omega, by omega, fun call member past => ?_⟩
      have used := stillPassed call member past
      omega
    · have once := Bool.toNat_le moved.alive
      refine ⟨by omega, by omega, fun call member past => ?_⟩
      have used := stillPassed call member past
      omega
  · refine ⟨by omega, by omega, fun call member past => ?_⟩
    have used := stillPassed call member past
    omega

private theorem Subscriber.not_quiescent_of_latched {state : Subscriber}
    {call : Nat} (found : state.stops[call]? = some ⟨.waiting, false⟩)
    (used : state.latch = 0) (alive : state.alive ≠ 0) :
    ∃ later, SubscriberStep state (.latched call) later ∧
      ¬later.Quiescent := by
  refine ⟨_, .latched found used, fun quiescent => ?_⟩
  have member := List.mem_of_getElem? (Tasks.found_set_self found
    (⟨.disconnecting, false⟩ : StopCall))
  exact alive (quiescent _ member (by simp) rfl)

/-- A `start` against the condition can be followed by a stop that leaves a
reader behind. -/
private theorem Subscriber.Latched.exists_not_quiescent {state : Subscriber}
    (latched : state.Latched) (violated : ¬state.StartsBeforeLatch .start) :
    ∃ events later, Run SubscriberStep state (.start :: events) later ∧
      ¬later.Quiescent := by
  simp only [Subscriber.StartsBeforeLatch, not_or, Bool.not_eq_true, not_and,
    not_not] at violated
  obtain ⟨notRunning, misplaced⟩ := violated
  have spawns : state.start.alive = state.alive + 1 := by
    rw [Subscriber.alive_start, notRunning]
    rfl
  have stopped : state.start.stop.stops[state.start.stops.length]? =
      some ⟨.waiting, false⟩ := List.getElem?_concat_length
  have stoppedAlive : state.start.stop.alive = state.alive + 1 :=
    (Subscriber.alive_stop _).trans spawns
  have aliveLe := latched.alive_le
  have latchLe := latched.latch_le
  by_cases used : state.latch = 0
  · have usedNow : state.start.stop.latch = 0 :=
      (Subscriber.latch_start state).trans used
    obtain ⟨later, step, broken⟩ :=
      Subscriber.not_quiescent_of_latched stopped usedNow (by omega)
    exact ⟨_, later, .step .start (.step .stop (.step step (.refl _))), broken⟩
  · -- the new reader finds the flag cleared and uses up the latch
    have readers : state.start.stop.readers =
        state.readers.map ReaderTask.cancel ++ [.spawned] := by
      simp only [Subscriber.stop, Subscriber.start, notRunning,
        Bool.false_eq_true, if_false, List.map_append]
      rfl
    have found : state.start.stop.readers[state.readers.length]? =
        some .spawned := by
      rw [readers, ← List.length_map ReaderTask.cancel]
      exact List.getElem?_concat_length
    have moves : ReaderTask.spawned.resume state.start.stop.readMessages =
        some (ReaderTask.spawned.moveTo .finished) := rfl
    have counted := Subscriber.alive_resumed found moves
    simp only [ReaderTask.alive_moveTo, ReaderPoint.alive,
      Bool.toNat_false] at counted
    have latch := Subscriber.latch_start state
    have usedNow : (state.start.stop.resumed state.readers.length .spawned
        (ReaderTask.spawned.moveTo .finished)).latch = 0 := by
      change state.start.latch - 1 = 0
      omega
    have aliveNow : state.alive ≠ 0 := fun none => used (misplaced none)
    obtain ⟨later, step, broken⟩ :=
      @Subscriber.not_quiescent_of_latched (state.start.stop.resumed _ _ _) _
        stopped usedNow (by omega)
    exact ⟨_, later, .step .start (.step .stop
      (.step (.resume found moves) (.step step (.refl _)))), broken⟩

/-- In every run in which `start` spawns a reader only while there is none and
the latch is not used up, no reader outlives the latch of a stop.  A call at
any other time can be followed by a stop that leaves a reader behind. -/
theorem stop_quiescent {events : List SubscriberEvent} {state : Subscriber}
    (run : Run (Restricted SubscriberStep Subscriber.StartsBeforeLatch)
      .initial events state) :
    state.Quiescent ∧
      (¬state.StartsBeforeLatch .start →
        ∃ events later, Run SubscriberStep state (.start :: events) later ∧
          ¬later.Quiescent) := by
  have latched : state.Latched :=
    run.restricted_invariant Subscriber.initial_latched
      fun _ _ _ allowed step => step.latched_kept allowed
  exact ⟨latched.quiescent, latched.exists_not_quiescent⟩

/-- One start and one stop that has passed the latch. -/
theorem stop_quiescent_once :
    ∃ state, Run (Restricted SubscriberStep Subscriber.StartsBeforeLatch)
      .initial [.start, .stop, .resume 0, .latched 0] state ∧
      state.Quiescent := by
  have run : ∃ state,
      Run (Restricted SubscriberStep Subscriber.StartsBeforeLatch) .initial
        [.start, .stop, .resume 0, .latched 0] state :=
    ⟨_, .step ⟨Or.inr ⟨rfl, by decide⟩, .start⟩ (.step ⟨trivial, .stop⟩
      (.step ⟨trivial, .resume rfl rfl⟩ (.step ⟨trivial, .latched rfl rfl⟩
        (.refl _))))⟩
  obtain ⟨state, run⟩ := run
  exact ⟨state, run, (stop_quiescent run).1⟩

/-- The second stop finds the latch used up by the first one and does not wait
for the reader that was started between them. -/
theorem not_stop_quiescent_restarted :
    ¬∀ events state, Run SubscriberStep .initial events state →
      state.Quiescent := by
  intro quiescent
  have run : Run SubscriberStep .initial
      [.start, .stop, .resume 0, .latched 0, .disconnected 0, .start, .stop,
        .latched 1] _ :=
    .step .start (.step .stop (.step (.resume rfl rfl) (.step (.latched rfl rfl)
      (.step (.disconnected rfl) (.step .start (.step .stop
        (.step (.latched rfl rfl) (.refl _))))))))
  have ended := quiescent _ _ run ⟨.disconnecting, false⟩ (by decide)
    (by decide) rfl
  exact absurd ended (by decide)

end RedisClient
