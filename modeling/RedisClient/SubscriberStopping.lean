import RedisClient.SubscriberLifecycle

/-!
# Stopping a subscriber

Whether a stop that waits for the latch waits for somebody who will count it
down.  The reader looks at the flag only at the top of its loop, takes a
connection before it reads, and `cancel` is not remembered, so this depends on
where `stop` finds the reader.
-/

namespace RedisClient

open Basis

/-- A stop that waits for the latch waits for a reader that is alive, and no
reader is blocked in a read.  `cancel` ended every read that was pending, so
such a read would have been issued after it. -/
def Subscriber.Awaited (state : Subscriber) : Prop :=
  ∀ call ∈ state.stops, call.point = .waiting → state.latch ≠ 0 →
    0 < state.alive ∧ ∀ task ∈ state.readers, task.point ≠ .reading

/-- Where the reader calls `load_data` next, the call returns. -/
def ReaderTask.Decodes (task : ReaderTask) : Prop :=
  ∀ stop it, task.parsesAt = some (stop, it) → it ≠ stop →
    ∃ reply next, loadData task.readBuffer.bytes stop it =
      .returns (reply, next)

/-- `start` is not called between a stop and the end of its reader, `stop` finds
a reader and none of them in `connection_.get()` unless the latch is used up,
and behind a stop no call of `load_data` throws or reads outside its buffer. -/
def Subscriber.StopsReader (state : Subscriber) : SubscriberEvent → Prop
  | .start => state.stops = [] ∨ state.latch = 0
  | .stop =>
      state.latch = 0 ∨
        (0 < state.alive ∧ ∀ task ∈ state.readers, task.point ≠ .connecting)
  | .resume reader =>
      state.stops = [] ∨ state.latch = 0 ∨
        ∀ task, state.readers[reader]? = some task → task.Decodes
  | _ => True

/-- In `connection_.get()` or in a read. -/
def ReaderPoint.atSocket : ReaderPoint → Bool
  | .connecting => true
  | .reading => true
  | _ => false

namespace ReaderTask

variable {task next : ReaderTask} {stop it : Nat}

theorem parse_of_returns {readMessages : Bool} {reply : Reply} {behind : Nat}
    (notStop : it ≠ stop)
    (run : loadData task.readBuffer.bytes stop it =
      .returns (reply, behind)) :
    task.parse readMessages stop it =
      task.moveTo (.sending reply stop behind) := by
  rw [parse, if_neg notStop, run]

private theorem parse_of_stopping
    (decodes : it ≠ stop → ∃ reply next,
      loadData task.readBuffer.bytes stop it = .returns (reply, next)) :
    (task.parse false stop it).point = .finished ∨
      ((task.parse false stop it).alive = true ∧
        (task.parse false stop it).point.atSocket = false) := by
  by_cases atStop : it = stop
  · left
    rw [parse, if_pos atStop]
    rfl
  · obtain ⟨reply, behind, run⟩ := decodes atStop
    rw [parse_of_returns atStop run]
    exact Or.inr ⟨rfl, rfl⟩

theorem resume_of_stopping (moves : task.resume false = some next)
    (away : task.point.atSocket = false) (decodes : task.Decodes) :
    next.point = .finished ∨
      (next.alive = true ∧ next.point.atSocket = false) := by
  rcases resume_cases moves with rfl | ⟨connecting, rfl⟩ | rfl |
    ⟨stop, it, parses, rfl⟩
  · exact Or.inl rfl
  · rw [connecting] at away
    cases away
  · exact Or.inl rfl
  · exact parse_of_stopping (decodes stop it parses)

theorem resume_of_not_decodes {readMessages : Bool}
    (moves : task.resume readMessages = some next)
    (undecoded : ¬task.Decodes) : next.point = .failed := by
  simp only [Decodes, not_forall] at undecoded
  obtain ⟨stop, it, parses, notStop, broken⟩ := undecoded
  rw [resume_of_parsesAt parses] at moves
  cases moves
  rw [parse, if_neg notStop]
  cases run : loadData task.readBuffer.bytes stop it with
  | returns loaded => exact absurd ⟨loaded.1, loaded.2, run⟩ broken
  | throws exception => rfl
  | faults position => rfl
  | exhausted => rfl

end ReaderTask

/-- What holds behind a stop while the latch is not used up. -/
structure Subscriber.Stopping (state : Subscriber) : Prop where
  latch_le : state.latch ≤ 1
  passed : ∀ call ∈ state.stops, call.point ≠ .waiting → state.latch = 0
  fresh : state.stops = [] → state.readMessages = false → state.alive = 0
  single : state.latch ≠ 0 → state.alive ≤ 1
  cleared : state.stops ≠ [] → state.latch ≠ 0 → state.readMessages = false
  reader : state.stops ≠ [] → state.latch ≠ 0 → 0 < state.alive
  away : state.stops ≠ [] → state.latch ≠ 0 →
    ∀ task ∈ state.readers, task.point.atSocket = false

theorem Subscriber.initial_stopping : Subscriber.initial.Stopping where
  latch_le := Nat.le_refl 1
  passed := nofun
  fresh := fun _ _ => rfl
  single := fun _ => Nat.zero_le 1
  cleared := fun stopped => absurd rfl stopped
  reader := fun stopped => absurd rfl stopped
  away := fun stopped => absurd rfl stopped

theorem Subscriber.Stopping.awaited {state : Subscriber}
    (stopping : state.Stopping) : state.Awaited := by
  intro call member waiting notUsed
  have stopped : state.stops ≠ [] := List.ne_nil_of_mem member
  refine ⟨stopping.reader stopped notUsed, fun task taskMember reading => ?_⟩
  have away := stopping.away stopped notUsed task taskMember
  rw [reading] at away
  cases away

private theorem ReaderTask.atSocket_cancel {task : ReaderTask}
    (notConnecting : task.point ≠ .connecting) :
    task.cancel.point.atSocket = false := by
  obtain ⟨point, readBuffer⟩ := task
  cases point <;> first | rfl | exact absurd rfl notConnecting

/-- Once the latch is used up nobody waits for it. -/
private theorem Subscriber.stopping_of_used {state : Subscriber}
    (used : state.latch = 0)
    (fresh : state.stops = [] → state.readMessages = false →
      state.alive = 0) : state.Stopping where
  latch_le := by omega
  passed := fun _ _ _ => used
  fresh := fresh
  single := fun notUsed => absurd used notUsed
  cleared := fun _ notUsed => absurd used notUsed
  reader := fun _ notUsed => absurd used notUsed
  away := fun _ notUsed => absurd used notUsed

namespace Subscriber.Stopping

variable {state : Subscriber}

theorem start (stopping : state.Stopping)
    (allowed : state.stops = [] ∨ state.latch = 0) : state.start.Stopping := by
  have fresh : state.start.stops = [] → state.start.readMessages = false →
      state.start.alive = 0 := by
    intro _ cleared
    rw [readMessages_start] at cleared
    cases cleared
  rcases allowed with notStopped | used
  · have stillNot : state.start.stops = [] := by
      rw [stops_start, notStopped]
      rfl
    refine ⟨?_, ?_, fresh, ?_, ?_, ?_, ?_⟩
    · rw [latch_start]
      exact stopping.latch_le
    · rw [stillNot]
      exact nofun
    · intro notUsed
      rw [latch_start] at notUsed
      rw [alive_start]
      split <;> rename_i running
      · exact stopping.single notUsed
      · have cleared : state.readMessages = false := by
          simpa [Subscriber.running, notUsed] using running
        rw [stopping.fresh notStopped cleared]
    · exact fun stopped => absurd stillNot stopped
    · exact fun stopped => absurd stillNot stopped
    · exact fun stopped => absurd stillNot stopped
  · exact stopping_of_used ((latch_start state).trans used) fresh

theorem stop (stopping : state.Stopping)
    (allowed : state.latch = 0 ∨
      (0 < state.alive ∧
        ∀ task ∈ state.readers, task.point ≠ .connecting)) :
    state.stop.Stopping := by
  have stopped : state.stop.stops ≠ [] := by simp [Subscriber.stop]
  have passed := (@SubscriberStep.stop state).passed stopping.passed
  have found (notUsed : state.stop.latch ≠ 0) := allowed.resolve_left notUsed
  refine ⟨stopping.latch_le, passed, ?_, ?_, ?_, ?_, ?_⟩
  · exact fun notStopped => absurd notStopped stopped
  · rw [alive_stop]
    exact stopping.single
  · exact fun _ _ => rfl
  · intro _ notUsed
    rw [alive_stop]
    exact (found notUsed).1
  · intro _ notUsed task member
    obtain ⟨before, beforeMember, rfl⟩ := List.mem_map.mp member
    exact ReaderTask.atSocket_cancel ((found notUsed).2 before beforeMember)

/-- A reader that is found going on is alive, so `start` has been called. -/
private theorem not_fresh (stopping : state.Stopping) {reader : Nat}
    {task : ReaderTask} (found : state.readers[reader]? = some task)
    (alive : task.alive = true) :
    ¬(state.stops = [] ∧ state.readMessages = false) := by
  rintro ⟨notStopped, cleared⟩
  have counted := Tasks.countP_pos_of_found found alive
  have none := stopping.fresh notStopped cleared
  rw [Subscriber.alive] at none
  omega

theorem resumed (stopping : state.Stopping) {reader : Nat}
    {task next : ReaderTask} (found : state.readers[reader]? = some task)
    (moves : task.resume state.readMessages = some next)
    (allowed : state.stops = [] ∨ state.latch = 0 ∨ task.Decodes) :
    (state.resumed reader task next).Stopping := by
  have alive := ReaderTask.alive_of_resume moves
  have fresh : (state.resumed reader task next).stops = [] →
      (state.resumed reader task next).readMessages = false →
      (state.resumed reader task next).alive = 0 :=
    fun notStopped cleared =>
      absurd ⟨notStopped, cleared⟩ (stopping.not_fresh found alive)
  have counted := alive_resumed found moves
  have latchLe := stopping.latch_le
  rcases latch_resumed state reader task next with
    ⟨finished, latch⟩ | ⟨notFinished, latch⟩
  · exact stopping_of_used (by omega) fresh
  · have stays (stopped : state.stops ≠ []) (notUsed : state.latch ≠ 0) :
        next.alive = true ∧ next.point.atSocket = false := by
      rw [stopping.cleared stopped notUsed] at moves
      have away := stopping.away stopped notUsed task
        (List.mem_of_getElem? found)
      have decodes := (allowed.resolve_left stopped).resolve_left notUsed
      exact (ReaderTask.resume_of_stopping moves away decodes).resolve_left
        notFinished
    have once := Bool.toNat_le next.alive
    refine ⟨by omega, ?_, fresh, ?_, ?_, ?_, ?_⟩
    · rw [latch]
      exact stopping.passed
    · intro notUsed
      rw [latch] at notUsed
      have single := stopping.single notUsed
      omega
    · rw [latch]
      exact stopping.cleared
    · rw [latch]
      intro stopped notUsed
      rw [(stays stopped notUsed).1] at counted
      have reader := stopping.reader stopped notUsed
      simp only [Bool.toNat_true] at counted
      omega
    · rw [latch]
      intro stopped notUsed other member
      rcases List.mem_or_eq_of_mem_set member with before | rfl
      · exact stopping.away stopped notUsed other before
      · exact (stays stopped notUsed).2

end Subscriber.Stopping

theorem SubscriberStep.stopping_kept {state next : Subscriber}
    {event : SubscriberEvent} (step : SubscriberStep state event next)
    (allowed : state.StopsReader event) (stopping : state.Stopping) :
    next.Stopping := by
  cases step with
  | start => exact stopping.start allowed
  | stop => exact stopping.stop allowed
  | latched found opened =>
      exact Subscriber.stopping_of_used opened
        fun isEmpty => absurd isEmpty (Tasks.set_ne_nil found _)
  | disconnected found =>
      have used := stopping.passed _ (List.mem_of_getElem? found) (by simp)
      exact Subscriber.stopping_of_used used
        fun isEmpty => absurd isEmpty (Tasks.set_ne_nil found _)
  | resume found moves =>
      exact stopping.resumed found moves
        (allowed.imp_right (Or.imp_right fun decodes => decodes _ found))
  | @readDone index task result found reading =>
      have alive := Subscriber.countP_readDone found reading result
      obtain ⟨latchLe, passed, fresh, single, cleared, reader, away⟩ := stopping
      refine ⟨latchLe, passed, ?_, ?_, cleared, ?_, ?_⟩
      · exact fun notStopped cleared => alive.trans (fresh notStopped cleared)
      · exact fun notUsed => alive.le.trans (single notUsed)
      · exact fun stopped notUsed => alive.ge.trans_lt' (reader stopped notUsed)
      · intro stopped notUsed
        have inRead := away stopped notUsed task (List.mem_of_getElem? found)
        rw [reading] at inRead
        cases inRead
  | @sendDone index stop it task reply queue given code found sending sent =>
      have alive := Subscriber.countP_sendDone found sending code
      obtain ⟨latchLe, passed, fresh, single, cleared, reader, away⟩ := stopping
      refine ⟨latchLe, passed, ?_, ?_, cleared, ?_, ?_⟩
      · exact fun notStopped cleared => alive.trans (fresh notStopped cleared)
      · exact fun notUsed => alive.le.trans (single notUsed)
      · exact fun stopped notUsed => alive.ge.trans_lt' (reader stopped notUsed)
      · intro stopped notUsed other member
        rcases List.mem_or_eq_of_mem_set member with before | rfl
        · exact away stopped notUsed other before
        · rfl
  | receive =>
      obtain ⟨latchLe, passed, fresh, single, cleared, reader, away⟩ := stopping
      exact ⟨latchLe, passed, fresh, single, cleared, reader, away⟩

/-! ## What the condition leaves out -/

private theorem Subscriber.not_awaited_of_reading {state : Subscriber}
    {call : StopCall} (member : call ∈ state.stops)
    (waiting : call.point = .waiting) (notUsed : state.latch ≠ 0)
    {task : ReaderTask} (reader : task ∈ state.readers)
    (reading : task.point = .reading) : ¬state.Awaited :=
  fun awaited => (awaited call member waiting notUsed).2 task reader reading

private theorem Subscriber.not_awaited_of_alone {state : Subscriber}
    {call : StopCall} (member : call ∈ state.stops)
    (waiting : call.point = .waiting) (notUsed : state.latch ≠ 0)
    (alone : state.alive = 0) : ¬state.Awaited := by
  intro awaited
  have alive := (awaited call member waiting notUsed).1
  omega

namespace Subscriber.Stopping

variable {state : Subscriber}

private theorem exists_waiting (stopping : state.Stopping)
    (stopped : state.stops ≠ []) (notUsed : state.latch ≠ 0) :
    ∃ call ∈ state.stops, call.point = .waiting := by
  obtain ⟨call, member⟩ := List.exists_mem_of_ne_nil _ stopped
  refine ⟨call, member, ?_⟩
  by_contra past
  exact notUsed (stopping.passed call member past)

/-- The reader of a `start` behind a stop takes a connection and reads. -/
private theorem start_breaks (stopping : state.Stopping)
    (stopped : state.stops ≠ []) (notUsed : state.latch ≠ 0) :
    ∃ events later, Run SubscriberStep state.start events later ∧
      ¬later.Awaited := by
  have notRunning : state.running = false := by
    simp [Subscriber.running, stopping.cleared stopped notUsed]
  have found : state.start.readers[state.readers.length]? =
      some .spawned := by
    simp only [Subscriber.start, notRunning, Bool.false_eq_true, if_false]
    exact List.getElem?_concat_length
  have connects : ReaderTask.spawned.resume state.start.readMessages =
      some (ReaderTask.spawned.moveTo .connecting) := by
    rw [readMessages_start]
    rfl
  have foundConnecting := Tasks.found_set_self found
    (ReaderTask.spawned.moveTo .connecting)
  have foundReading := Tasks.found_set_self foundConnecting
    (ReaderTask.spawned.moveTo .reading)
  obtain ⟨call, member, waiting⟩ := stopping.exists_waiting stopped notUsed
  have memberNow : call.overtaken ∈ state.start.stops := by
    rw [stops_start]
    exact List.mem_map.mpr ⟨call, member, rfl⟩
  have notUsedNow : state.start.latch ≠ 0 := by
    rw [latch_start]
    exact notUsed
  exact ⟨_, _, .step (.resume found connects)
    (.step (.resume foundConnecting rfl) (.refl _)),
    not_awaited_of_reading memberNow waiting notUsedNow
      (List.mem_of_getElem? foundReading) rfl⟩

/-- Nobody counts the latch down for a `stop` that finds no reader, and a
reader that is taking a connection reads behind the `cancel`. -/
private theorem stop_breaks (notUsed : state.latch ≠ 0)
    (misplaced : ¬(0 < state.alive ∧
      ∀ task ∈ state.readers, task.point ≠ .connecting)) :
    ∃ events later, Run SubscriberStep state.stop events later ∧
      ¬later.Awaited := by
  have member : (⟨.waiting, false⟩ : StopCall) ∈ state.stop.stops :=
    List.mem_append_right _ (List.mem_singleton.mpr rfl)
  by_cases alone : state.alive = 0
  · have aloneNow : state.stop.alive = 0 := by rw [alive_stop, alone]
    exact ⟨_, _, .refl _, not_awaited_of_alone member rfl notUsed aloneNow⟩
  · have connecting : ∃ task ∈ state.readers, task.point = .connecting := by
      by_contra nowhere
      exact misplaced ⟨by omega, fun task reader connects =>
        nowhere ⟨task, reader, connects⟩⟩
    obtain ⟨task, reader, connects⟩ := connecting
    obtain ⟨index, found⟩ := List.mem_iff_getElem?.mp reader
    have stays : task.cancel = task := by
      rw [ReaderTask.cancel, connects]
    have foundNow : state.stop.readers[index]? = some task := by
      simp only [Subscriber.stop, List.getElem?_map, found, Option.map_some,
        stays]
    have moves : task.resume state.stop.readMessages =
        some (task.moveTo .reading) := by
      rw [ReaderTask.resume, connects]
    have latch : (state.stop.resumed index task
        (task.moveTo .reading)).latch ≠ 0 := notUsed
    have foundReading :=
      Tasks.found_set_self foundNow (task.moveTo .reading)
    exact ⟨_, _, .step (.resume foundNow moves) (.refl _),
      not_awaited_of_reading member rfl latch
        (List.mem_of_getElem? foundReading) rfl⟩

/-- A reader that fails to decode behind a stop leaves it alone. -/
private theorem resume_breaks (stopping : state.Stopping)
    (stopped : state.stops ≠ []) (notUsed : state.latch ≠ 0) {reader : Nat}
    {task next : ReaderTask} (found : state.readers[reader]? = some task)
    (moves : task.resume state.readMessages = some next)
    (undecoded : ¬task.Decodes) :
    ¬(state.resumed reader task next).Awaited := by
  have failed := ReaderTask.resume_of_not_decodes moves undecoded
  have counted := alive_resumed found moves
  have ended : next.alive = false := by
    rw [ReaderTask.alive, failed]
    rfl
  have single := stopping.single notUsed
  rw [ended] at counted
  simp only [Bool.toNat_false] at counted
  have latch : (state.resumed reader task next).latch ≠ 0 := by
    simp only [Subscriber.resumed, failed]
    exact notUsed
  obtain ⟨call, member, waiting⟩ := stopping.exists_waiting stopped notUsed
  exact not_awaited_of_alone member waiting latch (by omega)

theorem exists_not_awaited (stopping : state.Stopping)
    {event : SubscriberEvent} {next : Subscriber}
    (violated : ¬state.StopsReader event)
    (step : SubscriberStep state event next) :
    ∃ events later, Run SubscriberStep next events later ∧
      ¬later.Awaited := by
  cases step with
  | start =>
      obtain ⟨stopped, notUsed⟩ := not_or.mp violated
      exact stopping.start_breaks stopped notUsed
  | stop =>
      obtain ⟨notUsed, misplaced⟩ := not_or.mp violated
      exact stop_breaks notUsed misplaced
  | @resume reader task moved found moves =>
      simp only [StopsReader, found, Option.some.injEq, forall_eq',
        not_or] at violated
      obtain ⟨stopped, notUsed, undecoded⟩ := violated
      exact ⟨_, _, .refl _,
        stopping.resume_breaks stopped notUsed found moves undecoded⟩
  | _ => exact absurd trivial violated

end Subscriber.Stopping

/-- In every run whose steps meet the condition, a stop that waits for the latch
waits for a reader that is alive and not blocked in a read.  From every step
against the condition a stop can come to wait for nobody. -/
theorem stop_awaited {events : List SubscriberEvent} {state : Subscriber}
    (run : Run (Restricted SubscriberStep Subscriber.StopsReader) .initial
      events state) :
    state.Awaited ∧
      ∀ event next, ¬state.StopsReader event →
        SubscriberStep state event next →
        ∃ events later, Run SubscriberStep next events later ∧
          ¬later.Awaited := by
  have stopping : state.Stopping :=
    run.restricted_invariant Subscriber.initial_stopping
      fun _ _ _ allowed step => step.stopping_kept allowed
  exact ⟨stopping.awaited, fun event next violated step =>
    stopping.exists_not_awaited violated step⟩

/-- A stop while the reader is in a read. -/
theorem stop_awaited_reading :
    ∃ state, Run (Restricted SubscriberStep Subscriber.StopsReader) .initial
      [.start, .resume 0, .resume 0, .stop] state ∧ state.Awaited := by
  have run : ∃ state, Run (Restricted SubscriberStep Subscriber.StopsReader)
      .initial [.start, .resume 0, .resume 0, .stop] state := by
    refine ⟨_, .step ⟨Or.inl rfl, .start⟩ (.step ⟨Or.inl rfl, .resume rfl rfl⟩
      (.step ⟨Or.inl rfl, .resume rfl rfl⟩
        (.step ⟨Or.inr ⟨by decide, ?_⟩, .stop⟩ (.refl _))))⟩
    intro task member
    cases List.mem_singleton.mp member
    nofun
  obtain ⟨state, run⟩ := run
  exact ⟨state, run, (stop_awaited run).1⟩

/-- A stop without a start, and a stop while the reader is taking a
connection. -/
theorem not_awaited_unstarted_connecting :
    ∃ alone connecting,
      Run SubscriberStep .initial [.stop] alone ∧ ¬alone.Awaited ∧
      Run SubscriberStep .initial [.start, .resume 0, .stop, .resume 0]
        connecting ∧ ¬connecting.Awaited := by
  refine ⟨_, _, .step .stop (.refl _), ?_,
    .step .start (.step (.resume rfl rfl) (.step .stop
      (.step (.resume rfl rfl) (.refl _)))), ?_⟩
  · intro awaited
    have waited := awaited ⟨.waiting, false⟩ (by decide) rfl (by decide)
    exact absurd waited.1 (by decide)
  · intro awaited
    have waited := awaited ⟨.waiting, false⟩ (by decide) rfl (by decide)
    exact waited.2 ⟨.reading, .zeros⟩ (List.mem_singleton.mpr rfl) rfl

end RedisClient
