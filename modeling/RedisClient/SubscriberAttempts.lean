import RedisClient.SubscriberConnection

/-!
# Attempts to connect

The call that has set `connecting_` attempts to connect until an attempt
succeeds or is aborted.  Its first attempt and the attempts of its loop are
written separately, and only those of the loop are tested for an abort.
-/

namespace RedisClient

open Basis

/-- The attempt is to be the last one: it connects or is aborted. -/
def ConnectAttempt.decides : ConnectAttempt → Bool
  | .fails _ _ _ => false
  | _ => true

/-- The outcomes of the attempts of a call. -/
def attemptsOf (call : Nat) (events : List ConnectionEvent) :
    List ConnectAttempt :=
  events.filterMap fun
    | .attempted other attempt => if other = call then some attempt else none
    | _ => none

/-- The last attempt decided, and this is its error. -/
def EndsWith (made : List ConnectAttempt) (error : ErrorCode) : Prop :=
  ∃ last, made.getLast? = some last ∧ last.decides = true ∧
    error = last.error

/-- The steps while an established connection lasts. -/
abbrev LastingStep :=
  Restricted ConnectionStep fun _ event => event ≠ .drop

/-- What is to hold of a call whose attempts had the outcomes so far. -/
structure StopsInTime (made : List ConnectAttempt) (call : Nat)
    (state : SubscriberConnection) : Prop where
  /-- No attempt follows one that decides. -/
  earlier : ∀ attempt ∈ made.dropLast, attempt.decides = false
  /-- The call ends with the attempt that decided, and clears the flag. -/
  exits : ∀ event next error point, ConnectionStep state event next →
    state.calls[call]? = some point → point.inside = true →
    next.calls[call]? = some (.returned error) →
    EndsWith made error ∧ next.connecting = false
  /-- As long as none has decided it comes to another attempt. -/
  continues : ∀ point, state.calls[call]? = some point →
    point.inside = true → (∀ attempt ∈ made, attempt.decides = false) →
    ∃ count next flying,
      Run LastingStep state (List.replicate count (.proceed call)) next ∧
      next.calls[call]? = some flying ∧ flying.inFlight = true
  /-- Once one has decided it returns. -/
  finishes : ∀ point last, state.calls[call]? = some point →
    point.inside = true → made.getLast? = some last → last.decides = true →
    ∃ count next,
      Run LastingStep state (List.replicate count (.proceed call)) next ∧
      next.calls[call]? = some (.returned last.error) ∧
      next.connecting = false

/-- In every run in which the attempts of a call have these outcomes, it stops
with the first one that decides. -/
def ConnectsInTime (outcomes : Nat → ConnectAttempt) : Prop :=
  ∀ events state call, Run LastingStep .start events state →
    attemptsOf call events =
      (List.range (attemptsOf call events).length).map outcomes →
    StopsInTime (attemptsOf call events) call state

/-- What the attempts so far say about a call at the point. -/
def CallPoint.Fits (made : List ConnectAttempt) (connected : Bool) :
    CallPoint → Prop
  | .testing | .comparing | .waiting | .exchanged | .attemptingFirst =>
      made = []
  | .looping _ =>
      ∃ last, made.getLast? = some last ∧ last ≠ .aborted ∧
        connected = last.connects
  | .sleeping _ | .attempting _ =>
      ∃ last, made.getLast? = some last ∧ last.decides = false
  | .leavingAborted error => EndsWith made error
  | .leavingConnected => EndsWith made .success
  | .returned _ => True

/-- Only a call in the connecting section looks at the connection again. -/
theorem CallPoint.Fits.of_outside {made : List ConnectAttempt}
    {connected other : Bool} {point : CallPoint}
    (fits : point.Fits made connected) (outside : point.inside = false) :
    point.Fits made other := by
  cases point <;> first | exact fits | cases outside

theorem CallPoint.Fits.proceed {made : List ConnectAttempt}
    {connected connecting flag : Bool} {point next : CallPoint}
    (fits : point.Fits made connected)
    (moves : point.proceed connected connecting = some (next, flag)) :
    next.Fits made connected := by
  cases point with
  | testing =>
      cases moves
      cases connected with
      | false => exact fits
      | true => trivial
  | comparing =>
      cases moves
      cases connecting with
      | false => exact fits
      | true => exact fits
  | waiting =>
      cases connected <;> cases moves
      trivial
  | exchanged =>
      cases moves
      exact fits
  | looping attempts =>
      cases moves
      obtain ⟨last, isLast, notAborted, connects⟩ := fits
      cases connected with
      | false =>
          refine ⟨last, isLast, ?_⟩
          cases last with
          | fails error isError notAborted => rfl
          | succeeds => cases connects
          | aborted => exact absurd rfl notAborted
      | true =>
          refine ⟨last, isLast, ?_⟩
          cases last with
          | succeeds => exact ⟨rfl, rfl⟩
          | fails error isError notAborted => cases connects
          | aborted => cases connects
  | sleeping attempts =>
      cases moves
      exact fits
  | leavingAborted error =>
      cases moves
      trivial
  | leavingConnected =>
      cases moves
      trivial
  | _ => cases moves

/-- The value that the loop looks for is that of an aborted attempt. -/
theorem ConnectAttempt.isAborted_iff {attempt : ConnectAttempt} :
    attempt.error.value = operationAborted.value ↔ attempt = .aborted := by
  cases attempt with
  | succeeds => exact iff_of_false (by decide) nofun
  | fails error isError notAborted => exact iff_of_false notAborted nofun
  | aborted => exact iff_of_true rfl rfl

private theorem undecided_of_last {made : List ConnectAttempt}
    {last : ConnectAttempt}
    (earlier : ∀ attempt ∈ made.dropLast, attempt.decides = false)
    (isLast : made.getLast? = some last) (undecided : last.decides = false) :
    ∀ attempt ∈ made, attempt.decides = false := by
  intro attempt member
  rw [← List.dropLast_append_getLast? last isLast] at member
  rcases List.mem_append.mp member with before | same
  · exact earlier attempt before
  · rw [List.mem_singleton.mp same]
    exact undecided

theorem CallPoint.Fits.attempted {made : List ConnectAttempt}
    {connected : Bool} {point next : CallPoint} {attempt : ConnectAttempt}
    (fits : point.Fits made connected)
    (earlier : ∀ attempt ∈ made.dropLast, attempt.decides = false)
    (moves : point.attempted attempt = some next)
    (first : (made ++ [attempt]).head? ≠ some .aborted) :
    next.Fits (made ++ [attempt]) attempt.connects ∧
      ∀ attempt ∈ made, attempt.decides = false := by
  have isLast : (made ++ [attempt]).getLast? = some attempt :=
    List.getLast?_concat
  cases point with
  | attemptingFirst =>
      cases moves
      obtain rfl : made = [] := fits
      refine ⟨⟨attempt, isLast, ?_, rfl⟩, by simp⟩
      rintro rfl
      exact first rfl
  | attempting attempts =>
      obtain ⟨last, wasLast, undecided⟩ := fits
      refine ⟨?_, undecided_of_last earlier wasLast undecided⟩
      simp only [CallPoint.attempted] at moves
      split at moves <;> rename_i value
      · cases moves
        obtain rfl := ConnectAttempt.isAborted_iff.mp value
        exact ⟨.aborted, isLast, rfl, rfl⟩
      · cases moves
        exact ⟨attempt, isLast,
          fun aborted => value (ConnectAttempt.isAborted_iff.mpr aborted), rfl⟩
  | _ => cases moves

/-- What holds of a call and the attempts it has made in every run in which its
first attempt is not aborted. -/
structure SubscriberConnection.Tracks (call : Nat)
    (made : List ConnectAttempt) (state : SubscriberConnection) : Prop where
  unborn : state.calls[call]? = none → made = []
  earlier : ∀ attempt ∈ made.dropLast, attempt.decides = false
  fits : ∀ point, state.calls[call]? = some point →
    point.Fits made state.connected

theorem attemptsOf_append (call : Nat) (past : List ConnectionEvent)
    (event : ConnectionEvent) :
    attemptsOf call (past ++ [event]) =
      attemptsOf call past ++ attemptsOf call [event] :=
  List.filterMap_append

theorem SubscriberConnection.Tracks.append {call : Nat}
    {made : List ConnectAttempt} {state : SubscriberConnection}
    (tracks : state.Tracks call made) {point : CallPoint}
    (starts : ∀ connected, point.Fits [] connected) :
    ({ state with calls := state.calls ++ [point] } :
      SubscriberConnection).Tracks call made where
  unborn absent := by
    apply tracks.unborn
    have outside := List.getElem?_eq_none_iff.mp absent
    rw [List.length_append] at outside
    exact List.getElem?_eq_none_iff.mpr (by omega)
  earlier := tracks.earlier
  fits other found := by
    rcases Tasks.found_append_cases found with before | ⟨absent, rfl⟩
    · exact tracks.fits other before
    · rw [tracks.unborn absent]
      exact starts _

theorem SubscriberConnection.Tracks.move {call : Nat}
    {made : List ConnectAttempt} {state next : SubscriberConnection}
    (tracks : state.Tracks call made) {moving : Nat} {point moved : CallPoint}
    (found : state.calls[moving]? = some point)
    (calls : next.calls = state.calls.set moving moved)
    (self : moving = call → moved.Fits made next.connected)
    (others : ∀ other, moving ≠ call → state.calls[call]? = some other →
      other.Fits made next.connected) : next.Tracks call made where
  unborn absent := by
    apply tracks.unborn
    simpa [calls] using absent
  earlier := tracks.earlier
  fits other foundNext := by
    rw [calls] at foundNext
    by_cases same : moving = call
    · subst same
      rw [Tasks.found_set_self found] at foundNext
      cases foundNext
      exact self rfl
    · rw [List.getElem?_set_ne same] at foundNext
      exact others other same foundNext

/-- Every step keeps track of the attempts of a call, unless it aborts the
first of them. -/
theorem ConnectionStep.tracks {state next : SubscriberConnection}
    {event : ConnectionEvent} (step : ConnectionStep state event next)
    (lasting : event ≠ .drop) (exclusive : state.Exclusive) {call : Nat}
    {made : List ConnectAttempt} (tracks : state.Tracks call made)
    (first : (made ++ attemptsOf call [event]).head? ≠ some .aborted) :
    next.Tracks call (made ++ attemptsOf call [event]) := by
  cases step with
  | get =>
      rw [attemptsOf, List.filterMap_cons_none rfl, List.filterMap_nil,
        List.append_nil]
      exact tracks.append fun _ => rfl
  | asyncConnect =>
      rw [attemptsOf, List.filterMap_cons_none rfl, List.filterMap_nil,
        List.append_nil]
      exact tracks.append fun _ => rfl
  | @proceed moving point moved flag found moves =>
      rw [attemptsOf, List.filterMap_cons_none rfl, List.filterMap_nil,
        List.append_nil]
      apply tracks.move found rfl
      · rintro rfl
        exact (tracks.fits point found).proceed moves
      · intro other _ otherFound
        exact tracks.fits other otherFound
  | @attempted moving point moved attempt found moves =>
      by_cases same : moving = call
      · subst same
        have now : attemptsOf moving [.attempted moving attempt] =
            [attempt] := by
          simp [attemptsOf]
        rw [now] at first ⊢
        obtain ⟨fits, undecided⟩ :=
          (tracks.fits point found).attempted tracks.earlier moves first
        refine ⟨?_, ?_, ?_⟩
        · intro absent
          rw [Tasks.found_set_self found] at absent
          cases absent
        · rw [List.dropLast_concat]
          exact undecided
        · intro other foundNext
          rw [Tasks.found_set_self found] at foundNext
          cases foundNext
          exact fits
      · have none : attemptsOf call [.attempted moving attempt] = [] := by
          simp [attemptsOf, same]
        rw [none, List.append_nil]
        apply tracks.move found rfl
        · exact fun equal => absurd equal same
        · intro other _ otherFound
          -- the call that attempts is the only one inside
          have outside := exclusive.outside found
            (CallPoint.inside_attempted moves).1 otherFound same
          exact (tracks.fits other otherFound).of_outside outside
  | drop => exact absurd rfl lasting

/-- What a run keeps: the flag counts the calls inside, and a call whose first
attempt was not aborted fits its attempts. -/
structure SubscriberConnection.Tracked (call : Nat)
    (past : List ConnectionEvent) (state : SubscriberConnection) : Prop where
  exclusive : state.Exclusive
  tracks : (attemptsOf call past).head? ≠ some .aborted →
    state.Tracks call (attemptsOf call past)

theorem tracked_of_run {events : List ConnectionEvent}
    {state : SubscriberConnection} (run : Run LastingStep .start events state)
    (call : Nat) : state.Tracked call events := by
  have kept : ∀ past (state : SubscriberConnection) event next,
      state.Tracked call past → LastingStep state event next →
      next.Tracked call (past ++ [event]) := by
    rintro past state event next ⟨exclusive, tracked⟩ ⟨lasting, step⟩
    refine ⟨step.exclusive exclusive, fun first => ?_⟩
    rw [attemptsOf_append] at first ⊢
    refine step.tracks lasting exclusive (tracked ?_) first
    intro aborted
    rw [List.head?_append, aborted] at first
    exact first rfl
  have initially : SubscriberConnection.start.Tracked call [] :=
    ⟨SubscriberConnection.start_exclusive,
      fun _ => ⟨fun _ => rfl, nofun, nofun⟩⟩
  exact run.history kept [] initially

private theorem lasting_proceed {state : SubscriberConnection} {call : Nat}
    {point next : CallPoint} {flag : Bool}
    (found : state.calls[call]? = some point)
    (moves : point.proceed state.connected state.connecting =
      some (next, flag)) :
    LastingStep state (.proceed call)
      { state with
        connecting := flag
        calls := state.calls.set call next } :=
  ⟨nofun, .proceed found moves⟩

theorem SubscriberConnection.Tracks.continues {call : Nat}
    {made : List ConnectAttempt} {state : SubscriberConnection}
    (tracks : state.Tracks call made) {point : CallPoint}
    (found : state.calls[call]? = some point) (inside : point.inside = true)
    (undecided : ∀ attempt ∈ made, attempt.decides = false) :
    ∃ count next flying,
      Run LastingStep state (List.replicate count (.proceed call)) next ∧
      next.calls[call]? = some flying ∧ flying.inFlight = true := by
  have fits := tracks.fits point found
  cases point with
  | exchanged =>
      exact ⟨1, _, .attemptingFirst,
        .step (lasting_proceed found rfl) (.refl _),
        Tasks.found_set_self found _, rfl⟩
  | attemptingFirst =>
      exact ⟨0, state, .attemptingFirst, .refl _, found, rfl⟩
  | looping attempts =>
      obtain ⟨last, isLast, -, connects⟩ := fits
      have down : state.connected = false := by
        have fails := undecided last (List.mem_of_getLast? isLast)
        rw [connects]
        cases last with
        | fails error isError notAborted => rfl
        | succeeds => cases fails
        | aborted => rfl
      have sleeps := Tasks.found_set_self found (.sleeping (attempts + 1))
      have moves : (CallPoint.looping attempts).proceed state.connected
          state.connecting =
            some (.sleeping (attempts + 1), state.connecting) := by
        rw [down]
        rfl
      exact ⟨2, _, .attempting (attempts + 1),
        .step (lasting_proceed found moves)
          (.step (lasting_proceed sleeps rfl) (.refl _)),
        Tasks.found_set_self sleeps _, rfl⟩
  | sleeping attempts =>
      exact ⟨1, _, .attempting attempts,
        .step (lasting_proceed found rfl) (.refl _),
        Tasks.found_set_self found _, rfl⟩
  | attempting attempts =>
      exact ⟨0, state, .attempting attempts, .refl _, found, rfl⟩
  | leavingAborted error =>
      obtain ⟨last, isLast, decided, -⟩ := fits
      cases (undecided last (List.mem_of_getLast? isLast)).symm.trans decided
  | leavingConnected =>
      obtain ⟨last, isLast, decided, -⟩ := fits
      cases (undecided last (List.mem_of_getLast? isLast)).symm.trans decided
  | _ => cases inside

theorem SubscriberConnection.Tracks.finishes {call : Nat}
    {made : List ConnectAttempt} {state : SubscriberConnection}
    (tracks : state.Tracks call made) {point : CallPoint}
    {last : ConnectAttempt} (found : state.calls[call]? = some point)
    (inside : point.inside = true) (isLast : made.getLast? = some last)
    (decided : last.decides = true) :
    ∃ count next,
      Run LastingStep state (List.replicate count (.proceed call)) next ∧
      next.calls[call]? = some (.returned last.error) ∧
      next.connecting = false := by
  have fits := tracks.fits point found
  cases point with
  | exchanged =>
      obtain rfl : made = [] := fits
      cases isLast
  | attemptingFirst =>
      obtain rfl : made = [] := fits
      cases isLast
  | looping attempts =>
      obtain ⟨other, otherLast, notAborted, connects⟩ := fits
      cases isLast.symm.trans otherLast
      obtain rfl : last = .succeeds := by
        cases last with
        | succeeds => rfl
        | fails error isError notAborted => cases decided
        | aborted => exact absurd rfl notAborted
      have leaves := Tasks.found_set_self found .leavingConnected
      have moves : (CallPoint.looping attempts).proceed state.connected
          state.connecting = some (.leavingConnected, state.connecting) := by
        rw [connects]
        rfl
      exact ⟨2, _, .step (lasting_proceed found moves)
        (.step (lasting_proceed leaves rfl) (.refl _)),
        Tasks.found_set_self leaves _, rfl⟩
  | sleeping attempts =>
      obtain ⟨other, otherLast, undecided⟩ := fits
      cases isLast.symm.trans otherLast
      cases undecided.symm.trans decided
  | attempting attempts =>
      obtain ⟨other, otherLast, undecided⟩ := fits
      cases isLast.symm.trans otherLast
      cases undecided.symm.trans decided
  | leavingAborted error =>
      obtain ⟨other, otherLast, -, rfl⟩ := fits
      cases isLast.symm.trans otherLast
      exact ⟨1, _, .step (lasting_proceed found rfl) (.refl _),
        Tasks.found_set_self found _, rfl⟩
  | leavingConnected =>
      obtain ⟨other, otherLast, -, success⟩ := fits
      cases isLast.symm.trans otherLast
      rw [← success]
      exact ⟨1, _, .step (lasting_proceed found rfl) (.refl _),
        Tasks.found_set_self found _, rfl⟩
  | _ => cases inside

theorem SubscriberConnection.Tracks.exits {call : Nat}
    {made : List ConnectAttempt} {state next : SubscriberConnection}
    {event : ConnectionEvent} {point : CallPoint} {error : ErrorCode}
    (tracks : state.Tracks call made) (step : ConnectionStep state event next)
    (found : state.calls[call]? = some point) (inside : point.inside = true)
    (foundNext : next.calls[call]? = some (.returned error)) :
    EndsWith made error := by
  have fits := tracks.fits point found
  have differ : point ≠ .returned error := by
    rintro rfl
    cases inside
  rcases step.moved found foundNext differ with
    ⟨-, moves⟩ | ⟨attempt, -, moves⟩
  · generalize next.connecting = flag at moves
    cases point with
    | leavingAborted leaving =>
        cases moves
        exact fits
    | leavingConnected =>
        cases moves
        exact fits
    | looping attempts =>
        simp only [CallPoint.proceed] at moves
        split at moves <;> cases moves
    | exchanged => cases moves
    | sleeping attempts => cases moves
    | attemptingFirst => cases moves
    | attempting attempts => cases moves
    | _ => cases inside
  · have after := (CallPoint.inside_attempted moves).2
    cases after

private theorem lasting_asyncConnect {state : SubscriberConnection} :
    LastingStep state .asyncConnect
      { state with calls := state.calls ++ [.comparing] } :=
  ⟨nofun, .asyncConnect⟩

private theorem lasting_attempted {state : SubscriberConnection} {call : Nat}
    {point next : CallPoint} {attempt : ConnectAttempt}
    (found : state.calls[call]? = some point)
    (moves : point.attempted attempt = some next) :
    LastingStep state (.attempted call attempt)
      { state with
        connected := attempt.connects
        calls := state.calls.set call next } :=
  ⟨nofun, .attempted found moves⟩

/-- A second attempt follows the abort of the first one. -/
theorem exists_attempts (second : ConnectAttempt) :
    ∃ events state, Run LastingStep .start events state ∧
      attemptsOf 0 events = [.aborted, second] := by
  obtain ⟨next, moves⟩ :
      ∃ next, (CallPoint.attempting 2).attempted second = some next := by
    simp only [CallPoint.attempted]
    split <;> exact ⟨_, rfl⟩
  refine ⟨[.asyncConnect, .proceed 0, .proceed 0, .attempted 0 .aborted,
    .proceed 0, .proceed 0, .attempted 0 second], _,
    .step lasting_asyncConnect (.step (lasting_proceed rfl rfl)
      (.step (lasting_proceed rfl rfl) (.step (lasting_attempted rfl rfl)
        (.step (lasting_proceed rfl rfl) (.step (lasting_proceed rfl rfl)
          (.step (lasting_attempted rfl moves) (.refl _))))))), rfl⟩

theorem not_connectsInTime {outcomes : Nat → ConnectAttempt}
    (aborted : outcomes 0 = .aborted) : ¬ConnectsInTime outcomes := by
  intro inTime
  obtain ⟨events, state, run, made⟩ := exists_attempts (outcomes 1)
  have stops := inTime events state 0 run (by
    rw [made, ← aborted]
    rfl)
  rw [made] at stops
  cases stops.earlier .aborted (by simp)

/-- The outcomes of the attempts are handled as they should be exactly if the
first attempt is not aborted. -/
theorem connectsInTime_iff (outcomes : Nat → ConnectAttempt) :
    ConnectsInTime outcomes ↔ outcomes 0 ≠ .aborted := by
  constructor
  · intro inTime aborted
    exact not_connectsInTime aborted inTime
  · intro first events state call run made
    obtain ⟨exclusive, tracked⟩ := tracked_of_run run call
    have tracks : state.Tracks call (attemptsOf call events) := by
      apply tracked
      rw [made]
      cases (attemptsOf call events).length with
      | zero => simp
      | succ count => simpa [List.range_succ_eq_map] using first
    refine ⟨tracks.earlier, ?_, ?_, ?_⟩
    · intro event next error point step found inside foundNext
      exact ⟨tracks.exits step found inside foundNext,
        step.clear_of_exit exclusive found inside foundNext rfl⟩
    · intro point found inside undecided
      exact tracks.continues found inside undecided
    · intro point last found inside isLast decided
      exact tracks.finishes found inside isLast decided

/-- Every attempt is aborted: the call goes on to a second one. -/
theorem not_connectsInTime_aborted :
    ¬∀ outcomes, ConnectsInTime outcomes := by
  intro inTime
  exact not_connectsInTime rfl (inTime fun _ => .aborted)

end RedisClient
