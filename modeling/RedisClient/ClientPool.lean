import RedisClient.Basis.Run
import RedisClient.Basis.Tasks
import RedisClient.Client

/-!
# Connections and their pools

The public coroutines `client::send` as a transition system.  Any number of
calls takes a connection from the pool and gives it back when it ends, and
`set_config` may replace the pool at any time.  Pools are numbered in the order
they are created, and a connection is known by the pool it comes from: whether
it goes back there is the question.
-/

namespace RedisClient

open Basis

/-- What a call of `client::send` is given. -/
inductive Request where
  | single (command : Command)
  | pipeline (commands : List Command)

/-- `reply(code)`, or as many of them as there are commands. -/
def Request.failed (code : ClientErrorCode) : Request → List Reply
  | .single _ => [.ofError code.toErrorCode]
  | .pipeline commands =>
      List.replicate commands.length (.ofError code.toErrorCode)

/-- The bytes `send(connection, ...)` writes. -/
def Request.buffer : Request → Bytes
  | .single command => command.serializedCommand
  | .pipeline commands => serializedCommands commands

/-- `send(connection, ...)`; the reply to a single command is a list of one. -/
def Request.send (request : Request) (write : WriteResult)
    (read : ReadResult) : Execution (List Reply) :=
  match request with
  | .single command => do
      let reply ← RedisClient.send command write read
      .returns [reply]
  | .pipeline commands => sendAll commands write read

theorem Request.send_of_failed {request : Request} {write : WriteResult}
    (failed : write.failed request.buffer = true) (read : ReadResult) :
    request.send write read = .returns (request.failed .writeError) := by
  cases request with
  | single command =>
      simp only [Request.buffer] at failed
      simp only [Request.send, RedisClient.send, failed, if_true,
        Outcome.returns_bind, Request.failed]
  | pipeline commands =>
      simp only [Request.buffer] at failed
      simp only [Request.send, sendAll, failed, if_true, Request.failed]

/-- Where a call of `client::send` stands, with the pool that it asks for a
connection or that its connection comes from. -/
inductive SendPoint where
  -- `co_await con_pool_->get_connection()`
  | getting (pool : Nat)
  -- `co_await connection->async_write(...)`
  | writing (pool : Nat)
  -- `co_await connection->async_read_some(...)`
  | reading (pool : Nat) (write : WriteResult)
  -- `pool` is missing where `connection` was `nullptr`
  | returned (pool : Option Nat) (outcome : Execution (List Reply))

structure SendCall where
  request : Request
  point : SendPoint

/-- One call of `release_connection`: the call of `send` that makes it, the pool
its connection comes from, the pool it is given to, and whether the former has
been destroyed. -/
structure Release where
  call : Nat
  origin : Nat
  pool : Nat
  destroyed : Bool
  deriving DecidableEq

/-- The client: the number of the pool in `con_pool_`, the calls of `send`, and
what they have released so far.  All pools before `pool` are destroyed. -/
structure Client where
  pool : Nat
  calls : List SendCall
  releases : List Release

def Client.start : Client := ⟨0, [], []⟩

/-- `client::set_config`, which replaces `con_pool_` and so destroys the pool
that was there. -/
def Client.setConfig (client : Client) : Client :=
  { client with pool := client.pool + 1 }

/-- The end of a call that has a connection.  The cleanup runs however the
sending ended, and takes `con_pool_` as it is then. -/
def Client.finish (client : Client) (call : Nat) (request : Request)
    (origin : Nat) (outcome : Execution (List Reply)) : Client :=
  { client with
    calls := client.calls.set call ⟨request, .returned (some origin) outcome⟩
    releases := client.releases ++
      [⟨call, origin, client.pool, decide (origin < client.pool)⟩] }

inductive ClientEvent where
  | send (request : Request)
  | setConfig
  -- `get_connection` gives a connection or `nullptr`
  | got (call : Nat) (connected : Bool)
  | written (call : Nat) (write : WriteResult)
  | read (call : Nat) (read : ReadResult)

inductive ClientStep : Client → ClientEvent → Client → Prop where
  | send {client : Client} {request : Request} :
      ClientStep client (.send request)
        { client with
          calls := client.calls ++ [⟨request, .getting client.pool⟩] }
  | setConfig {client : Client} :
      ClientStep client .setConfig client.setConfig
  | got {client : Client} {call pool : Nat} {request : Request} :
      client.calls[call]? = some ⟨request, .getting pool⟩ →
      ClientStep client (.got call true)
        { client with
          calls := client.calls.set call ⟨request, .writing pool⟩ }
  | stopped {client : Client} {call pool : Nat} {request : Request} :
      client.calls[call]? = some ⟨request, .getting pool⟩ →
      ClientStep client (.got call false)
        { client with
          calls := client.calls.set call
            ⟨request, .returned none
              (.returns (request.failed .clientStopped))⟩ }
  | written {client : Client} {call pool : Nat} {request : Request}
      {write : WriteResult} :
      client.calls[call]? = some ⟨request, .writing pool⟩ →
      write.failed request.buffer = false →
      ClientStep client (.written call write)
        { client with
          calls := client.calls.set call ⟨request, .reading pool write⟩ }
  | notWritten {client : Client} {call pool : Nat} {request : Request}
      {write : WriteResult} :
      client.calls[call]? = some ⟨request, .writing pool⟩ →
      write.failed request.buffer = true →
      ClientStep client (.written call write)
        (client.finish call request pool
          (.returns (request.failed .writeError)))
  | read {client : Client} {call pool : Nat} {request : Request}
      {write : WriteResult} {read : ReadResult} :
      client.calls[call]? = some ⟨request, .reading pool write⟩ →
      ClientStep client (.read call read)
        (client.finish call request pool (request.send write read))

/-- The releases a call is to have made: one if it has ended and had a
connection, to the pool the connection comes from while that pool exists. -/
def SendPoint.due (call : Nat) : SendPoint → List Release
  | .returned (some pool) _ => [⟨call, pool, pool, false⟩]
  | _ => []

/-- Every connection goes back exactly once, to the pool it comes from, before
that pool is destroyed. -/
def Client.Returns (client : Client) : Prop :=
  ∀ index call, client.calls[index]? = some call →
    (client.releases.filter fun release => release.call == index) =
      call.point.due index

/-- The pool a call depends on until it has released its connection. -/
def SendPoint.pool : SendPoint → Option Nat
  | .getting pool => some pool
  | .writing pool => some pool
  | .reading pool _ => some pool
  | .returned _ _ => none

/-- `set_config` is called only while no call is between asking for a
connection and releasing it. -/
def Client.ConfiguresIdle (client : Client) : ClientEvent → Prop
  | .setConfig => ∀ call ∈ client.calls, call.point.pool = none
  | _ => True

/-- Every release is one of a call, and nobody depends on a destroyed pool. -/
structure Client.Leased (client : Client) : Prop where
  returns : client.Returns
  known : ∀ release ∈ client.releases, release.call < client.calls.length
  current : ∀ call ∈ client.calls, ∀ pool,
    call.point.pool = some pool → pool = client.pool

theorem Client.start_leased : Client.start.Leased where
  returns := nofun
  known := nofun
  current := nofun

namespace Client.Leased

variable {client : Client} {index : Nat} {call : SendCall}

theorem send (leased : client.Leased) (request : Request) :
    Client.Leased
      { client with
        calls := client.calls ++ [⟨request, .getting client.pool⟩] } where
  returns := by
    intro place other found
    by_cases inside : place < client.calls.length
    · rw [List.getElem?_append_left inside] at found
      exact leased.returns place other found
    · -- nothing has been released for a call that only begins
      have bound := (List.getElem?_eq_some_iff.mp found).1
      simp only [List.length_append, List.length_singleton] at bound
      obtain rfl : place = client.calls.length := by omega
      cases List.getElem?_concat_length.symm.trans found
      apply List.filter_eq_nil_iff.mpr
      intro release member
      have earlier := leased.known release member
      simp only [beq_iff_eq]
      omega
  known := by
    intro release member
    have earlier := leased.known release member
    rw [List.length_append]
    omega
  current := by
    intro other member pool held
    rcases List.mem_append.mp member with before | new
    · exact leased.current other before pool held
    · obtain rfl := List.mem_singleton.mp new
      cases held
      rfl

theorem move (leased : client.Leased)
    (found : client.calls[index]? = some call) {next : SendCall}
    (same : next.point.due index = call.point.due index)
    (keeps : ∀ pool, next.point.pool = some pool →
      call.point.pool = some pool) :
    Client.Leased { client with calls := client.calls.set index next } where
  returns := by
    intro place other otherFound
    by_cases moved : index = place
    · subst moved
      cases (Tasks.found_set_self found next).symm.trans otherFound
      rw [same]
      exact leased.returns index call found
    · rw [List.getElem?_set_ne moved] at otherFound
      exact leased.returns place other otherFound
  known := by
    intro release member
    rw [List.length_set]
    exact leased.known release member
  current := by
    intro other member pool held
    rcases List.mem_or_eq_of_mem_set member with before | rfl
    · exact leased.current other before pool held
    · exact leased.current call (List.mem_of_getElem? found) pool
        (keeps pool held)

theorem finish (leased : client.Leased)
    (found : client.calls[index]? = some call) {pool : Nat}
    (held : call.point.pool = some pool)
    (outcome : Execution (List Reply)) :
    (client.finish index call.request pool outcome).Leased where
  returns := by
    obtain rfl :=
      leased.current call (List.mem_of_getElem? found) pool held
    intro place other otherFound
    by_cases moved : index = place
    · subst moved
      cases (Tasks.found_set_self found _).symm.trans otherFound
      have none := leased.returns index call found
      have notDue : call.point.due index = [] := by
        cases point : call.point with
        | returned origin outcome => simp [point, SendPoint.pool] at held
        | _ => rfl
      rw [Client.finish, List.filter_append, none, notDue, List.nil_append,
        decide_eq_false (Nat.lt_irrefl client.pool)]
      simp [SendPoint.due]
    · simp only [Client.finish, List.getElem?_set_ne moved] at otherFound
      have before := leased.returns place other otherFound
      rw [Client.finish, List.filter_append, before]
      simp [moved]
  known := by
    intro release member
    simp only [Client.finish, List.length_set]
    rcases List.mem_append.mp member with before | new
    · exact leased.known release before
    · obtain rfl := List.mem_singleton.mp new
      exact (List.getElem?_eq_some_iff.mp found).1
  current := by
    intro other member origin heldBy
    rcases List.mem_or_eq_of_mem_set member with before | rfl
    · exact leased.current other before origin heldBy
    · cases heldBy

theorem setConfig (leased : client.Leased)
    (idle : ∀ call ∈ client.calls, call.point.pool = none) :
    client.setConfig.Leased where
  returns := leased.returns
  known := leased.known
  current := by
    intro other member pool held
    rw [idle other member] at held
    cases held

end Client.Leased

theorem ClientStep.leased {client next : Client} {event : ClientEvent}
    (step : ClientStep client event next)
    (allowed : client.ConfiguresIdle event) (leased : client.Leased) :
    next.Leased := by
  cases step with
  | send => exact leased.send _
  | setConfig => exact leased.setConfig allowed
  | got found => exact leased.move found rfl fun _ held => held
  | stopped found => exact leased.move found rfl nofun
  | written found success => exact leased.move found rfl fun _ held => held
  | notWritten found failed => exact leased.finish found rfl _
  | read found => exact leased.finish found rfl _

/-! ## Where the connections go -/

theorem Client.not_returns_finish (client : Client) {index origin : Nat}
    {call : SendCall} (found : client.calls[index]? = some call)
    (replaced : origin ≠ client.pool) (request : Request)
    (outcome : Execution (List Reply)) :
    ¬(client.finish index request origin outcome).Returns := by
  intro returns
  have released := returns index _ (Tasks.found_set_self found _)
  rw [Client.finish, List.filter_append] at released
  simp only [beq_self_eq_true, List.filter_cons_of_pos, List.filter_nil,
    SendPoint.due] at released
  have last := congrArg List.getLast? released
  simp only [List.getLast?_concat, List.getLast?_singleton, Option.some.injEq,
    Release.mk.injEq] at last
  exact replaced last.2.2.1.symm

/-- A call that has not ended when `set_config` replaces the pool may come to
release its connection to the new one. -/
theorem Client.Leased.exists_not_returns {client : Client}
    (leased : client.Leased) (busy : ¬client.ConfiguresIdle .setConfig) :
    ∃ events next, Run ClientStep client (.setConfig :: events) next ∧
      ¬next.Returns := by
  simp only [Client.ConfiguresIdle, not_forall] at busy
  obtain ⟨⟨request, point⟩, member, depends⟩ := busy
  obtain ⟨index, found⟩ := List.mem_iff_getElem?.mp member
  have replaced : client.pool ≠ client.setConfig.pool :=
    (Nat.succ_ne_self client.pool).symm
  have current := leased.current _ member
  have aborted : (WriteResult.mk operationAborted 0).failed request.buffer =
      true := rfl
  cases point with
  | getting pool =>
      obtain rfl := current pool rfl
      have given := Tasks.found_set_self found
        ⟨request, .writing client.pool⟩
      exact ⟨[.got index true, .written index ⟨operationAborted, 0⟩], _,
        .step .setConfig (.step (.got found)
          (.step (.notWritten given aborted) (.refl _))),
        Client.not_returns_finish
          { client.setConfig with
            calls := client.calls.set index ⟨request, .writing client.pool⟩ }
          given replaced _ _⟩
  | writing pool =>
      obtain rfl := current pool rfl
      exact ⟨[.written index ⟨operationAborted, 0⟩], _,
        .step .setConfig (.step (.notWritten found aborted) (.refl _)),
        client.setConfig.not_returns_finish found replaced _ _⟩
  | reading pool write =>
      obtain rfl := current pool rfl
      exact ⟨[.read index ⟨operationAborted, .empty⟩], _,
        .step .setConfig (.step (.read found) (.refl _)),
        client.setConfig.not_returns_finish found replaced _ _⟩
  | returned pool outcome => exact absurd rfl depends

/-- In every run in which `set_config` is called only while no call of `send`
is between asking for a connection and releasing it, every connection goes back
to the pool it comes from.  A call of `set_config` at any other time can be
followed by a release to a pool the connection does not come from. -/
theorem connections_returned {events : List ClientEvent} {client : Client}
    (run : Run (Restricted ClientStep Client.ConfiguresIdle) .start events
      client) :
    client.Returns ∧
      (¬client.ConfiguresIdle .setConfig →
        ∃ events later, Run ClientStep client (.setConfig :: events) later ∧
          ¬later.Returns) := by
  have leased : client.Leased :=
    run.restricted_invariant Client.start_leased
      fun _ _ _ allowed step leased => step.leased allowed leased
  exact ⟨leased.returns, leased.exists_not_returns⟩

/-- A command that is sent and answered, and then another configuration. -/
theorem connections_returned_idle :
    (Client.mk 1
      [⟨.single ⟨[[80]]⟩,
        .returned (some 0) (.returns [⟨.nil, ⟨.client, 4⟩⟩])⟩]
      [⟨0, 0, 0, false⟩]).Returns :=
  have run : Run (Restricted ClientStep Client.ConfiguresIdle) .start
      [.send (.single ⟨[[80]]⟩), .got 0 true, .written 0 ⟨.success, 3⟩,
        .read 0 ⟨operationAborted, .empty⟩, .setConfig] _ :=
    .step ⟨trivial, .send⟩ (.step ⟨trivial, .got rfl⟩
      (.step ⟨trivial, .written rfl rfl⟩ (.step ⟨trivial, .read rfl⟩
        (.step ⟨by simp [Client.ConfiguresIdle, Client.finish, Client.start,
          SendPoint.pool], .setConfig⟩ (.refl _)))))
  (connections_returned run).1

/-- The pool is replaced while a call writes: its connection comes from pool 0
and is released to pool 1. -/
theorem not_connections_returned_reconfigured :
    ¬∀ events client, Run ClientStep .start events client →
      client.Returns := by
  intro returned
  have given : ([⟨.single ⟨[[80]]⟩, .writing 0⟩] : List SendCall)[0]? =
      some ⟨.single ⟨[[80]]⟩, .writing 0⟩ := rfl
  have run : Run ClientStep .start
      [.send (.single ⟨[[80]]⟩), .got 0 true, .setConfig,
        .written 0 ⟨operationAborted, 0⟩] _ :=
    .step .send (.step (.got rfl) (.step .setConfig
      (.step (.notWritten rfl rfl) (.refl _))))
  exact Client.not_returns_finish ⟨1, [⟨.single ⟨[[80]]⟩, .writing 0⟩], []⟩
    given (by decide) _ _ (returned _ _ run)

end RedisClient
