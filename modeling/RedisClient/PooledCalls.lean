import RedisClient.ConnectionExchanges

/-!
# Calls that share the connections of a pool

The client of `ClientPool` with its connections.  A call is given an idle
connection of its pool or a new one, the server's answers arrive behind what is
unread there, and the call takes bytes from the front and gives the connection
back.  The steps of different calls interleave in any order; on every
connection they nevertheless make one series of exchanges.
-/

namespace RedisClient

open Basis

/-- A call that has a connection, with the answers sent to it so far. -/
structure Holder where
  call : Nat
  answers : List Resp

/-- A connection: the pool it is in, what its login has left unread, what is
unread now, the exchanges that have ended, and the call that has it. -/
structure Line where
  pool : Nat
  login : Bytes
  unread : Stream
  exchanges : List Exchange
  holder : Option Holder

/-- The client and all connections there have been.  One that is connected
again counts as another. -/
structure PooledClient where
  client : Client
  lines : List Line

namespace PooledClient

def start : PooledClient := ⟨.start, []⟩

end PooledClient

/-- A connection that `connection_ctor` has made for the call. -/
def Line.opened (pool : Nat) (login : Bytes) (call : Nat) : Line :=
  ⟨pool, login, owned none login, [], some ⟨call, []⟩⟩

/-- The request is written, and the server answers it. -/
def Line.answered (line : Line) (call : Nat) (answers : List Resp) : Line :=
  { line with
    unread := line.unread ++ owned (some call) (Resp.encodeAll answers)
    holder := some ⟨call, answers⟩ }

/-- The exchange ends, and `release_connection` gives the connection to the pool
that the client has now. -/
def Line.released (line : Line) (pool : Nat) (unread : Stream)
    (exchange : Exchange) : Line :=
  { line with
    pool := pool
    unread := unread
    exchanges := line.exchanges ++ [exchange]
    holder := none }

inductive PoolEvent where
  | send (request : Request)
  | setConfig
  | stopped (call : Nat)
  | taken (call place : Nat)
  | opened (call : Nat) (login : Bytes)
  | written (call place : Nat) (write : WriteResult) (answers : List Resp)
  | read (call place : Nat) (error : ErrorCode) (count : Nat)

/-- Every step is one of the client.  `get_connection` gives an idle connection
of the pool it is asked of or a new one, and a read gives bytes that were
sent. -/
inductive PoolStep : PooledClient → PoolEvent → PooledClient → Prop where
  | send {client next : Client} {lines : List Line} {request : Request} :
      ClientStep client (.send request) next →
      PoolStep ⟨client, lines⟩ (.send request) ⟨next, lines⟩
  | setConfig {client next : Client} {lines : List Line} :
      ClientStep client .setConfig next →
      PoolStep ⟨client, lines⟩ .setConfig ⟨next, lines⟩
  | stopped {client next : Client} {lines : List Line} {call : Nat} :
      ClientStep client (.got call false) next →
      PoolStep ⟨client, lines⟩ (.stopped call) ⟨next, lines⟩
  | taken {client next : Client} {lines : List Line} {line : Line}
      {call place pool : Nat} {request : Request} :
      client.calls[call]? = some ⟨request, .getting pool⟩ →
      lines[place]? = some line → line.holder = none → line.pool = pool →
      ClientStep client (.got call true) next →
      PoolStep ⟨client, lines⟩ (.taken call place)
        ⟨next, lines.set place { line with holder := some ⟨call, []⟩ }⟩
  | opened {client next : Client} {lines : List Line} {call pool : Nat}
      {request : Request} {login : Bytes} :
      client.calls[call]? = some ⟨request, .getting pool⟩ →
      ClientStep client (.got call true) next →
      PoolStep ⟨client, lines⟩ (.opened call login)
        ⟨next, lines ++ [.opened pool login call]⟩
  | written {client next : Client} {lines : List Line} {line : Line}
      {call place pool : Nat} {request : Request} {write : WriteResult}
      {answers : List Resp} :
      client.calls[call]? = some ⟨request, .writing pool⟩ →
      lines[place]? = some line → line.holder = some ⟨call, []⟩ →
      write.failed request.buffer = false →
      ClientStep client (.written call write) next →
      PoolStep ⟨client, lines⟩ (.written call place write answers)
        ⟨next, lines.set place (line.answered call answers)⟩
  | notWritten {client next : Client} {lines : List Line} {line : Line}
      {call place pool : Nat} {request : Request} {write : WriteResult}
      {answers : List Resp} :
      client.calls[call]? = some ⟨request, .writing pool⟩ →
      lines[place]? = some line → line.holder = some ⟨call, []⟩ →
      write.failed request.buffer = true →
      ClientStep client (.written call write) next →
      PoolStep ⟨client, lines⟩ (.written call place write answers)
        ⟨next, lines.set place
          (line.released client.pool (line.answered call answers).unread
            ⟨call, request, answers, write, .success, 0⟩)⟩
  | read {client next : Client} {lines : List Line} {line : Line}
      {call place pool count : Nat} {request : Request} {write : WriteResult}
      {answers : List Resp} {error : ErrorCode} :
      client.calls[call]? = some ⟨request, .reading pool write⟩ →
      lines[place]? = some line → line.holder = some ⟨call, answers⟩ →
      count ≤ line.unread.length →
      ClientStep client (.read call ⟨error, line.unread.chunk count⟩) next →
      PoolStep ⟨client, lines⟩ (.read call place error count)
        ⟨next, lines.set place
          (line.released client.pool
            (line.unread.drop (line.unread.front count).length)
            ⟨call, request, answers, write, error, count⟩)⟩

/-- `set_config` is called only while no call is between asking for a
connection and releasing it. -/
def PooledClient.ConfiguresIdle (pooled : PooledClient) : PoolEvent → Prop
  | .setConfig => pooled.client.ConfiguresIdle .setConfig
  | _ => True

/-! ## One connection -/

/-- What is unread before the exchange that goes on now. -/
def Line.before (line : Line) : Stream :=
  leftBy (owned none line.login) line.exchanges

/-- What is unread is what a series of exchanges leaves, and the answers to the
call that has the connection. -/
def Line.Sequential (line : Line) : Prop :=
  line.unread = line.before ++
    match line.holder with
    | none => []
    | some holder =>
        owned (some holder.call) (Resp.encodeAll holder.answers)

/-- The calls that have or have had the connection, in the order of their
exchanges. -/
def Line.users (line : Line) : List Nat :=
  line.exchanges.map Exchange.call ++ (line.holder.map Holder.call).toList

/-- The calls that have or have had one of the connections. -/
def usersOf (lines : List Line) : List Nat := lines.flatMap Line.users

/-- The call has, or has had, a connection. -/
def SendPoint.connected : SendPoint → Bool
  | .getting _ => false
  | .writing _ => true
  | .reading _ _ => true
  | .returned pool _ => pool.isSome

/-- Where the call stands that has the connection. -/
def Line.Holds (line : Line) (holder : Holder) (call : SendCall) : Prop :=
  (call.point = .writing line.pool ∧ holder.answers = []) ∨
    ∃ write, call.point = .reading line.pool write ∧
      write.failed call.request.buffer = false

/-- An exchange that has ended is a call that returned what it returns when the
exchanges before it are all that happened on the connection. -/
def Line.Returned (line : Line) (calls : List SendCall) : Prop :=
  ∀ past exchange rest, line.exchanges = past ++ exchange :: rest →
    calls[exchange.call]? = some ⟨exchange.request,
      .returned (some line.pool)
        (exchange.outcome (leftBy (owned none line.login) past))⟩

/-- The connections make one series of exchanges each, and every call that has
or has had a connection is in one of them. -/
structure PooledClient.Serial (pooled : PooledClient) : Prop where
  leased : pooled.client.Leased
  sequential : ∀ line ∈ pooled.lines, line.Sequential
  held : ∀ line ∈ pooled.lines, ∀ holder, line.holder = some holder →
    ∃ call, pooled.client.calls[holder.call]? = some call ∧
      line.Holds holder call
  returned : ∀ line ∈ pooled.lines, line.Returned pooled.client.calls
  once : (usersOf pooled.lines).Nodup
  connected : ∀ index, index ∈ usersOf pooled.lines ↔
    ∃ call, pooled.client.calls[index]? = some call ∧
      call.point.connected = true

/-! ## What a step keeps of a connection -/

section Line

variable {line : Line} {calls later : List SendCall}

theorem Line.Returned.mono (returned : line.Returned calls)
    (kept : ∀ (index : Nat) (call : SendCall) pool outcome,
      calls[index]? = some call → call.point = .returned (some pool) outcome →
        later[index]? = some call) : line.Returned later := by
  intro past exchange rest split
  exact kept _ _ _ _ (returned past exchange rest split) rfl

/-- The series grows by an exchange that ends. -/
theorem Line.Returned.released (returned : line.Returned calls)
    {exchange : Exchange} {unread : Stream}
    (last : calls[exchange.call]? = some ⟨exchange.request,
      .returned (some line.pool) (exchange.outcome line.before)⟩) :
    (line.released line.pool unread exchange).Returned calls := by
  intro past other rest split
  simp only [Line.released] at split
  rcases List.eq_nil_or_concat rest with rfl | ⟨front, final, rfl⟩
  · obtain ⟨same, ended⟩ := List.append_inj' split rfl
    cases ended
    rw [← same]
    exact last
  · rw [List.concat_eq_append, ← List.cons_append,
      ← List.append_assoc] at split
    exact returned past other front (List.append_inj' split rfl).1

theorem Line.users_released (pool : Nat) (unread : Stream)
    {exchange : Exchange} {answers : List Resp}
    (holder : line.holder = some ⟨exchange.call, answers⟩) :
    (line.released pool unread exchange).users = line.users := by
  simp [Line.users, Line.released, holder]

theorem Line.users_answered {call : Nat} {before : List Resp}
    (holder : line.holder = some ⟨call, before⟩) (answers : List Resp) :
    (line.answered call answers).users = line.users := by
  simp [Line.users, Line.answered, holder]

theorem Line.mem_users {holder : Holder}
    (held : line.holder = some holder) : holder.call ∈ line.users := by
  simp [Line.users, held]

theorem Line.Sequential.idle (sequential : line.Sequential)
    (idle : line.holder = none) : line.unread = line.before := by
  rw [Line.Sequential, idle, List.append_nil] at sequential
  exact sequential

theorem Line.Sequential.held (sequential : line.Sequential) {holder : Holder}
    (held : line.holder = some holder) :
    line.unread = line.before ++
      owned (some holder.call) (Resp.encodeAll holder.answers) := by
  rw [Line.Sequential, held] at sequential
  exact sequential

theorem Line.sequential_released (pool : Nat) {unread : Stream}
    {exchange : Exchange} (left : exchange.left line.before = unread) :
    (line.released pool unread exchange).Sequential := by
  simp only [Line.Sequential, Line.released, Line.before,
    leftBy_append_singleton, List.append_nil]
  exact left.symm

end Line

/-! ## What a step keeps of all connections -/

private theorem kept_set {calls : List SendCall} {index : Nat}
    {call : SendCall} (found : calls[index]? = some call)
    (running : ∀ pool outcome, call.point ≠ .returned (some pool) outcome)
    (next : SendCall) (other : Nat) (ended : SendCall) (pool : Nat)
    (outcome : Execution (List Reply)) (otherFound : calls[other]? = some ended)
    (returned : ended.point = .returned (some pool) outcome) :
    (calls.set index next)[other]? = some ended := by
  have apart : index ≠ other := by
    rintro rfl
    cases found.symm.trans otherFound
    exact running pool outcome returned
  rw [List.getElem?_set_ne apart]
  exact otherFound

namespace PooledClient.Serial

variable {client next : Client} {lines : List Line} {line : Line}
  {index place : Nat} {call moved : SendCall}

theorem move (serial : Serial ⟨client, lines⟩) (leased : next.Leased)
    (calls : next.calls = client.calls.set index moved)
    (found : client.calls[index]? = some call)
    (running : ∀ pool outcome, call.point ≠ .returned (some pool) outcome)
    (placed : lines[place]? = some line) {later : Line}
    (alone : ∀ (other : Nat) (elsewhere : Line), other ≠ place →
      lines[other]? = some elsewhere → index ∉ elsewhere.users)
    (once : (usersOf (lines.set place later)).Nodup)
    (users : ∀ user, user ∈ usersOf (lines.set place later) ↔
      user ∈ usersOf lines ∨ user = index)
    (connected : moved.point.connected = true)
    (sequential : later.Sequential)
    (held : ∀ holder, later.holder = some holder →
      holder.call = index ∧ later.Holds holder moved)
    (returned : later.Returned (client.calls.set index moved)) :
    Serial ⟨next, lines.set place later⟩ where
  leased := leased
  sequential := by
    intro other member
    rcases List.mem_or_eq_of_mem_set member with before | rfl
    · exact serial.sequential other before
    · exact sequential
  held := by
    intro other member holder holds
    rw [calls]
    obtain ⟨position, atPosition⟩ := List.mem_iff_getElem?.mp member
    by_cases here : place = position
    · subst here
      cases (Tasks.found_set_self placed later).symm.trans atPosition
      obtain ⟨rfl, isHeld⟩ := held holder holds
      exact ⟨moved, Tasks.found_set_self found moved, isHeld⟩
    · rw [List.getElem?_set_ne here] at atPosition
      obtain ⟨other', found', holds'⟩ := serial.held other
        (List.mem_of_getElem? atPosition) holder holds
      have apart : index ≠ holder.call := by
        rintro rfl
        exact alone position other (Ne.symm here) atPosition
          (Line.mem_users holds)
      exact ⟨other', (List.getElem?_set_ne apart).trans found', holds'⟩
  returned := by
    rw [calls]
    intro other member
    rcases List.mem_or_eq_of_mem_set member with before | rfl
    · exact (serial.returned other before).mono (kept_set found running moved)
    · exact returned
  once := once
  connected := by
    intro user
    rw [users, calls]
    by_cases here : index = user
    · subst here
      have self := Tasks.found_set_self found moved
      exact iff_of_true (Or.inr rfl) ⟨moved, self, connected⟩
    · rw [List.getElem?_set_ne here]
      constructor
      · intro used
        exact (serial.connected user).mp (used.resolve_right (Ne.symm here))
      · intro used
        exact Or.inl ((serial.connected user).mpr used)

theorem moveHolder (serial : Serial ⟨client, lines⟩) (leased : next.Leased)
    (calls : next.calls = client.calls.set index moved)
    (found : client.calls[index]? = some call)
    (running : ∀ pool outcome, call.point ≠ .returned (some pool) outcome)
    (placed : lines[place]? = some line) {answers : List Resp}
    (holder : line.holder = some ⟨index, answers⟩) {later : Line}
    (users : later.users = line.users)
    (connected : moved.point.connected = true)
    (sequential : later.Sequential)
    (held : ∀ holder, later.holder = some holder →
      holder.call = index ∧ later.Holds holder moved)
    (returned : later.Returned (client.calls.set index moved)) :
    Serial ⟨next, lines.set place later⟩ := by
  have used : index ∈ line.users := Line.mem_users holder
  have same : usersOf (lines.set place later) = usersOf lines :=
    Tasks.flatMap_set_of_eq placed users
  apply serial.move leased calls found running placed _ _ _ connected
    sequential held returned
  · intro other elsewhere apart atOther otherUsed
    exact apart (Tasks.index_eq_of_nodup serial.once atOther otherUsed placed
      used)
  · rw [same]
    exact serial.once
  · intro user
    rw [same]
    constructor
    · exact Or.inl
    · rintro (before | rfl)
      · exact before
      · exact List.mem_flatMap.mpr
          ⟨line, List.mem_of_getElem? placed, used⟩

theorem take {pool : Nat} {request : Request}
    (serial : Serial ⟨client, lines⟩)
    (found : client.calls[index]? = some ⟨request, .getting pool⟩)
    (placed : lines[place]? = some line) (idle : line.holder = none)
    (pooled : line.pool = pool) :
    Serial
      ⟨{ client with
          calls := client.calls.set index ⟨request, .writing pool⟩ },
        lines.set place { line with holder := some ⟨index, []⟩ }⟩ := by
  have unused : index ∉ usersOf lines := by
    intro used
    obtain ⟨call, callFound, connected⟩ := (serial.connected index).mp used
    cases found.symm.trans callFound
    cases connected
  have grows : List.Perm
      (usersOf (lines.set place { line with holder := some ⟨index, []⟩ }))
      (index :: usersOf lines) := by
    apply Tasks.flatMap_set_perm placed
    simp [Line.users, idle]
  have member := List.mem_of_getElem? placed
  have leased : Client.Leased
      { client with
        calls := client.calls.set index ⟨request, .writing pool⟩ } :=
    serial.leased.move found rfl fun _ held => held
  apply serial.move leased rfl found nofun placed
  · intro other elsewhere apart atOther used
    exact unused (List.mem_flatMap.mpr
      ⟨elsewhere, List.mem_of_getElem? atOther, used⟩)
  · exact grows.nodup_iff.mpr (List.nodup_cons.mpr ⟨unused, serial.once⟩)
  · intro user
    rw [grows.mem_iff, List.mem_cons, or_comm]
  · rfl
  · have unread := (serial.sequential line member).idle idle
    simp [Line.Sequential, Line.before, unread, Resp.encodeAll, owned]
  · intro holder holds
    cases holds
    exact ⟨rfl, Or.inl ⟨congrArg SendPoint.writing pooled.symm, rfl⟩⟩
  · exact (serial.returned line member).mono (kept_set found nofun _)

theorem connect (serial : Serial ⟨client, lines⟩) (pool : Nat)
    (login : Bytes) :
    Serial
      ⟨client, lines ++ [⟨pool, login, owned none login, [], none⟩]⟩ := by
  have users : usersOf (lines ++ [⟨pool, login, owned none login, [], none⟩]) =
      usersOf lines := by
    simp [usersOf, Line.users]
  constructor
  · exact serial.leased
  · intro line member
    rcases List.mem_append.mp member with before | new
    · exact serial.sequential line before
    · obtain rfl := List.mem_singleton.mp new
      simp [Line.Sequential, Line.before, leftBy]
  · intro line member holder held
    rcases List.mem_append.mp member with before | new
    · exact serial.held line before holder held
    · obtain rfl := List.mem_singleton.mp new
      cases held
  · intro line member
    rcases List.mem_append.mp member with before | new
    · exact serial.returned line before
    · obtain rfl := List.mem_singleton.mp new
      intro past exchange rest split
      simp at split
  · rw [users]
    exact serial.once
  · rw [users]
    exact serial.connected

theorem calls (serial : Serial ⟨client, lines⟩) (leased : next.Leased)
    (kept : ∀ (index : Nat) (call : SendCall), call.point.connected = true →
      (next.calls[index]? = some call ↔ client.calls[index]? = some call)) :
    Serial ⟨next, lines⟩ where
  leased := leased
  sequential := serial.sequential
  held := by
    intro line member holder holds
    obtain ⟨call, found, isHeld⟩ := serial.held line member holder holds
    have connected : call.point.connected = true := by
      rcases isHeld with ⟨writing, _⟩ | ⟨write, reading, _⟩
      · rw [writing]
        rfl
      · rw [reading]
        rfl
    exact ⟨call, (kept _ call connected).mpr found, isHeld⟩
  returned := by
    intro line member
    apply (serial.returned line member).mono
    intro index call pool outcome found ended
    exact (kept index call (by rw [ended]; rfl)).mpr found
  once := serial.once
  connected := by
    intro index
    rw [serial.connected index]
    constructor
    · rintro ⟨call, found, connected⟩
      exact ⟨call, (kept index call connected).mpr found, connected⟩
    · rintro ⟨call, found, connected⟩
      exact ⟨call, (kept index call connected).mp found, connected⟩

theorem finish {pool : Nat} {exchange : Exchange}
    {point : SendPoint} {unread : Stream} {answers : List Resp}
    (serial : Serial ⟨client, lines⟩)
    (found : client.calls[exchange.call]? = some ⟨exchange.request, point⟩)
    (placed : lines[place]? = some line)
    (holder : line.holder = some ⟨exchange.call, answers⟩)
    (held : point.pool = some pool)
    (left : exchange.left line.before = unread) :
    Serial
      ⟨client.finish exchange.call exchange.request pool
          (exchange.outcome line.before),
        lines.set place (line.released client.pool unread exchange)⟩ := by
  have member := List.mem_of_getElem? placed
  obtain rfl := serial.leased.current _ (List.mem_of_getElem? found) pool held
  have linePool : line.pool = client.pool := by
    obtain ⟨call, callFound, isHeld⟩ := serial.held line member _ holder
    cases found.symm.trans callFound
    rcases isHeld with ⟨rfl, _⟩ | ⟨write, rfl, _⟩
    · exact Option.some.inj held
    · exact Option.some.inj held
  have running : ∀ origin outcome, point ≠ .returned (some origin) outcome := by
    rintro origin outcome rfl
    cases held
  apply serial.moveHolder (serial.leased.finish found held _) rfl found running
    placed holder (Line.users_released _ _ holder) rfl
    (Line.sequential_released _ left) nofun
  rw [← linePool]
  apply Line.Returned.released
  · exact (serial.returned line member).mono (kept_set found running _)
  · rw [linePool]
    exact Tasks.found_set_self found _

theorem opened {pool : Nat} {request : Request}
    (serial : Serial ⟨client, lines⟩)
    (found : client.calls[index]? = some ⟨request, .getting pool⟩)
    (login : Bytes) :
    Serial
      ⟨{ client with
          calls := client.calls.set index ⟨request, .writing pool⟩ },
        lines ++ [.opened pool login index]⟩ := by
  let idle : Line := ⟨pool, login, owned none login, [], none⟩
  have connected : Serial ⟨client, lines ++ [idle]⟩ :=
    serial.connect pool login
  have last : (lines ++ [idle])[lines.length]? = some idle :=
    List.getElem?_concat_length
  have taken := connected.take found last rfl rfl
  rw [List.set_append_right _ _ (Nat.le_refl _), Nat.sub_self] at taken
  exact taken

theorem written {pool : Nat} {request : Request} {write : WriteResult}
    (serial : Serial ⟨client, lines⟩)
    (found : client.calls[index]? = some ⟨request, .writing pool⟩)
    (placed : lines[place]? = some line)
    (holder : line.holder = some ⟨index, []⟩)
    (success : write.failed request.buffer = false) (answers : List Resp) :
    Serial
      ⟨{ client with
          calls := client.calls.set index ⟨request, .reading pool write⟩ },
        lines.set place (line.answered index answers)⟩ := by
  have member := List.mem_of_getElem? placed
  have unread := (serial.sequential line member).held holder
  obtain ⟨_, callFound, isHeld⟩ := serial.held line member _ holder
  cases found.symm.trans callFound
  have linePool : line.pool = pool := by
    rcases isHeld with ⟨writing, _⟩ | ⟨_, reading, _⟩
    · cases writing
      rfl
    · cases reading
  have leased : Client.Leased
      { client with
        calls := client.calls.set index ⟨request, .reading pool write⟩ } :=
    serial.leased.move found rfl fun _ held => held
  apply serial.moveHolder leased rfl found nofun placed holder
    (Line.users_answered holder answers) rfl
  · simp only [Line.Sequential, Line.answered, Line.before, unread,
      Resp.encodeAll, owned, List.map_nil, List.append_nil]
  · intro other holds
    cases holds
    exact ⟨rfl, Or.inr ⟨write,
      congrArg (SendPoint.reading · write) linePool.symm, success⟩⟩
  · exact (serial.returned line member).mono (kept_set found nofun _)

theorem notWritten {pool : Nat} {request : Request} {write : WriteResult}
    (serial : Serial ⟨client, lines⟩)
    (found : client.calls[index]? = some ⟨request, .writing pool⟩)
    (placed : lines[place]? = some line)
    (holder : line.holder = some ⟨index, []⟩)
    (failed : write.failed request.buffer = true) (answers : List Resp) :
    Serial
      ⟨client.finish index request pool
          (.returns (request.failed .writeError)),
        lines.set place (line.released client.pool
          (line.answered index answers).unread
          ⟨index, request, answers, write, .success, 0⟩)⟩ := by
  have member := List.mem_of_getElem? placed
  have unread := (serial.sequential line member).held holder
  let exchange : Exchange := ⟨index, request, answers, write, .success, 0⟩
  have exchangeFailed : exchange.notWritten = true := failed
  have left : exchange.left line.before =
      (line.answered index answers).unread := by
    simp only [Exchange.left, Exchange.taken, exchangeFailed, if_true,
      List.length_nil, List.drop_zero, Exchange.arrived, Exchange.sent,
      Line.answered, unread, Resp.encodeAll, owned, List.map_nil,
      List.append_nil, exchange]
  have outcome : exchange.outcome line.before =
      .returns (request.failed .writeError) := Request.send_of_failed failed _
  rw [← outcome]
  exact serial.finish found placed holder rfl left

theorem read {pool count : Nat} {request : Request} {write : WriteResult}
    {answers : List Resp} (serial : Serial ⟨client, lines⟩)
    (found : client.calls[index]? = some ⟨request, .reading pool write⟩)
    (placed : lines[place]? = some line)
    (holder : line.holder = some ⟨index, answers⟩) (error : ErrorCode) :
    Serial
      ⟨client.finish index request pool
          (request.send write ⟨error, line.unread.chunk count⟩),
        lines.set place (line.released client.pool
          (line.unread.drop (line.unread.front count).length)
          ⟨index, request, answers, write, error, count⟩)⟩ := by
  have member := List.mem_of_getElem? placed
  let exchange : Exchange := ⟨index, request, answers, write, error, count⟩
  have arrived : line.unread = exchange.arrived line.before :=
    (serial.sequential line member).held holder
  obtain ⟨_, callFound, isHeld⟩ := serial.held line member _ holder
  cases found.symm.trans callFound
  have written : exchange.notWritten = false := by
    rcases isHeld with ⟨writing, _⟩ | ⟨_, reading, success⟩
    · cases writing
    · cases reading
      exact success
  have left : exchange.left line.before =
      line.unread.drop (line.unread.front count).length := by
    simp only [Exchange.left, Exchange.taken, written, Bool.false_eq_true,
      if_false, arrived, exchange]
  have outcome : exchange.outcome line.before =
      request.send write ⟨error, line.unread.chunk count⟩ := by
    rw [arrived]
    rfl
  rw [← outcome]
  exact serial.finish found placed holder rfl left

end PooledClient.Serial

private theorem found_set_unconnected {calls : List SendCall}
    {index : Nat} {before after : SendCall}
    (found : calls[index]? = some before)
    (wasUnconnected : before.point.connected = false)
    (unconnected : after.point.connected = false) {other : Nat}
    {call : SendCall} (connected : call.point.connected = true) :
    (calls.set index after)[other]? = some call ↔
      calls[other]? = some call := by
  by_cases here : index = other
  · subst here
    rw [Tasks.found_set_self found, found]
    constructor
    · rintro ⟨⟩
      rw [unconnected] at connected
      cases connected
    · rintro ⟨⟩
      rw [wasUnconnected] at connected
      cases connected
  · rw [List.getElem?_set_ne here]

theorem PooledClient.start_serial : PooledClient.start.Serial where
  leased := Client.start_leased
  sequential := nofun
  held := nofun
  returned := nofun
  once := List.nodup_nil
  connected := by
    intro index
    simp [PooledClient.start, usersOf, Client.start]

theorem PoolStep.serial {pooled next : PooledClient} {event : PoolEvent}
    (step : PoolStep pooled event next)
    (allowed : pooled.ConfiguresIdle event) (serial : pooled.Serial) :
    next.Serial := by
  cases step with
  | send step =>
      apply serial.calls (step.leased trivial serial.leased)
      cases step with
      | send =>
          intro index call connected
          constructor
          · intro found
            rcases Tasks.found_append_cases found with before | ⟨_, rfl⟩
            · exact before
            · cases connected
          · intro found
            exact Tasks.found_append found _
  | setConfig step =>
      apply serial.calls (step.leased allowed serial.leased)
      cases step with
      | setConfig =>
          intro index call connected
          exact Iff.rfl
  | stopped step =>
      apply serial.calls (step.leased trivial serial.leased)
      cases step with
      | stopped found =>
          intro index call connected
          exact found_set_unconnected found rfl rfl connected
  | taken found placed idle pooled step =>
      cases step with
      | got same =>
          cases found.symm.trans same
          exact serial.take found placed idle pooled
  | opened found step =>
      cases step with
      | got same =>
          cases found.symm.trans same
          exact serial.opened found _
  | written found placed holder success step =>
      cases step with
      | notWritten same failed =>
          cases found.symm.trans same
          rw [success] at failed
          cases failed
      | written same _ =>
          cases found.symm.trans same
          exact serial.written found placed holder success _
  | notWritten found placed holder failed step =>
      cases step with
      | written same success =>
          cases found.symm.trans same
          rw [failed] at success
          cases success
      | notWritten same _ =>
          cases found.symm.trans same
          exact serial.notWritten found placed holder failed _
  | read found placed holder available step =>
      cases step with
      | read same =>
          cases found.symm.trans same
          exact serial.read found placed holder _

theorem PooledClient.serial_of_run {events : List PoolEvent}
    {pooled : PooledClient}
    (run : Run (Restricted PoolStep PooledClient.ConfiguresIdle) .start events
      pooled) : pooled.Serial :=
  run.restricted_invariant PooledClient.start_serial
    fun _ _ _ allowed step serial => step.serial allowed serial

/-! ## Calls in any order -/

/-- The calls are as if every connection had served one after another. -/
structure PooledClient.Serialised (pooled : PooledClient) : Prop where
  -- no call has two connections, and no connection two calls
  once : (usersOf pooled.lines).Nodup
  unread : ∀ line ∈ pooled.lines, line.Sequential
  -- a call that ends is an exchange behind the ones before it
  exchanged : ∀ (index pool : Nat) (request : Request)
    (outcome : Execution (List Reply)),
    pooled.client.calls[index]? =
        some ⟨request, .returned (some pool) outcome⟩ →
      ∃ line ∈ pooled.lines, ∃ past exchange rest,
        line.exchanges = past ++ exchange :: rest ∧
          exchange.call = index ∧ exchange.request = request ∧
          line.pool = pool ∧
          outcome = exchange.outcome (leftBy (owned none line.login) past)

/-- The call that ended is in the series of a connection. -/
private theorem PooledClient.Serial.exchanged {pooled : PooledClient}
    (serial : pooled.Serial) {index pool : Nat} {request : Request}
    {outcome : Execution (List Reply)}
    (found : pooled.client.calls[index]? =
      some ⟨request, .returned (some pool) outcome⟩) :
    ∃ line ∈ pooled.lines, ∃ past exchange rest,
      line.exchanges = past ++ exchange :: rest ∧
        exchange.call = index ∧ exchange.request = request ∧
        line.pool = pool ∧
        outcome = exchange.outcome (leftBy (owned none line.login) past) := by
  have used := (serial.connected index).mpr ⟨_, found, rfl⟩
  obtain ⟨line, member, used⟩ := List.mem_flatMap.mp used
  rcases List.mem_append.mp used with ended | goesOn
  · obtain ⟨exchange, inside, rfl⟩ := List.mem_map.mp ended
    obtain ⟨past, rest, split⟩ := List.append_of_mem inside
    have returned := serial.returned line member past exchange rest split
    cases found.symm.trans returned
    exact ⟨line, member, past, exchange, rest, split, rfl, rfl, rfl, rfl⟩
  · -- the call that has the connection has not returned
    rw [Option.mem_toList, Option.map_eq_some_iff] at goesOn
    obtain ⟨holder, holds, rfl⟩ := goesOn
    obtain ⟨call, callFound, isHeld⟩ :=
      serial.held line member holder holds
    cases found.symm.trans callFound
    rcases isHeld with ⟨writing, _⟩ | ⟨_, reading, _⟩
    · cases writing
    · cases reading

/-- In every run, in whatever order the steps of the calls are taken, every call
that was given a connection returns what it would return if the calls on that
connection had been made one after another and no others. -/
theorem calls_serialised {events : List PoolEvent} {pooled : PooledClient}
    (run : Run (Restricted PoolStep PooledClient.ConfiguresIdle) .start events
      pooled) : pooled.Serialised where
  once := (PooledClient.serial_of_run run).once
  unread := (PooledClient.serial_of_run run).sequential
  exchanged := fun _ _ _ _ found =>
    (PooledClient.serial_of_run run).exchanged found

/-- A pipeline of `GET a` and `INCR n`, answered with `b` and 8. -/
private def pipelineExchange : Exchange :=
  ⟨1, .pipeline [⟨[[71, 69, 84], [97]]⟩, ⟨[[73, 78, 67, 82], [110]]⟩],
    [.bulk [98], .integer 8], ⟨.success, 41⟩, .success, 11⟩

/-- `GET a` on one connection and the pipeline on another, with the steps of the
two taken in turn, and `PING` on the first before the pipeline has ended. -/
private def interleaved : List PoolEvent :=
  [.send (.single ⟨[[71, 69, 84], [97]]⟩),
    .send pipelineExchange.request, .opened 0 [], .opened 1 [],
    .written 1 1 ⟨.success, 41⟩ pipelineExchange.answers,
    .written 0 0 ⟨.success, 20⟩ [.integer 7],
    .read 0 0 .success 4,
    .send (.single ⟨[[80, 73, 78, 71]]⟩), .taken 2 0,
    .written 2 0 ⟨.success, 6⟩ [.nullBulk],
    .read 2 0 .success 5, .read 1 1 .success 11]

private theorem exists_interleaved : ∃ pooled,
    Run (Restricted PoolStep PooledClient.ConfiguresIdle) .start interleaved
        pooled ∧
      ∃ line ∈ pooled.lines, line.login = [] ∧ line.pool = 0 ∧
        line.exchanges = [pipelineExchange] := by
  have run : Run (Restricted PoolStep PooledClient.ConfiguresIdle) .start
      interleaved _ :=
    .step ⟨trivial, .send .send⟩ (.step ⟨trivial, .send .send⟩
      (.step ⟨trivial, .opened rfl (.got rfl)⟩
      (.step ⟨trivial, .opened rfl (.got rfl)⟩
      (.step ⟨trivial, .written rfl rfl rfl rfl (.written rfl rfl)⟩
      (.step ⟨trivial, .written rfl rfl rfl rfl (.written rfl rfl)⟩
      (.step ⟨trivial, .read rfl rfl rfl (by decide) (.read rfl)⟩
      (.step ⟨trivial, .send .send⟩
      (.step ⟨trivial, .taken rfl rfl rfl rfl (.got rfl)⟩
      (.step ⟨trivial, .written rfl rfl rfl rfl (.written rfl rfl)⟩
      (.step ⟨trivial, .read rfl rfl rfl (by decide) (.read rfl)⟩
      (.step ⟨trivial, .read rfl rfl rfl (by decide) (.read rfl)⟩
      (.refl _))))))))))))
  exact ⟨_, run, _, List.mem_cons_of_mem _ List.mem_cons_self, rfl, rfl, rfl⟩

theorem calls_serialised_interleaved : ∃ pooled,
    Run (Restricted PoolStep PooledClient.ConfiguresIdle) .start interleaved
      pooled ∧ pooled.Serialised := by
  obtain ⟨pooled, run, _⟩ := exists_interleaved
  exact ⟨pooled, run, calls_serialised run⟩

/-- In every run a call reads bytes only of the calls that had its connection
before it, and of the login.  If those before it took all they were answered,
and the call does, then it reads its own bytes only, and returns the replies to
its own commands, whatever happens on the other connections. -/
theorem ownReplies_returned {events : List PoolEvent} {pooled : PooledClient}
    (run : Run (Restricted PoolStep PooledClient.ConfiguresIdle) .start events
      pooled) :
    ∀ line ∈ pooled.lines, ∀ past exchange rest,
      line.exchanges = past ++ exchange :: rest →
        (∀ source ∈ (exchange.taken
            (leftBy (owned none line.login) past)).owners,
          source = none ∨ source = some exchange.call ∨
            ∃ earlier ∈ past, source = some earlier.call) ∧
        (line.login = [] → (∀ earlier ∈ past, earlier.Whole) →
          exchange.Whole → exchange.Answered →
            pooled.client.calls[exchange.call]? = some ⟨exchange.request,
              .returned (some line.pool) (.returns exchange.ownReplies)⟩ ∧
            ∀ source ∈ (exchange.taken
                (leftBy (owned none line.login) past)).owners,
              source = some exchange.call) := by
  have serial := PooledClient.serial_of_run run
  intro line member past exchange rest split
  constructor
  · intro source taken
    rcases Exchange.owners_taken taken with before | own
    · rcases owners_leftBy before with login | earlier
      · exact Or.inl (eq_of_mem_owners_owned login)
      · exact Or.inr (Or.inr earlier)
    · exact Or.inr (Or.inl own)
  · intro nothing earlier whole answered
    have returned := serial.returned line member past exchange rest split
    have unread : leftBy (owned none line.login) past = [] := by
      rw [nothing]
      exact leftBy_of_whole earlier
    rw [unread] at returned ⊢
    rw [whole.outcome_eq answered] at returned
    refine ⟨returned, ?_⟩
    intro source taken
    rw [whole.taken_eq] at taken
    exact eq_of_mem_owners_owned taken

theorem ownReplies_returned_interleaved : ∃ pooled,
    Run (Restricted PoolStep PooledClient.ConfiguresIdle) .start interleaved
        pooled ∧
      pooled.client.calls[1]? = some ⟨pipelineExchange.request,
        .returned (some 0) (.returns [⟨.bulkString [98], .success⟩,
          ⟨.integer 8, .success⟩])⟩ := by
  obtain ⟨pooled, run, line, member, nothing, pool, only⟩ :=
    exists_interleaved
  have whole : pipelineExchange.Whole :=
    ⟨by decide, fun _ => by decide, fun _ => by decide⟩
  have answered : pipelineExchange.Answered := by
    refine ⟨Or.inr rfl, ?_⟩
    intro answer member
    rcases List.mem_pair.mp member with rfl | rfl
    · exact Or.inl ⟨rfl, rfl⟩
    · exact Or.inl ⟨rfl, rfl⟩
  have own := ((ownReplies_returned run line member [] pipelineExchange []
    only).2 nothing nofun whole answered).1
  rw [pool] at own
  exact ⟨pooled, run, own⟩

end RedisClient
