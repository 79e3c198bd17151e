import RedisClient.Authentication
import RedisClient.Basis.Run

/-!
# Credentials

Both classes keep a `client_config`, and log in on the connections that
`connection_ctor` makes under a password.  The handler of such a connection
reads the configuration when it runs and not when the connection was made, and
`connection_ctor` writes a user name into it.  `Intends` knows only the
configuration that was given last, and says what is to be sent under it.
-/

namespace RedisClient

open Basis

/-- `redis::client_config` -/
structure ClientConfig where
  host : Bytes
  port : UInt16
  maxConnections : UInt32
  username : Bytes
  password : Bytes

/-- `client_config()` -/
def ClientConfig.initial : ClientConfig :=
  ⟨ascii "127.0.0.1", 6379, 8, [], []⟩

/-- A connection as `connection_ctor` leaves it: where it leads, and whether
`auth_client` is its state change handler. -/
structure MadeConnection where
  host : Bytes
  port : UInt16
  handler : Bool
  deriving DecidableEq

/-- The members of both classes that the credentials pass through.  The
connections are those of the pool that there is now. -/
structure Credentials where
  config : ClientConfig
  connections : List MadeConnection

/-- `client::connection_ctor` and `redis_subscriber::connection_ctor`, with the
configuration they leave. -/
def connectionCtor (config : ClientConfig) : MadeConnection × ClientConfig :=
  let conn : MadeConnection := ⟨config.host, config.port, false⟩
  if config.password ≠ [] then
    let config :=
      if config.username = [] then { config with username := ascii "default" }
      else config
    ({ conn with handler := true }, config)
  else (conn, config)

/-- The command `auth_client` sends, if any. -/
def authCommand (state : ClientConnectionState) (config : ClientConfig) :
    Option Command :=
  if state = .connected then some (loginCmd config.username config.password)
  else none

/-- The two classes that log in. -/
inductive Party where
  | client
  | subscriber
  deriving DecidableEq

/-- `auth_client` of the class -/
def Party.authClient (party : Party) (state : ClientConnectionState)
    (config : ClientConfig) (write : WriteResult) (read : ReadResult) :
    Execution ErrorCode :=
  match party with
  | .client =>
      Client.authClient state config.username config.password write read
  | .subscriber =>
      RedisSubscriber.authClient state config.username config.password write
        read

/-- `client::client(exec, config)` and
`redis_subscriber::redis_subscriber(exec, config)`, of which the latter makes
its only connection at once. -/
def Party.construct (config : ClientConfig) : Party → Credentials
  | .client => ⟨config, []⟩
  | .subscriber =>
      let (conn, config) := connectionCtor config
      ⟨config, [conn]⟩

/-- `client::client(exec, host, port)` and
`redis_subscriber::redis_subscriber(exec, host, port)`, of which the latter
makes its connection without `connection_ctor`. -/
def Party.constructAt (host : Bytes) (port : UInt16) : Party → Credentials
  | .client => ⟨{ ClientConfig.initial with host := host, port := port }, []⟩
  | .subscriber =>
      ⟨{ ClientConfig.initial with host := host, port := port },
        [⟨host, port, false⟩]⟩

/-- What the constructors hold, and the configuration it stands for.  An address
stands for one without a password. -/
inductive Party.Constructs (party : Party) :
    ClientConfig → Credentials → Prop where
  | config (config : ClientConfig) :
      Constructs party config (party.construct config)
  | address (host : Bytes) (port : UInt16) :
      Constructs party
        { ClientConfig.initial with host := host, port := port }
        (party.constructAt host port)

inductive ConfigEvent where
  | setConfig (config : ClientConfig)
  -- what `client::config` returns
  | config (result : ClientConfig)
  -- the pool makes a connection, or destroys one
  | made (conn : MadeConnection)
  | dropped (conn : MadeConnection)
  -- the connection runs its handler, which sends and returns something
  | handled (conn : MadeConnection) (state : ClientConnectionState)
      (write : WriteResult) (read : ReadResult) (sent : Option Command)
      (outcome : Execution ErrorCode)

/-- `set_config` destroys the pool, and its connections with it.  A subscriber
has one connection for good and no access to its configuration. -/
inductive ConfigStep (party : Party) :
    Credentials → ConfigEvent → Credentials → Prop where
  | setConfig {held : Credentials} {config : ClientConfig} :
      party = .client →
      ConfigStep party held (.setConfig config) ⟨config, []⟩
  | config {held : Credentials} :
      party = .client →
      ConfigStep party held (.config held.config) held
  | made {held : Credentials} {conn : MadeConnection} {config : ClientConfig} :
      party = .client → connectionCtor held.config = (conn, config) →
      ConfigStep party held (.made conn) ⟨config, held.connections ++ [conn]⟩
  | dropped {held : Credentials} {conn : MadeConnection} :
      party = .client → conn ∈ held.connections →
      ConfigStep party held (.dropped conn)
        { held with connections := held.connections.erase conn }
  | handled {held : Credentials} {conn : MadeConnection}
      {state : ClientConnectionState} {write : WriteResult}
      {read : ReadResult} :
      conn ∈ held.connections → conn.handler = true →
      ConfigStep party held
        (.handled conn state write read (authCommand state held.config)
          (party.authClient state held.config write read)) held

/-! ## What is to be sent -/

/-- The configuration with the user name that stands for none. -/
def ClientConfig.named (given : ClientConfig) : ClientConfig :=
  if given.username = [] then { given with username := ascii "default" }
  else given

/-- A connection that is made under the configuration. -/
def ClientConfig.connection (given : ClientConfig) : MadeConnection :=
  ⟨given.host, given.port, decide (given.password ≠ [])⟩

/-- The configuration that was given last is all that counts: every connection
leads where it says, and a login is made under a password only, with this
password and a user name. -/
inductive Intends (party : Party) :
    ClientConfig → ConfigEvent → ClientConfig → Prop where
  | setConfig {given config : ClientConfig} :
      Intends party given (.setConfig config) config
  | config {given : ClientConfig} :
      Intends party given (.config given) given
  | configNamed {given : ClientConfig} :
      given.password ≠ [] → Intends party given (.config given.named) given
  | made {given : ClientConfig} :
      Intends party given (.made given.connection) given
  | dropped {given : ClientConfig} :
      Intends party given (.dropped given.connection) given
  | login {given : ClientConfig} {write : WriteResult} {read : ReadResult} :
      given.password ≠ [] →
      Intends party given
        (.handled given.connection .connected write read
          (some (loginCmd given.named.username given.password))
          (party.authClient .connected given.named write read)) given
  | passed {given : ClientConfig} {state : ClientConnectionState}
      {write : WriteResult} {read : ReadResult} :
      given.password ≠ [] → state ≠ .connected →
      Intends party given
        (.handled given.connection state write read none (.returns .success))
        given

/-- The configuration is the one that was given, but for the user name, and the
connections are made under it.  Where one has a handler, there is a name. -/
structure Credentials.Configured (held : Credentials) (given : ClientConfig) :
    Prop where
  config : held.config = given ∨
    given.password ≠ [] ∧ held.config = given.named
  connections : ∀ conn ∈ held.connections, conn = given.connection
  named : held.connections ≠ [] → given.password ≠ [] →
    held.config = given.named

@[simp] theorem ClientConfig.named_password (given : ClientConfig) :
    given.named.password = given.password := by
  unfold named
  split <;> rfl

@[simp] theorem ClientConfig.named_named (given : ClientConfig) :
    given.named.named = given.named := by
  by_cases nameless : given.username = []
  · have isNamed : given.named = _ := if_pos nameless
    rw [isNamed]
    rfl
  · have isGiven : given.named = given := if_neg nameless
    rw [isGiven, isGiven]

@[simp] theorem ClientConfig.named_connection (given : ClientConfig) :
    given.named.connection = given.connection := by
  unfold named
  split <;> rfl

theorem ClientConfig.named_username (given : ClientConfig) :
    given.named.username ≠ [] := by
  unfold named
  split <;> rename_i nameless
  · intro same
    cases same
  · exact nameless

theorem connectionCtor_eq (config : ClientConfig) :
    connectionCtor config =
      (config.connection,
        if config.password ≠ [] then config.named else config) := by
  unfold connectionCtor ClientConfig.connection ClientConfig.named
  by_cases password : config.password ≠ []
  · simp [password]
  · simp [password]

theorem Party.constructAt_eq (party : Party) (host : Bytes) (port : UInt16) :
    party.constructAt host port =
      party.construct
        { ClientConfig.initial with host := host, port := port } := by
  cases party with
  | client => rfl
  | subscriber => rfl

/-- `auth_client` does nothing on a connection that is not connected. -/
theorem Party.authClient_passed (party : Party) {state : ClientConnectionState}
    (notConnected : state ≠ .connected) (config : ClientConfig)
    (write : WriteResult) (read : ReadResult) :
    party.authClient state config write read = .returns .success := by
  cases party with
  | client => exact if_neg notConnected
  | subscriber => exact if_neg notConnected

namespace Credentials.Configured

variable {held : Credentials} {given : ClientConfig} {party : Party}

theorem connectionCtor_eq (configured : held.Configured given) :
    connectionCtor held.config =
      (given.connection,
        if given.password ≠ [] then given.named else given) := by
  rw [RedisClient.connectionCtor_eq]
  rcases configured.config with same | ⟨password, same⟩
  · rw [same]
  · rw [same, ClientConfig.named_connection, ClientConfig.named_password,
      ClientConfig.named_named, if_pos password, if_pos password]

theorem made (configured : held.Configured given) :
    Configured
      ⟨if given.password ≠ [] then given.named else given,
        held.connections ++ [given.connection]⟩ given where
  config := by
    by_cases password : given.password ≠ []
    · exact Or.inr ⟨password, if_pos password⟩
    · exact Or.inl (if_neg password)
  connections := by
    intro conn member
    rcases List.mem_append.mp member with earlier | last
    · exact configured.connections conn earlier
    · exact List.mem_singleton.mp last
  named _ password := if_pos password

theorem construct (party : Party) (config : ClientConfig) :
    (party.construct config).Configured config := by
  have empty : Configured ⟨config, []⟩ config := by
    refine ⟨.inl rfl, ?_, fun nonempty => absurd rfl nonempty⟩
    exact fun _ member => absurd member List.not_mem_nil
  cases party with
  | client => exact empty
  | subscriber =>
      rw [Party.construct, RedisClient.connectionCtor_eq]
      exact empty.made

theorem constructs {start : Credentials}
    (constructed : party.Constructs given start) : start.Configured given := by
  cases constructed with
  | config => exact construct party given
  | address host port =>
      rw [Party.constructAt_eq]
      exact construct party _

theorem handled (configured : held.Configured given) {conn : MadeConnection}
    (member : conn ∈ held.connections) (handler : conn.handler = true) :
    given.password ≠ [] ∧ held.config = given.named ∧
      conn = given.connection := by
  have isGiven := configured.connections conn member
  have password : given.password ≠ [] := by
    rw [isGiven] at handler
    exact of_decide_eq_true handler
  exact ⟨password,
    configured.named (List.ne_nil_of_mem member) password, isGiven⟩

/-- Every step is intended under the configuration that was given last. -/
theorem step (configured : held.Configured given) {event : ConfigEvent}
    {next : Credentials} (taken : ConfigStep party held event next) :
    ∃ givenNext, Intends party given event givenNext ∧
      next.Configured givenNext := by
  cases taken with
  | @setConfig config isClient =>
      exact ⟨config, .setConfig, construct .client config⟩
  | config isClient =>
      refine ⟨given, ?_, configured⟩
      rcases configured.config with same | ⟨password, same⟩
      · rw [same]
        exact .config
      · rw [same]
        exact .configNamed password
  | made isClient makes =>
      rw [configured.connectionCtor_eq] at makes
      cases makes
      exact ⟨given, .made, configured.made⟩
  | dropped isClient member =>
      have isGiven := configured.connections _ member
      subst isGiven
      refine ⟨given, .dropped, configured.config, ?_, ?_⟩
      · exact fun conn kept =>
          configured.connections conn (List.mem_of_mem_erase kept)
      · exact fun _ => configured.named (List.ne_nil_of_mem member)
  | @handled conn state write read member handler =>
      obtain ⟨password, isNamed, rfl⟩ := configured.handled member handler
      refine ⟨given, ?_, configured⟩
      rw [isNamed]
      by_cases connected : state = .connected
      · subst connected
        rw [authCommand, if_pos rfl, ClientConfig.named_password]
        exact .login password
      · rw [authCommand, if_neg connected,
          party.authClient_passed connected]
        exact .passed password connected

end Credentials.Configured

/-- An `AUTH` has a user name and a password. -/
def ConfigEvent.Complete : ConfigEvent → Prop
  | .handled _ _ _ _ (some command) _ =>
      ∃ username password, command = loginCmd username password ∧
        username ≠ [] ∧ password ≠ []
  | _ => True

theorem Intends.complete {party : Party} {given next : ClientConfig}
    {event : ConfigEvent} (intended : Intends party given event next) :
    event.Complete := by
  cases intended with
  | login password => exact ⟨_, _, rfl, given.named_username, password⟩
  | _ => trivial

/-- In every run, however they were constructed, both classes do what is
intended under the configuration that they were given last, whenever they run
their handlers; and no `AUTH` is sent without a user name and a password. -/
theorem logins_intended (party : Party) {config : ClientConfig}
    {start held : Credentials} {events : List ConfigEvent}
    (constructed : party.Constructs config start)
    (run : Run (ConfigStep party) start events held) :
    ∃ given, Run (Intends party) config events given ∧
      held.Configured given ∧ ∀ event ∈ events, event.Complete := by
  obtain ⟨given, intended, configured⟩ :=
    run.simulates (fun _ _ _ _ related taken => related.step taken)
      (Credentials.Configured.constructs constructed)
  exact ⟨given, intended, configured,
    intended.forall_events fun _ _ _ => Intends.complete⟩

/-- A configuration with a password and without a user name. -/
private def passwordOnly : ClientConfig := ⟨[104], 6379, 8, [], [112]⟩

/-- The first connection that is made under it sends `AUTH default p`. -/
private def firstLogin : List ConfigEvent :=
  [.made ⟨[104], 6379, true⟩,
    .handled ⟨[104], 6379, true⟩ .connected ⟨.success, 28⟩
      ⟨.success, .empty⟩ (some (loginCmd (ascii "default") [112]))
      (Party.client.authClient .connected passwordOnly.named ⟨.success, 28⟩
        ⟨.success, .empty⟩)]

theorem logins_intended_firstLogin :
    ∃ given, Run (Intends .client) passwordOnly firstLogin given ∧
      (Credentials.mk passwordOnly.named [⟨[104], 6379, true⟩]).Configured
        given ∧
      ∀ event ∈ firstLogin, event.Complete := by
  have member : MadeConnection.mk [104] 6379 true ∈
      [MadeConnection.mk [104] 6379 true] := List.mem_singleton_self _
  exact logins_intended .client (.config passwordOnly)
    (.step (.made rfl rfl) (.step (.handled member rfl) (.refl _)))

end RedisClient
