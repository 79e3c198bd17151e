import RedisClient.Authentication
import RedisClient.CommandFraming
import RedisClient.CommandTokens
import RedisClient.CommandTtl
import RedisClient.DoublePrinting

/-!
# All commands

The functions that build commands, as far as the modules on overloads and
options do not have them, and what all of them share: the verb of a function
does not depend on its arguments, and no argument can disturb the framing.
-/

namespace RedisClient

open Basis

/-! ## Keys -/

/-- `command("FLUSHALL")` -/
def flushAll : Execution Command := Command.ofString (ascii "FLUSHALL")

def get (key : Bytes) : Command := ⟨[ascii "GET", key]⟩

def set (key value : Bytes) (params : List Bytes) : Command :=
  ⟨[ascii "SET", key, value] ++ params⟩

/-- `template <typename... Args> command del(Args...)` -/
def delArgs (keys : List Argument) : Outcome BadCast Command :=
  multiItem [ascii "DEL"] keys []

/-- `template <typename... Args> command exists(Args...)` -/
def existsArgs (keys : List Argument) : Outcome BadCast Command :=
  multiItem [ascii "EXISTS"] keys []

def incr (key : Bytes) : Command := ⟨[ascii "INCR", key]⟩

def incrby (key : Bytes) (num : Int64) : Command :=
  ⟨[ascii "INCRBY", key, toString num]⟩

def decr (key : Bytes) : Command := ⟨[ascii "DECR", key]⟩

/-- The verb is not a word. -/
def decrby (key : Bytes) (num : Int64) : Command :=
  ⟨[ascii "DECR BY", key, toString num]⟩

def publish (channel message : Bytes) : Command :=
  ⟨[ascii "PUBLISH", channel, message]⟩

def persist (key : Bytes) : Command := ⟨[ascii "PERSIST", key]⟩

def pttl (key : Bytes) : Command := ⟨[ascii "PTTL", key]⟩

def ttl (key : Bytes) : Command := ⟨[ascii "TTL", key]⟩

/-! ## Hashes -/

def hexists (key field : Bytes) : Command := ⟨[ascii "hexists", key, field]⟩

def hsetnx (key field : Bytes) (value : Value) : Outcome BadCast Command :=
  singleItem [ascii "HSETNX", key] (field, value) []

def hgetall (key : Bytes) : Command := ⟨[ascii "HGETALL", key]⟩

def hkeys (key : Bytes) : Command := ⟨[ascii "HKEYS", key]⟩

def hvals (key : Bytes) : Command := ⟨[ascii "HVALS", key]⟩

def hdel (key field : Bytes) : Command := ⟨[ascii "HDEL", key, field]⟩

def hlen (key : Bytes) : Command := ⟨[ascii "HLEN", key]⟩

def hincrby (key field : Bytes) (num : Int64) : Command :=
  ⟨[ascii "HINCRBY", key, field, toString num]⟩

/-! ## Lists -/

/-- The body that `rpop` and `lpop` share: no number is sent for zero. -/
def popNumber (verb key : Bytes) (num : Int64) : Command :=
  if num = 0 then ⟨[verb, key]⟩ else ⟨[verb, key, toString num]⟩

def rpop : Bytes → Int64 → Command := popNumber (ascii "RPOP")

def lpop : Bytes → Int64 → Command := popNumber (ascii "LPOP")

def lset (key : Bytes) (index : Int64) (value : Value) :
    Outcome BadCast Command :=
  singleItem [ascii "LSET", key, toString index] value []

def llen (key : Bytes) : Command := ⟨[ascii "LLEN", key]⟩

def lindex (key : Bytes) (index : Int64) : Command :=
  ⟨[ascii "LINDEX", key, toString index]⟩

def lrange (key : Bytes) (start stop : Int64) : Command :=
  ⟨[ascii "LRANGE", key, toString start, toString stop]⟩

def lrem (key : Bytes) (count : Int64) (elem : Bytes) : Command :=
  ⟨[ascii "LREM", key, toString count, elem]⟩

/-- The body that both insertions share. -/
def linsert (place key : Bytes) (index : Int64) : Command :=
  ⟨[ascii "LINSERT", key, place, toString index]⟩

def linsertbefore : Bytes → Int64 → Command := linsert (ascii "BEFORE")

def linsertafter : Bytes → Int64 → Command := linsert (ascii "AFTER")

/-! ## Sets -/

/-- `template <typename... Args> command sdiff(Args...)` -/
def sdiffArgs (keys : List Argument) : Outcome BadCast Command :=
  multiItem [ascii "SDIFF"] keys []

def sdiff (keys : List Bytes) : Outcome BadCast Command :=
  multiItem [ascii "SDIFF"] keys []

/-- `template <typename... Args> command sinter(Args...)` -/
def sinterArgs (keys : List Argument) : Outcome BadCast Command :=
  multiItem [ascii "SINTER"] keys []

def sinter (keys : List Bytes) : Outcome BadCast Command :=
  multiItem [ascii "SINTER"] keys []

/-- `template <typename... Args> command sunion(Args...)` -/
def sunionArgs (keys : List Argument) : Outcome BadCast Command :=
  multiItem [ascii "SUNION"] keys []

def sunion (keys : List Bytes) : Outcome BadCast Command :=
  multiItem [ascii "SUNION"] keys []

def smembers (key : Bytes) : Command := ⟨[ascii "SMEMBERS", key]⟩

/-- No number is sent for one. -/
def spop (key : Bytes) (numPop : Int32) : Command :=
  if numPop = 1 then ⟨[ascii "SPOP", key]⟩
  else ⟨[ascii "SPOP", key, Decimal.printInt numPop.toInt]⟩

/-! ## JSON -/

def jsonGet (key path : Bytes) : Command := ⟨[ascii "JSON.GET", key, path]⟩

def jsonSet (key path value : Bytes) : Command :=
  ⟨[ascii "JSON.SET", key, path, value]⟩

def jsonDel (key path : Bytes) : Command := ⟨[ascii "JSON.DEL", key, path]⟩

def jsonType (key path : Bytes) : Command := ⟨[ascii "JSON.TYPE", key, path]⟩

def jsonStrlen (key path : Bytes) : Command :=
  ⟨[ascii "JSON.STRLEN", key, path]⟩

def jsonStrappend (key path value : Bytes) : Command :=
  ⟨[ascii "JSON.STRAPPEND", key, path, value]⟩

def jsonNumincrby (key path value : Bytes) : Command :=
  ⟨[ascii "JSON.NUMINCRBY", key, path, value]⟩

def jsonNummultby (key path value : Bytes) : Command :=
  ⟨[ascii "JSON.NUMMULTBY", key, path, value]⟩

def jsonArrappend (key path value : Bytes) : Command :=
  ⟨[ascii "JSON.ARRAPPEND", key, path, value]⟩

def jsonArrinsert (key path : Bytes) (values : List Bytes) : Command :=
  ⟨[ascii "JSON.ARRINSERT", key, path] ++ values⟩

def jsonArrtrim (key path startIndex length : Bytes) : Command :=
  ⟨[ascii "JSON.ARRTRIM", key, path, startIndex, length]⟩

def jsonArrpop (key path : Bytes) : Command :=
  ⟨[ascii "JSON.ARRPOP", key, path]⟩

def jsonObjlen (key path : Bytes) : Command :=
  ⟨[ascii "JSON.OBJLEN", key, path]⟩

def jsonObjkeys (key path : Bytes) : Command :=
  ⟨[ascii "JSON.OBJKEYS", key, path]⟩

/-! ## What the clients send themselves -/

/-- The command of `client::ping` and `redis_subscriber::ping`. -/
def pingCommand : Execution Command := Command.ofString (ascii "PING")

/-- The command of `redis_subscriber::reset`. -/
def resetCommand : Execution Command := Command.ofString (ascii "RESET")

/-- The command of `redis_subscriber::subscribe`. -/
def subscribeCommand (channel : Bytes) : Command :=
  ⟨[ascii "SUBSCRIBE", channel]⟩

/-- The command of `redis_subscriber::unsubscribe`. -/
def unsubscribeCommand (channel : Bytes) : Command :=
  ⟨[ascii "UNSUBSCRIBE", channel]⟩

/-- The command of `redis_subscriber::psubscribe`. -/
def psubscribeCommand (pattern : Bytes) : Command :=
  ⟨[ascii "PSUBSCRIBE", pattern]⟩

/-- The command of `redis_subscriber::punsubscribe`. -/
def punsubscribeCommand (pattern : Bytes) : Command :=
  ⟨[ascii "PUNSUBSCRIBE", pattern]⟩

/-! ## The catalogue -/

/-- Some call of a function with the verb builds the command. -/
inductive Built : Bytes → Command → Prop where
  | flushAll {command : Command} :
      flushAll = .returns command → Built (ascii "FLUSHALL") command
  | get {key : Bytes} : Built (ascii "GET") (get key)
  | set {key value : Bytes} {params : List Bytes} :
      Built (ascii "SET") (set key value params)
  | delArgs {keys : List Argument} {command : Command} :
      delArgs keys = .returns command → Built (ascii "DEL") command
  | existsArgs {keys : List Argument} {command : Command} :
      existsArgs keys = .returns command → Built (ascii "EXISTS") command
  | incr {key : Bytes} : Built (ascii "INCR") (incr key)
  | incrby {key : Bytes} {num : Int64} :
      Built (ascii "INCRBY") (incrby key num)
  | incrbyfloat {key : Bytes} {num : Float.Model} :
      Built (ascii "INCRBYFLOAT") (incrbyfloat key num)
  | decr {key : Bytes} : Built (ascii "DECR") (decr key)
  | decrby {key : Bytes} {num : Int64} :
      Built (ascii "DECR BY") (decrby key num)
  | publish {channel message : Bytes} :
      Built (ascii "PUBLISH") (publish channel message)
  | ttlCommand {command : TtlCommand} {key : Bytes} {time : Int64}
      {param : TtlParam} : Built command.verb (command.build key time param)
  | persist {key : Bytes} : Built (ascii "PERSIST") (persist key)
  | pttl {key : Bytes} : Built (ascii "PTTL") (pttl key)
  | ttl {key : Bytes} : Built (ascii "TTL") (ttl key)
  | hexists {key field : Bytes} :
      Built (ascii "hexists") (hexists key field)
  | hset {key field : Bytes} {value : Value} {params : List Bytes}
      {command : Command} :
      hset key field value params = .returns command →
      Built (ascii "HSET") command
  | hsetMap {key : Bytes} {values : Hash} {params : List Bytes}
      {command : Command} :
      hsetMap key values params = .returns command →
      Built (ascii "HSET") command
  | hsetnx {key field : Bytes} {value : Value} {command : Command} :
      hsetnx key field value = .returns command →
      Built (ascii "HSETNX") command
  | hget {key field : Bytes} {command : Command} :
      hget key field = .returns command → Built (ascii "HGET") command
  | hgetFields {key : Bytes} {fields : List Bytes} {command : Command} :
      hgetFields key fields = .returns command → Built (ascii "HSET") command
  | hgetall {key : Bytes} : Built (ascii "HGETALL") (hgetall key)
  | hkeys {key : Bytes} : Built (ascii "HKEYS") (hkeys key)
  | hvals {key : Bytes} : Built (ascii "HVALS") (hvals key)
  | hdel {key field : Bytes} : Built (ascii "HDEL") (hdel key field)
  | hlen {key : Bytes} : Built (ascii "HLEN") (hlen key)
  | hincrby {key field : Bytes} {num : Int64} :
      Built (ascii "HINCRBY") (hincrby key field num)
  | hincrbyfloat {key field : Bytes} {num : Float.Model} :
      Built (ascii "HINCRBYFLOAT") (hincrbyfloat key field num)
  | rpush {key : Bytes} {value : Value} {command : Command} :
      rpush key value = .returns command → Built (ascii "RPUSH") command
  | rpushArray {key : Bytes} {values : List Value} {command : Command} :
      rpushArray key values = .returns command → Built (ascii "RPUSH") command
  | rpushx {key : Bytes} {value : Value} {command : Command} :
      rpushx key value = .returns command → Built (ascii "RPUSHX") command
  | rpushxArray {key : Bytes} {values : List Value} {command : Command} :
      rpushxArray key values = .returns command →
      Built (ascii "RPUSHX") command
  | lpush {key : Bytes} {value : Value} {command : Command} :
      lpush key value = .returns command → Built (ascii "LPUSH") command
  | lpushArray {key : Bytes} {values : List Value} {command : Command} :
      lpushArray key values = .returns command → Built (ascii "LPUSH") command
  | lpushx {key : Bytes} {value : Value} {command : Command} :
      lpushx key value = .returns command → Built (ascii "LPUSHX") command
  | lpushxArray {key : Bytes} {values : List Value} {command : Command} :
      lpushxArray key values = .returns command →
      Built (ascii "LPUSHX") command
  | rpop {key : Bytes} {num : Int64} : Built (ascii "RPOP") (rpop key num)
  | lpop {key : Bytes} {num : Int64} : Built (ascii "LPOP") (lpop key num)
  | brpop {key : Bytes} {timeout : Int64} {command : Command} :
      brpop key timeout = .returns command → Built (ascii "BRPOP") command
  | brpopKeys {keys : List Bytes} {timeout : Int64} {command : Command} :
      brpopKeys keys timeout = .returns command →
      Built (ascii "BRPOP") command
  | blpop {key : Bytes} {timeout : Int64} {command : Command} :
      blpop key timeout = .returns command → Built (ascii "BLPOP") command
  | blpopKeys {keys : List Bytes} {timeout : Int64} {command : Command} :
      blpopKeys keys timeout = .returns command →
      Built (ascii "BLPOP") command
  | lset {key : Bytes} {index : Int64} {value : Value} {command : Command} :
      lset key index value = .returns command → Built (ascii "LSET") command
  | llen {key : Bytes} : Built (ascii "LLEN") (llen key)
  | lindex {key : Bytes} {index : Int64} :
      Built (ascii "LINDEX") (lindex key index)
  | lrange {key : Bytes} {start stop : Int64} :
      Built (ascii "LRANGE") (lrange key start stop)
  | lrem {key elem : Bytes} {count : Int64} :
      Built (ascii "LREM") (lrem key count elem)
  | linsertbefore {key : Bytes} {index : Int64} :
      Built (ascii "LINSERT") (linsertbefore key index)
  | linsertafter {key : Bytes} {index : Int64} :
      Built (ascii "LINSERT") (linsertafter key index)
  | saddArgs {key : Bytes} {members : List Argument} {command : Command} :
      saddArgs key members = .returns command → Built (ascii "SADD") command
  | sadd {key : Bytes} {members : List Bytes} {command : Command} :
      sadd key members = .returns command → Built (ascii "SADD") command
  | sremArgs {key : Bytes} {members : List Argument} {command : Command} :
      sremArgs key members = .returns command → Built (ascii "SREM") command
  | srem {key : Bytes} {members : List Bytes} {command : Command} :
      srem key members = .returns command → Built (ascii "SREM") command
  | sismember {key member : Bytes} {command : Command} :
      sismember key member = .returns command →
      Built (ascii "SISMEMBER") command
  | sismemberStrings {key : Bytes} {members : List Bytes}
      {command : Command} :
      sismemberStrings key members = .returns command →
      Built (ascii "SISMEMBER") command
  | sdiffArgs {keys : List Argument} {command : Command} :
      sdiffArgs keys = .returns command → Built (ascii "SDIFF") command
  | sdiff {keys : List Bytes} {command : Command} :
      sdiff keys = .returns command → Built (ascii "SDIFF") command
  | sinterArgs {keys : List Argument} {command : Command} :
      sinterArgs keys = .returns command → Built (ascii "SINTER") command
  | sinter {keys : List Bytes} {command : Command} :
      sinter keys = .returns command → Built (ascii "SINTER") command
  | sunionArgs {keys : List Argument} {command : Command} :
      sunionArgs keys = .returns command → Built (ascii "SUNION") command
  | sunion {keys : List Bytes} {command : Command} :
      sunion keys = .returns command → Built (ascii "SUNION") command
  | smembers {key : Bytes} : Built (ascii "SMEMBERS") (smembers key)
  | spop {key : Bytes} {numPop : Int32} :
      Built (ascii "SPOP") (spop key numPop)
  | jsonGet {key path : Bytes} : Built (ascii "JSON.GET") (jsonGet key path)
  | jsonSet {key path value : Bytes} :
      Built (ascii "JSON.SET") (jsonSet key path value)
  | jsonDel {key path : Bytes} : Built (ascii "JSON.DEL") (jsonDel key path)
  | jsonType {key path : Bytes} :
      Built (ascii "JSON.TYPE") (jsonType key path)
  | jsonStrlen {key path : Bytes} :
      Built (ascii "JSON.STRLEN") (jsonStrlen key path)
  | jsonStrappend {key path value : Bytes} :
      Built (ascii "JSON.STRAPPEND") (jsonStrappend key path value)
  | jsonNumincrby {key path value : Bytes} :
      Built (ascii "JSON.NUMINCRBY") (jsonNumincrby key path value)
  | jsonNummultby {key path value : Bytes} :
      Built (ascii "JSON.NUMMULTBY") (jsonNummultby key path value)
  | jsonArrappend {key path value : Bytes} :
      Built (ascii "JSON.ARRAPPEND") (jsonArrappend key path value)
  | jsonArrinsert {key path : Bytes} {values : List Bytes} :
      Built (ascii "JSON.ARRINSERT") (jsonArrinsert key path values)
  | jsonArrtrim {key path startIndex length : Bytes} :
      Built (ascii "JSON.ARRTRIM") (jsonArrtrim key path startIndex length)
  | jsonArrpop {key path : Bytes} :
      Built (ascii "JSON.ARRPOP") (jsonArrpop key path)
  | jsonObjlen {key path : Bytes} :
      Built (ascii "JSON.OBJLEN") (jsonObjlen key path)
  | jsonObjkeys {key path : Bytes} :
      Built (ascii "JSON.OBJKEYS") (jsonObjkeys key path)
  | pingCommand {command : Command} :
      pingCommand = .returns command → Built (ascii "PING") command
  | loginCmd {username password : Bytes} :
      Built (ascii "AUTH") (loginCmd username password)
  | resetCommand {command : Command} :
      resetCommand = .returns command → Built (ascii "RESET") command
  | subscribeCommand {channel : Bytes} :
      Built (ascii "SUBSCRIBE") (subscribeCommand channel)
  | unsubscribeCommand {channel : Bytes} :
      Built (ascii "UNSUBSCRIBE") (unsubscribeCommand channel)
  | psubscribeCommand {pattern : Bytes} :
      Built (ascii "PSUBSCRIBE") (psubscribeCommand pattern)
  | punsubscribeCommand {pattern : Bytes} :
      Built (ascii "PUNSUBSCRIBE") (punsubscribeCommand pattern)

/-- The command is the verb and arguments. -/
def StartsWith (verb : Bytes) (command : Command) : Prop :=
  ∃ arguments, command.commands = verb :: arguments

/-- Neither a line ending nor the marker of an array is in the verb. -/
def PlainVerb (verb : Bytes) : Prop :=
  carriageReturn ∉ verb ∧ Marker.array.byte ∉ verb

instance (verb : Bytes) : Decidable (PlainVerb verb) :=
  inferInstanceAs (Decidable (_ ∧ _))

theorem prefix_of_pushBackAll {α : Type} [Item α] {items : List α}
    {front result : List Bytes}
    (run : pushBackAll front items = .returns result) : front <+: result := by
  induction items generalizing front with
  | nil =>
      cases run
      exact List.prefix_rfl
  | cons item items induction =>
      obtain ⟨texts, _, tailRun⟩ := Outcome.bind_eq_returns_iff.mp run
      exact (List.prefix_append front texts).trans (induction tailRun)

theorem startsWith_of_prefix {verb : Bytes} {front strings : List Bytes}
    (isPrefix : verb :: front <+: strings) : StartsWith verb ⟨strings⟩ := by
  obtain ⟨behind, rfl⟩ := isPrefix
  exact ⟨front ++ behind, rfl⟩

theorem startsWith_of_multiItem {α : Type} [Item α] {verb : Bytes}
    {front back : List Bytes} {items : List α} {command : Command}
    (run : multiItem (verb :: front) items back = .returns command) :
    StartsWith verb command := by
  obtain ⟨strings, pushed, same⟩ := Outcome.bind_eq_returns_iff.mp run
  cases same
  exact startsWith_of_prefix
    ((prefix_of_pushBackAll pushed).trans (List.prefix_append strings back))

theorem startsWith_of_singleItem {α : Type} [Item α] {verb : Bytes}
    {front back : List Bytes} {item : α} {command : Command}
    (run : singleItem (verb :: front) item back = .returns command) :
    StartsWith verb command := by
  obtain ⟨texts, _, same⟩ := Outcome.bind_eq_returns_iff.mp run
  cases same
  exact ⟨front ++ texts ++ back, rfl⟩

theorem startsWith_of_word {verb : Bytes} {command : Command}
    (noOpening : ¬EndsInOpeningQuote verb)
    (oneWord : tokens false verb [] = [verb])
    (run : Command.ofString verb = .returns command) :
    StartsWith verb command := by
  rw [Command.ofString_eq, if_neg noOpening, oneWord] at run
  cases run
  exact ⟨[], rfl⟩

theorem startsWith_ttlCommand (ttl : TtlCommand) (key : Bytes) (time : Int64)
    (param : TtlParam) : StartsWith ttl.verb (ttl.build key time param) := by
  have within (verb : Bytes) :
      StartsWith verb (expireWithin verb key time param) := by
    rw [expireWithin]
    split <;> exact ⟨_, rfl⟩
  have atTime (verb : Bytes) :
      StartsWith verb (expireAtTime verb key time param) := by
    rw [expireAtTime]
    split <;> exact ⟨_, rfl⟩
  cases ttl with
  | expire | pexpire => exact within _
  | expireat | pexpireat => exact atTime _

theorem startsWith_popNumber (verb key : Bytes) (num : Int64) :
    StartsWith verb (popNumber verb key num) := by
  rw [popNumber]
  split <;> exact ⟨_, rfl⟩

namespace Built

variable {verb : Bytes} {command : Command}

theorem startsWith (built : Built verb command) : StartsWith verb command := by
  cases built with
  | flushAll run | pingCommand run | resetCommand run =>
      exact startsWith_of_word (by decide) (by decide) run
  | ttlCommand => exact startsWith_ttlCommand _ _ _ _
  | rpop | lpop => exact startsWith_popNumber _ _ _
  | spop =>
      rw [RedisClient.spop]
      split <;> exact ⟨_, rfl⟩
  | delArgs run | existsArgs run | hsetMap run | hgetFields run
  | rpushArray run | rpushxArray run | lpushArray run | lpushxArray run
  | brpopKeys run | blpopKeys run | saddArgs run | sadd run | sremArgs run
  | srem run | sismemberStrings run | sdiffArgs run | sdiff run
  | sinterArgs run | sinter run | sunionArgs run | sunion run =>
      exact startsWith_of_multiItem run
  | hset run | hsetnx run | hget run | rpush run | rpushx run | lpush run
  | lpushx run | lset run | sismember run | brpop run | blpop run =>
      exact startsWith_of_singleItem run
  | _ => exact ⟨_, rfl⟩

theorem plain (built : Built verb command) : PlainVerb verb := by
  cases built with
  | @ttlCommand ttl => cases ttl <;> decide
  | _ => decide

/-- Only the verb of `decrby` is not a word. -/
theorem spaced_iff (built : Built verb command) :
    space ∈ verb ↔ verb = ascii "DECR BY" := by
  cases built with
  | @ttlCommand ttl => cases ttl <;> decide
  | _ => decide

theorem framed (built : Built verb command) : Framed command.commands := by
  obtain ⟨noReturn, noMarker⟩ := built.plain
  obtain ⟨arguments, commands⟩ := built.startsWith
  rw [commands]
  cases arguments with
  | nil =>
      refine Or.inr ⟨verb, rfl, ?_, ?_⟩
      · intro inside
        exact noReturn (inside.subset (by simp [crlf]))
      · rintro count several rfl
        exact noMarker List.mem_cons_self
  | cons argument arguments => exact Or.inl (by simp)

theorem verb_unique {other : Bytes} (built : Built verb command)
    (otherBuilt : Built other command) : verb = other := by
  obtain ⟨arguments, commands⟩ := built.startsWith
  obtain ⟨otherArguments, otherCommands⟩ := otherBuilt.startsWith
  exact (List.cons.inj (commands.symm.trans otherCommands)).1

theorem eq_of_commands {left right : List (Bytes × Command)}
    (leftBuilt : ∀ sent ∈ left, Built sent.1 sent.2)
    (rightBuilt : ∀ sent ∈ right, Built sent.1 sent.2)
    (same : left.map Prod.snd = right.map Prod.snd) : left = right := by
  induction left generalizing right with
  | nil => exact (List.map_eq_nil_iff.mp same.symm).symm
  | cons sent left induction =>
      cases right with
      | nil => cases same
      | cons other right =>
          obtain ⟨command, tails⟩ := List.cons.inj same
          have one := leftBuilt sent List.mem_cons_self
          have two := rightBuilt other List.mem_cons_self
          rw [command] at one
          rw [Prod.ext (one.verb_unique two) command,
            induction
              (fun later member => leftBuilt later (.tail sent member))
              (fun later member => rightBuilt later (.tail other member))
              tails]

end Built

/-- The functions that build commands fix the first string of a command, which
is a word except in `decrby`.  Whatever keys, fields, values and further
parameters contain, the bytes of a pipeline of such commands determine its
commands and the functions' verbs. -/
theorem built_separate :
    (∀ verb command, Built verb command →
      StartsWith verb command ∧ Framed command.commands ∧
        (space ∈ verb ↔ verb = ascii "DECR BY")) ∧
    ∀ left right : List (Bytes × Command),
      (∀ sent ∈ left ++ right, Built sent.1 sent.2) →
      serializedCommands (left.map Prod.snd) =
        serializedCommands (right.map Prod.snd) →
      left = right := by
  constructor
  · intro verb command built
    exact ⟨built.startsWith, built.framed, built.spaced_iff⟩
  · intro left right built equality
    have framed (sent : List (Bytes × Command))
        (allBuilt : ∀ one ∈ sent, Built one.1 one.2) :
        ∀ command ∈ sent.map Prod.snd, Framed command.commands := by
      intro command member
      obtain ⟨one, oneMember, rfl⟩ := List.mem_map.mp member
      exact (allBuilt one oneMember).framed
    have leftBuilt : ∀ one ∈ left, Built one.1 one.2 :=
      fun one member => built one (List.mem_append_left right member)
    have rightBuilt : ∀ one ∈ right, Built one.1 one.2 :=
      fun one member => built one (List.mem_append_right left member)
    apply Built.eq_of_commands leftBuilt rightBuilt
    exact serializedCommands_inj (framed left leftBuilt)
      (framed right rightBuilt) equality

end RedisClient
