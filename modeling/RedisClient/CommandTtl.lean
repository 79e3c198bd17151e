import RedisClient.CommandBuilders

/-!
# Commands that set a time to live

Each of the four commands has one list of arguments for the case without an
option and one for the case with it.  In two of them the second list has lost
the time, so that the option takes its place.
-/

namespace RedisClient

open Basis

/-- `ttl_param` -/
inductive TtlParam where
  | none
  | nx
  | xx
  | gt
  | lt
  deriving DecidableEq

/-- `to_string(ttl_param)` -/
def TtlParam.toString : TtlParam → Bytes
  | .nx => ascii "NX"
  | .xx => ascii "XX"
  | .gt => ascii "GT"
  | .lt => ascii "LT"
  | .none => []

/-- The body that `expire` and `pexpire` share. -/
def expireWithin (verb key : Bytes) (time : Int64) (param : TtlParam) :
    Command :=
  if param = .none then ⟨[verb, key, RedisClient.toString time]⟩
  else ⟨[verb, key, RedisClient.toString time, param.toString]⟩

/-- The body that `expireat` and `pexpireat` share: an option is sent without
the time. -/
def expireAtTime (verb key : Bytes) (unixTime : Int64) (param : TtlParam) :
    Command :=
  if param = .none then ⟨[verb, key, RedisClient.toString unixTime]⟩
  else ⟨[verb, key, param.toString]⟩

def expire : Bytes → Int64 → TtlParam → Command :=
  expireWithin (ascii "EXPIRE")

def expireat : Bytes → Int64 → TtlParam → Command :=
  expireAtTime (ascii "EXPIREAT")

def pexpire : Bytes → Int64 → TtlParam → Command :=
  expireWithin (ascii "PEXPIRE")

def pexpireat : Bytes → Int64 → TtlParam → Command :=
  expireAtTime (ascii "PEXPIREAT")

/-- The commands that take a time and an option. -/
inductive TtlCommand where
  | expire
  | expireat
  | pexpire
  | pexpireat
  deriving DecidableEq

def TtlCommand.build : TtlCommand → Bytes → Int64 → TtlParam → Command
  | .expire => RedisClient.expire
  | .expireat => RedisClient.expireat
  | .pexpire => RedisClient.pexpire
  | .pexpireat => RedisClient.pexpireat

def TtlCommand.verb : TtlCommand → Bytes
  | .expire => ascii "EXPIRE"
  | .expireat => ascii "EXPIREAT"
  | .pexpire => ascii "PEXPIRE"
  | .pexpireat => ascii "PEXPIREAT"

/-- The option comes behind everything that is sent without it. -/
structure OnlyAdds (ttl : TtlCommand) (key : Bytes) (time : Int64)
    (param : TtlParam) : Prop where
  without : (ttl.build key time .none).commands =
    [ttl.verb, key, RedisClient.toString time]
  added : (ttl.build key time param).commands =
    (ttl.build key time .none).commands ++ [param.toString]
  distinct : ∀ other, other ≠ time →
    ttl.build key other param ≠ ttl.build key time param

theorem toString_injective : Function.Injective RedisClient.toString := by
  intro left right same
  have printed : Decimal.printInt left.toInt = Decimal.printInt right.toInt :=
    same
  have read := stol_printInt left
  rw [printed, stol_printInt right] at read
  exact (Except.ok.inj read).symm

/-- The shared body of `expire` and `pexpire` keeps the time. -/
theorem expireWithin_commands (verb key : Bytes) (time : Int64)
    {param : TtlParam} (given : param ≠ .none) :
    (expireWithin verb key time param).commands =
      [verb, key, RedisClient.toString time, param.toString] := by
  rw [expireWithin, if_neg given]

/-- The shared body of `expireat` and `pexpireat` does not. -/
theorem expireAtTime_commands (verb key : Bytes) (unixTime : Int64)
    {param : TtlParam} (given : param ≠ .none) :
    (expireAtTime verb key unixTime param).commands =
      [verb, key, param.toString] := by
  rw [expireAtTime, if_neg given]

theorem onlyAdds_of_within {ttl : TtlCommand} {param : TtlParam}
    (given : param ≠ .none) (within : ttl.build = expireWithin ttl.verb)
    (key : Bytes) (time : Int64) : OnlyAdds ttl key time param where
  without := by rw [within]; rfl
  added := by
    rw [within, expireWithin_commands _ _ _ given]
    rfl
  distinct other different same := by
    have lists := congrArg Command.commands same
    rw [within, expireWithin_commands _ _ _ given,
      expireWithin_commands _ _ _ given] at lists
    have times : RedisClient.toString other = RedisClient.toString time := by
      simpa using lists
    exact different (toString_injective times)

theorem not_onlyAdds_of_atTime {ttl : TtlCommand} {param : TtlParam}
    (given : param ≠ .none) (atTime : ttl.build = expireAtTime ttl.verb)
    (key : Bytes) (time : Int64) : ¬OnlyAdds ttl key time param := by
  intro onlyAdds
  have lengths := congrArg List.length onlyAdds.added
  rw [onlyAdds.without, atTime, expireAtTime_commands _ _ _ given] at lengths
  cases lengths

/-- With an option, `expire` and `pexpire` send what they send without it, and
the option; the other two commands never do. -/
theorem onlyAdds_iff {param : TtlParam} (given : param ≠ .none)
    (ttl : TtlCommand) (key : Bytes) (time : Int64) :
    OnlyAdds ttl key time param ↔ ttl = .expire ∨ ttl = .pexpire := by
  cases ttl with
  | expire => exact iff_of_true (onlyAdds_of_within given rfl _ _) (.inl rfl)
  | pexpire => exact iff_of_true (onlyAdds_of_within given rfl _ _) (.inr rfl)
  | expireat =>
      exact iff_of_false (not_onlyAdds_of_atTime given rfl _ _) (by decide)
  | pexpireat =>
      exact iff_of_false (not_onlyAdds_of_atTime given rfl _ _) (by decide)

/-- `expire("k", 10s, NX)` -/
theorem onlyAdds_iff_expire : OnlyAdds .expire [107] 10 .nx := by
  have given : TtlParam.nx ≠ .none := by decide
  exact (onlyAdds_iff given .expire [107] 10).mpr (.inl rfl)

/-- `expireat("k", 10, NX)` is `EXPIREAT k NX`. -/
theorem not_onlyAdds_expireat :
    ¬∀ ttl key time param, param ≠ .none → OnlyAdds ttl key time param := by
  intro onlyAdds
  have added := (onlyAdds .expireat [107] 10 .nx (by decide)).added
  revert added
  decide

end RedisClient
