import RedisClient.RespPrefix

/-!
# Commands and their serialisation

`command::serialized_command` has two formats.  A command of one argument is
sent as that argument and CR LF, and every longer one as an array of bulk
strings, which is the encoding of such a reply.  Replies are prefix free, so the
second format delimits itself whatever the arguments contain.
-/

namespace RedisClient

open Basis

/-- `redis::command` -/
structure Command where
  commands : List Bytes
  deriving DecidableEq

def Command.empty (command : Command) : Bool := command.commands.isEmpty

/-- `command::serialized_command` -/
def Command.serializedCommand (command : Command) : Bytes :=
  if command.empty then []
  else
    match command.commands with
    | [argument] => argument ++ crlf
    | commands =>
        Marker.array.byte :: (Decimal.print commands.length ++ crlf) ++
          commands.flatMap fun argument =>
            (Marker.bulkString.byte :: (Decimal.print argument.length ++ crlf)) ++
              (argument ++ crlf)

/-- The buffer of `client::send(connection, commands)`. -/
def serializedCommands (commands : List Command) : Bytes :=
  commands.flatMap Command.serializedCommand

/-- The arguments of a command as an array of bulk strings. -/
def argumentArray (arguments : List Bytes) : Resp :=
  .array (arguments.map .bulk)

private theorem encodeAll_bulk (arguments : List Bytes) :
    Resp.encodeAll (arguments.map .bulk) =
      arguments.flatMap fun argument =>
        (Marker.bulkString.byte :: (Decimal.print argument.length ++ crlf)) ++
          (argument ++ crlf) := by
  induction arguments with
  | nil => rfl
  | cons argument arguments induction =>
      simp [Resp.encodeAll, Resp.encode, induction, line, payload, crlf]

theorem serializedCommand_inline (argument : Bytes) :
    (Command.mk [argument]).serializedCommand = argument ++ crlf := rfl

/-- A command of at least two arguments is the encoding of their array. -/
theorem serializedCommand_array {command : Command}
    (several : 2 ≤ command.commands.length) :
    command.serializedCommand = (argumentArray command.commands).encode := by
  obtain ⟨arguments⟩ := command
  match arguments, several with
  | first :: second :: rest, several =>
      simp only [Command.serializedCommand, Command.empty, List.isEmpty_cons,
        Bool.false_eq_true, if_false, argumentArray, Resp.encode,
        encodeAll_bulk, List.length_map, line, crlf, List.cons_append,
        List.nil_append, List.append_assoc]

theorem serializedCommand_ne_nil {command : Command}
    (nonempty : command.commands ≠ []) : command.serializedCommand ≠ [] := by
  obtain ⟨arguments⟩ := command
  match arguments, nonempty with
  | [argument], nonempty => simp [serializedCommand_inline, crlf]
  | first :: second :: rest, nonempty =>
      rw [serializedCommand_array (by simp)]
      exact Resp.encode_ne_nil _

end RedisClient
