import RedisClient.Client
import RedisClient.CommandFraming
import RedisClient.WholeReplies

/-!
# A pipeline against its commands

A server answers one command after the other, from the bytes alone.  Sending
commands in one pipeline leads it to the same state, and gives the client the
same replies, as sending each by itself.
-/

namespace RedisClient

open Basis

/-- A server: what it answers to a command and what becomes of its state.  Every
answer is read as one reply. -/
structure Server (σ : Type) where
  answer : σ → Command → σ × Bytes
  readAs : ∀ state command, ∃ reply, ReadAs (answer state command).2 reply

namespace Server

variable {σ : Type} (server : Server σ)

/-- A server that answers with ordinary replies. -/
def ofReplies
    (answer : σ → Command →
      σ × { item : Resp // item.Ordinary ∧ item.encode.length ≤ maxSize }) :
    Server σ where
  answer state command :=
    ((answer state command).1, (answer state command).2.val.encode)
  readAs state command :=
    have ⟨ordinary, fits⟩ := (answer state command).2.property
    ⟨_, ordinary.readAs fits⟩

/-- The last state and the answers to the commands. -/
def answerAll : σ → List Command → σ × List Bytes
  | state, [] => (state, [])
  | state, command :: commands =>
      let (middle, answer) := server.answer state command
      let (last, answers) := answerAll middle commands
      (last, answer :: answers)

theorem answerAll_cons (state : σ) (command : Command)
    (commands : List Command) :
    server.answerAll state (command :: commands) =
      ((server.answerAll (server.answer state command).1 commands).1,
        (server.answer state command).2 ::
          (server.answerAll (server.answer state command).1 commands).2) :=
  rfl

/-- A request arrives, and the answers are sent.  The server sees the bytes of
the request only, and takes them for those of framed commands. -/
inductive Serves : σ → Bytes → σ → Bytes → Prop where
  | serves {state : σ} {commands : List Command} :
      (∀ command ∈ commands, Framed command.commands) →
      Serves state (serializedCommands commands)
        (server.answerAll state commands).1
        (server.answerAll state commands).2.flatten

end Server

/-- A write of all these bytes. -/
def WriteResult.complete (buffer : Bytes) : WriteResult :=
  ⟨.success, buffer.length⟩

theorem WriteResult.failed_complete (buffer : Bytes) :
    (WriteResult.complete buffer).failed buffer = false := by
  simp [failed, complete]

/-- One call of `send(connection, command)` after the other, each of which
reads the answer to its command at once. -/
inductive SentSingly {σ : Type} (server : Server σ) :
    σ → List Command → σ → List Reply → Prop where
  | done (state : σ) : SentSingly server state [] state []
  | sent {state middle last : σ} {command : Command}
      {commands : List Command} {answer : Chunk} {reply : Reply}
      {replies : List Reply} :
      server.Serves state command.serializedCommand middle answer.bytes →
      send command (.complete command.serializedCommand) ⟨.success, answer⟩ =
        .returns reply →
      SentSingly server middle commands last replies →
      SentSingly server state (command :: commands) last (reply :: replies)

/-! ## What `send` returns -/

private theorem ReadResult.not_failed {chunk : Chunk}
    (nonempty : chunk.bytes ≠ []) :
    (ReadResult.mk .success chunk).failed = false := by
  simpa [ReadResult.failed] using nonempty

theorem ReadAs.send_eq {chunk : Chunk} {reply : Reply}
    (read : ReadAs chunk.bytes reply) (command : Command) :
    send command (.complete command.serializedCommand) ⟨.success, chunk⟩ =
      .returns reply := by
  have run := read.loadData_eq [] []
    (ReadBuffer.zeros.bytes.drop chunk.bytes.length)
  rw [List.append_nil, List.nil_append, List.length_nil] at run
  simp only [send, WriteResult.failed_complete,
    ReadResult.not_failed read.ne_nil, Bool.false_eq_true, if_false,
    ReadBuffer.fill, run, Outcome.returns_bind]

theorem sendAll_of_readAs {answers : List Bytes} {replies : List Reply}
    (reads : List.Forall₂ ReadAs answers replies) {commands : List Command}
    (each : answers.length = commands.length) {chunk : Chunk}
    (bytes : chunk.bytes = answers.flatten) :
    sendAll commands (.complete (serializedCommands commands))
      ⟨.success, chunk⟩ = .returns replies := by
  cases reads with
  | nil =>
      have none : commands.length = 0 := each.symm
      simp [sendAll, WriteResult.failed_complete, ReadResult.failed, bytes,
        none]
  | @cons answer reply answers replies read reads =>
      have nonempty : chunk.bytes ≠ [] := by
        rw [bytes, List.flatten_cons, Ne, List.append_eq_nil_iff]
        exact fun isEmpty => read.ne_nil isEmpty.1
      have run := readReplies_of_readAs (.cons read reads)
        (ReadBuffer.zeros.bytes.drop chunk.bytes.length)
      rw [← bytes] at run
      simp only [sendAll, WriteResult.failed_complete,
        ReadResult.not_failed nonempty, Bool.false_eq_true, if_false,
        ReadBuffer.fill, run, Outcome.returns_bind]

/-! ## What a server answers -/

namespace Server

variable {σ : Type} {server : Server σ} {state last : σ}

/-- A server reads the commands that were sent out of their bytes. -/
theorem Serves.eq {commands : List Command} {answers : Bytes}
    (serves : server.Serves state (serializedCommands commands) last answers)
    (framed : ∀ command ∈ commands, Framed command.commands) :
    last = (server.answerAll state commands).1 ∧
      answers = (server.answerAll state commands).2.flatten := by
  generalize request : serializedCommands commands = bytes at serves
  cases serves with
  | @serves others otherFramed =>
      cases serializedCommands_inj framed otherFramed request
      exact ⟨rfl, rfl⟩

theorem Serves.eq_single {command : Command} {answer : Bytes}
    (serves : server.Serves state command.serializedCommand last answer)
    (framed : Framed command.commands) :
    server.answer state command = (last, answer) := by
  have alone : serializedCommands [command] = command.serializedCommand := by
    simp [serializedCommands]
  rw [← alone] at serves
  obtain ⟨rfl, rfl⟩ := serves.eq (by simpa using framed)
  simp [answerAll]

theorem serves_single (server : Server σ) (state : σ) {command : Command}
    (framed : Framed command.commands) :
    server.Serves state command.serializedCommand
      (server.answer state command).1 (server.answer state command).2 := by
  have serves := @Serves.serves _ server state [command]
    (by simpa using framed)
  simpa [serializedCommands, answerAll] using serves

theorem length_answerAll (server : Server σ) (state : σ)
    (commands : List Command) :
    (server.answerAll state commands).2.length = commands.length := by
  induction commands generalizing state with
  | nil => rfl
  | cons command commands induction =>
      rw [answerAll_cons, List.length_cons, List.length_cons, induction]

theorem exists_replies (server : Server σ) (state : σ)
    (commands : List Command) :
    ∃ replies,
      List.Forall₂ ReadAs (server.answerAll state commands).2 replies := by
  induction commands generalizing state with
  | nil => exact ⟨[], .nil⟩
  | cons command commands induction =>
      obtain ⟨reply, read⟩ := server.readAs state command
      obtain ⟨replies, reads⟩ := induction (server.answer state command).1
      exact ⟨reply :: replies, .cons read reads⟩

end Server

/-! ## One by one -/

section Singly

variable {σ : Type} {server : Server σ} {state last : σ}
  {commands : List Command} {replies : List Reply}

theorem SentSingly.readAs
    (singly : SentSingly server state commands last replies)
    (framed : ∀ command ∈ commands, Framed command.commands) :
    last = (server.answerAll state commands).1 ∧
      List.Forall₂ ReadAs (server.answerAll state commands).2 replies := by
  induction singly with
  | done state => exact ⟨rfl, .nil⟩
  | @sent state middle last command commands answer reply replies serves sent
      singly induction =>
      have answered := serves.eq_single (framed command (by simp))
      obtain ⟨lastEq, reads⟩ := induction fun other member =>
        framed other (List.mem_cons_of_mem command member)
      obtain ⟨other, read⟩ := server.readAs state command
      rw [answered] at read
      have same : other = reply := by
        have run := read.send_eq command
        rw [sent] at run
        cases run
        rfl
      subst same
      rw [Server.answerAll_cons, answered]
      exact ⟨lastEq, .cons read reads⟩

/-- The answers fit into a read each if they fit into one together. -/
theorem sentSingly_of_readAs
    (framed : ∀ command ∈ commands, Framed command.commands)
    (reads : List.Forall₂ ReadAs (server.answerAll state commands).2 replies)
    (fits : (server.answerAll state commands).2.flatten.length ≤ bufferSize) :
    SentSingly server state commands (server.answerAll state commands).1
      replies := by
  induction commands generalizing state replies with
  | nil =>
      cases reads
      exact .done state
  | cons command commands induction =>
      rw [Server.answerAll_cons] at reads fits ⊢
      rw [List.flatten_cons, List.length_append] at fits
      obtain _ | ⟨read, reads⟩ := reads
      have answerFits :
          (server.answer state command).2.length ≤ bufferSize := by omega
      have later := induction
        (fun other member => framed other (List.mem_cons_of_mem command member))
        reads (by omega)
      have serves := server.serves_single state (framed command (by simp))
      have sent := @ReadAs.send_eq
        ⟨(server.answer state command).2, answerFits⟩ _ read command
      exact .sent serves sent later

end Singly

/-- Where the answers to a pipeline are read at once, it returns the replies
that its commands return one by one, and leads the server to the state to which
these lead it. -/
theorem pipeline_served {σ : Type} {server : Server σ} {state last : σ}
    {commands : List Command}
    (framed : ∀ command ∈ commands, Framed command.commands)
    {answers : Chunk}
    (served : server.Serves state (serializedCommands commands) last
      answers.bytes) (other : σ) (replies : List Reply) :
    SentSingly server state commands other replies ↔
      other = last ∧
        sendAll commands (.complete (serializedCommands commands))
          ⟨.success, answers⟩ = .returns replies := by
  obtain ⟨rfl, bytes⟩ := served.eq framed
  have each := server.length_answerAll state commands
  constructor
  · intro singly
    obtain ⟨rfl, reads⟩ := singly.readAs framed
    exact ⟨rfl, sendAll_of_readAs reads each bytes⟩
  · rintro ⟨rfl, sent⟩
    obtain ⟨others, reads⟩ := server.exists_replies state commands
    have otherSent := sendAll_of_readAs reads each bytes
    rw [sent] at otherSent
    cases otherSent
    have fits := answers.fits
    rw [bytes] at fits
    exact sentSingly_of_readAs framed reads fits

/-- A server with one bit, which every command reads and flips. -/
private def flipping : Server Bool :=
  .ofReplies fun state _ =>
    (!state, ⟨.integer (if state then 1 else 0), Or.inl ⟨rfl, rfl⟩, by
      cases state <;> decide⟩)

/-- Two commands that are sent in one pipeline. -/
theorem pipeline_served_flipping :
    sendAll [⟨[[71], [107]]⟩, ⟨[[71], [107]]⟩]
        (.complete (serializedCommands [⟨[[71], [107]]⟩, ⟨[[71], [107]]⟩]))
        ⟨.success, ⟨[58, 48, 13, 10, 58, 49, 13, 10], by decide⟩⟩ =
      .returns [⟨.integer 0, .success⟩, ⟨.integer 1, .success⟩] := by
  have framed : ∀ command ∈
      [(⟨[[71], [107]]⟩ : Command), ⟨[[71], [107]]⟩],
      Framed command.commands := by
    intro command member
    left
    simp only [List.mem_cons, List.not_mem_nil, or_false, or_self] at member
    subst member
    exact Nat.le_refl 2
  have served : flipping.Serves false
      (serializedCommands [⟨[[71], [107]]⟩, ⟨[[71], [107]]⟩]) false
      [58, 48, 13, 10, 58, 49, 13, 10] := .serves framed
  have reads : List.Forall₂ ReadAs
      (flipping.answerAll false [⟨[[71], [107]]⟩, ⟨[[71], [107]]⟩]).2
      [⟨.integer 0, .success⟩, ⟨.integer 1, .success⟩] :=
    .cons rfl (.cons rfl .nil)
  have singly := sentSingly_of_readAs framed reads (by decide)
  exact ((@pipeline_served _ _ _ _ _ framed
    ⟨[58, 48, 13, 10, 58, 49, 13, 10], by decide⟩ served _ _).mp singly).2

end RedisClient
