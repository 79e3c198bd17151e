import RedisClient.ReplyRecursion

/-!
# The size of a decoded value

The counts in array headers are chosen by the peer.  An element is decoded only
behind a byte that has been read, so a value never has more nodes than the
cursor has moved, whatever the headers announce.
-/

namespace RedisClient

open Basis

mutual

/-- The number of values in a value, itself included. -/
def Value.nodes : Value → Nat
  | .array elements => Value.nodesAll elements + 1
  | _ => 1

def Value.nodesAll : List Value → Nat
  | [] => 0
  | element :: elements => element.nodes + Value.nodesAll elements

end

theorem Value.nodesAll_append (left right : List Value) :
    Value.nodesAll (left ++ right) =
      Value.nodesAll left + Value.nodesAll right := by
  induction left with
  | nil => simp [Value.nodesAll]
  | cons element elements induction =>
      simp only [List.cons_append, Value.nodesAll, induction]
      omega

/-- The cursor has moved by as many bytes as the value has nodes. -/
def Response.Paid (start : Nat) (response : Response) : Prop :=
  start + response.value.nodes ≤ response.it

section Parsers

variable {memory : Bytes} {stop it : Nat}

theorem Response.paid_of_scalar {response : Response}
    (scalar : response.value.nodes = 1) (moved : it < response.it) :
    response.Paid it := by
  rw [Response.Paid, scalar]
  exact moved

private theorem parseSimpleString_scalar :
    (parseSimpleString memory stop it).Meets True fun response =>
      response.value.nodes = 1 := by
  unfold parseSimpleString
  split
  · rfl
  · apply readLine_meets.bind
    intro line _
    rfl

private theorem parseError_scalar :
    (parseError memory stop it).Meets True fun response =>
      response.value.nodes = 1 := by
  unfold parseError
  split
  · rfl
  · apply readLine_meets.bind
    intro line _
    simp only
    split <;> rfl

private theorem parseBulkString_scalar :
    (parseBulkString memory stop it).Meets True fun response =>
      response.value.nodes = 1 := by
  unfold parseBulkString
  split
  · rfl
  · apply readLine_meets.bind
    intro line _
    simp only
    split
    · rfl
    · split
      · rfl
      · rfl
      · trivial
      · split
        · rfl
        · apply (resize_meets _).bind
          intro size _
          apply (copy_meets size).bind
          intro value _
          rfl

private theorem parseInteger_scalar :
    (parseInteger memory stop it).Meets True fun response =>
      response.value.nodes = 1 := by
  unfold parseInteger
  split
  · rfl
  · apply readLine_meets.bind
    intro line _
    simp only
    split
    · rfl
    · split <;> rfl

variable {parse : Nat → Execution Response}

/-- The element loop pays for the elements it has collected with the bytes
between `start` and the cursor. -/
theorem parseElements_paid
    (pays : ∀ later, later ≠ stop →
      (parse later).Meets True fun response => response.Paid later)
    {start : Nat} (remaining : Nat) {array : List Value} (error : ErrorCode)
    (paid : start + Value.nodesAll array < it) :
    (parseElements parse stop remaining it array error).Meets True
      fun response => response.Paid start := by
  induction remaining generalizing it array error with
  | zero => exact paid
  | succ remaining induction =>
      have moved : start < it := by omega
      unfold parseElements
      split <;> rename_i atStop
      · exact Response.paid_of_scalar rfl moved
      · apply (pays it atStop).bind
        intro element elementPaid
        simp only [Response.Paid] at elementPaid
        split
        · exact Response.paid_of_scalar rfl (by simp only; omega)
        · apply induction
          rw [Value.nodesAll_append]
          simp only [Value.nodesAll]
          omega

theorem parseArray_paid
    (pays : ∀ later, later ≠ stop →
      (parse later).Meets True fun response => response.Paid later) :
    (parseArray parse memory stop (it + 1)).Meets True fun response =>
      response.Paid it := by
  unfold parseArray
  split
  · exact Response.paid_of_scalar rfl (Nat.lt_succ_self it)
  · apply readLine_meets.bind
    intro ⟨header, next⟩ lineLe
    simp only at lineLe ⊢
    split
    · exact Response.paid_of_scalar rfl lineLe
    · cases stol header with
      | error exception => trivial
      | ok size =>
          apply parseElements_paid pays
          simp only [Value.nodesAll]
          omega

theorem parseReplyBody_paid (notStop : it ≠ memory.length)
    (pays : ∀ later, later ≠ memory.length →
      (parse later).Meets True fun response => response.Paid later) :
    (parseReplyBody parse memory memory.length it).Meets True
      fun response => response.Paid it := by
  unfold parseReplyBody
  rw [if_neg notStop]
  apply dereference_meets.bind
  intro type inside
  simp only
  split
  · exact (parseSimpleString_scalar.both parseSimpleString_meets).weaken id
      fun _ ends => Response.paid_of_scalar ends.1 ends.2
  · exact (parseError_scalar.both parseError_meets).weaken id
      fun _ ends => Response.paid_of_scalar ends.1 ends.2
  · exact (parseBulkString_scalar.both parseBulkString_meets).weaken id
      fun _ ends => Response.paid_of_scalar ends.1 ends.2
  · exact parseArray_paid pays
  · exact (parseInteger_scalar.both parseInteger_meets).weaken id
      fun _ ends => Response.paid_of_scalar ends.1 ends.2
  · exact Response.paid_of_scalar rfl inside

end Parsers

private theorem parseReplyFuel_paid (memory : Bytes) (fuel : Nat) {it : Nat}
    (notStop : it ≠ memory.length) :
    (parseReplyFuel memory memory.length fuel it).Meets True
      fun response => response.Paid it := by
  induction fuel generalizing it with
  | zero => trivial
  | succ fuel induction =>
      exact parseReplyBody_paid notStop fun _ laterNotStop =>
        induction laterNotStop

/-- `parse_reply` on what is left of a buffer comes to an end, and what it
returns has no more nodes than the iterator has moved forward. -/
theorem nodes_le_advance {memory : Bytes} {it : Nat}
    (nonempty : it < memory.length) :
    parseReply memory memory.length it ≠ .exhausted ∧
      ∀ response, parseReply memory memory.length it = .returns response →
        it + response.value.nodes ≤ response.it :=
  ⟨parseReply_ne_exhausted memory memory.length it, fun _ run =>
    (parseReplyFuel_paid memory (memory.length + 1)
      (Nat.ne_of_lt nonempty)).of_returns run⟩

/-- `*1`, `*0`: an array of an empty array. -/
theorem nodes_le_advance_nested :
    0 + (Value.array [.array []]).nodes ≤ 8 :=
  have run : parseReply [42, 49, 13, 10, 42, 48, 13, 10] 8 0 =
      .returns ⟨.array [.array []], .success, 8⟩ := rfl
  (nodes_le_advance (by decide)).2 _ run

end RedisClient
