import RedisClient.FrameLanding

/-!
# Frames describe the reply parsers

On a vector that ends at `end`, `parse_reply` does what the frame at the cursor
says, and reading several items follows `Passes` and `Arrives`.  The properties
of arbitrary buffers are read off from here.
-/

namespace RedisClient

open Basis

/-- How a run that comes to a halt ends. -/
inductive EndsIn (memory : Bytes) : Halt → Execution Response → Prop where
  | stops {inside : Bool} {response : Response} :
      response.error.isError = true →
      (response.value = .nil ∨
        response.error = ClientErrorCode.error.toErrorCode) →
      (inside = true ↔ response.it ≤ memory.length) →
      EndsIn memory (.stops response.error inside) (.returns response)
  | throws (exception : Exception) :
      EndsIn memory (.throws exception) (.throws exception)
  | faults (position : Nat) : EndsIn memory .overruns (.faults position)
  | runsOver {response : Response} :
      response.error.isError = false → memory.length < response.it →
      EndsIn memory .overruns (.returns response)

/-- What a frame says about the call of `parse_reply` at it. -/
def Describes (memory : Bytes) (run : Execution Response) : Frame → Prop
  | .item rest =>
      ∃ response, run = .returns response ∧ response.error.isError = false ∧
        At memory response.it rest
  | .announces count elements =>
      ∃ next, At memory next elements ∧
        run = parseElements (parseReply memory memory.length) memory.length
          count next [] .success
  | .halts halt => EndsIn memory halt run

/-- Once the cursor is behind the memory, the element loop cannot come back. -/
theorem parseElements_outside {memory : Bytes} {it : Nat}
    (outside : memory.length < it) (wanted : Nat) (array : List Value)
    {error : ErrorCode} (success : error.isError = false) :
    EndsIn memory .overruns
      (parseElements (parseReply memory memory.length) memory.length wanted it
        array error) := by
  cases wanted with
  | zero => exact .runsOver success outside
  | succ wanted =>
      have notStop : it ≠ memory.length := by omega
      simp only [parseElements, notStop, if_false,
        parseReply_of_le (Nat.le_of_lt outside) notStop, Outcome.faults_bind]
      exact .faults it

/-- Behind a memory without zeros an overrun goes on to a fault, or nothing more
is read. -/
private theorem endsIn_overrun {memory : Bytes} {run : Execution Response}
    {overrun : Overrun} (positive : 0 < overrun.distance) {left : Nat}
    (ends : ending run = overrun.landing 0 memory.length left) :
    EndsIn memory .overruns run := by
  have outcome : ending run = .faults ∨
      ending run = .succeeds (memory.length + overrun.distance) := by
    rw [ends, Overrun.landing]
    split
    · exact Or.inl rfl
    · generalize overrun.wanted + left = wanted
      cases wanted with
      | zero => exact Or.inr rfl
      | succ missing => cases missing <;> exact Or.inl rfl
  rcases outcome with faults | succeeds
  · obtain ⟨position, rfl⟩ := ending_faults_iff.mp faults
    exact .faults position
  · obtain ⟨response, rfl, success, behind⟩ := ending_succeeds_iff.mp succeeds
    exact .runsOver success (by omega)

/-- The frame at the cursor describes what `parse_reply` does there. -/
theorem parseReply_frame {memory bytes : Bytes} {it : Nat}
    (cursor : At memory it bytes) :
    Describes memory (parseReply memory memory.length it) (frame bytes) := by
  have tells := parsePadded_frame cursor 0
  have noZeros : padded memory 0 = memory := List.append_nil memory
  have sameCall : parsePadded memory 0 = parseReply memory memory.length := by
    funext it
    rw [parsePadded, noZeros]
  cases found : frame bytes with
  | item rest =>
      rw [found, Tells, sameCall] at tells
      exact tells
  | announces count elements =>
      rw [found, Tells, sameCall] at tells
      exact tells
  | halts halt =>
      rw [found] at tells
      cases halt with
      | stops code inside =>
          rw [Tells, sameCall] at tells
          obtain ⟨response, run, rfl, failing, shown, behind⟩ := tells
          rw [run]
          apply EndsIn.stops failing shown
          cases inside with
          | true => exact iff_of_true rfl behind.inside
          | false =>
              simp only [Bool.false_eq_true, if_false] at behind
              exact iff_of_false Bool.false_ne_true (by omega)
      | throws exception =>
          rw [Tells, sameCall] at tells
          rw [tells]
          exact .throws exception
      | overruns =>
          rw [Tells, landing, noZeros] at tells
          exact endsIn_overrun tells.1 tells.2

/-! ## Reading several items -/

private theorem notStop_of_frame {memory bytes : Bytes} {it : Nat}
    (cursor : At memory it bytes)
    (found : frame bytes ≠
      .halts (.stops ParseErrorCode.eof.toErrorCode true)) :
    it ≠ memory.length := by
  apply cursor.notStop
  rintro rfl
  exact found rfl

private theorem At.item {memory bytes rest : Bytes} {it : Nat}
    (cursor : At memory it bytes) (found : frame bytes = .item rest) :
    it ≠ memory.length ∧ ∃ response,
      parseReply memory memory.length it = .returns response ∧
        response.error.isError = false ∧ At memory response.it rest := by
  have described := parseReply_frame cursor
  rw [found] at described
  exact ⟨notStop_of_frame cursor (by simp [found]), described⟩

private theorem At.announces {memory bytes elements : Bytes} {it count : Nat}
    (cursor : At memory it bytes)
    (found : frame bytes = .announces count elements) :
    it ≠ memory.length ∧ ∃ next, At memory next elements ∧
      parseReply memory memory.length it =
        parseElements (parseReply memory memory.length) memory.length count
          next [] .success := by
  have described := parseReply_frame cursor
  rw [found] at described
  exact ⟨notStop_of_frame cursor (by simp [found]), described⟩

private theorem parseElements_of_success
    {parse : Nat → Execution Response} {stop it wanted : Nat}
    (notStop : it ≠ stop) {response : Response}
    (run : parse it = .returns response)
    (success : response.error.isError = false)
    (array : List Value) (error : ErrorCode) :
    parseElements parse stop (wanted + 1) it array error =
      parseElements parse stop wanted response.it
        (array ++ [response.value]) response.error := by
  simp [parseElements, notStop, run, success]

private theorem EndsIn.parseElements {memory : Bytes} {halt : Halt} {it : Nat}
    (ends : EndsIn memory halt (parseReply memory memory.length it))
    (notStop : it ≠ memory.length) (wanted : Nat) (array : List Value)
    (error : ErrorCode) :
    EndsIn memory halt
      (parseElements (parseReply memory memory.length) memory.length
        (wanted + 1) it array error) := by
  generalize run : parseReply memory memory.length it = outcome at ends
  cases ends with
  | @stops inside response failing shown within =>
      simp only [RedisClient.parseElements, notStop, if_false, run,
        Outcome.returns_bind, failing, if_true]
      exact @EndsIn.stops memory inside ⟨.nil, response.error, response.it⟩
        failing (Or.inl rfl) within
  | throws exception =>
      simp only [RedisClient.parseElements, notStop, if_false, run,
        Outcome.throws_bind]
      exact .throws exception
  | faults position =>
      simp only [RedisClient.parseElements, notStop, if_false, run,
        Outcome.faults_bind]
      exact .faults position
  | @runsOver response success outside =>
      rw [parseElements_of_success notStop run success]
      exact parseElements_outside outside _ _ success

theorem Passes.parseElements {wanted : Nat} {bytes last : Bytes}
    (passes : Passes wanted bytes last) {memory : Bytes} {it : Nat}
    (cursor : At memory it bytes) (array : List Value) {error : ErrorCode}
    (success : error.isError = false) :
    ∃ response, RedisClient.parseElements (parseReply memory memory.length)
        memory.length wanted it array error = .returns response ∧
      response.error.isError = false ∧ At memory response.it last := by
  induction passes generalizing it array error with
  | done bytes => exact ⟨_, rfl, success, cursor⟩
  | item found passes induction =>
      obtain ⟨notStop, response, run, itemSuccess, behind⟩ := cursor.item found
      rw [parseElements_of_success notStop run itemSuccess]
      exact induction behind _ itemSuccess
  | array found elementsPass passes elementsInduction induction =>
      obtain ⟨notStop, next, elementsCursor, run⟩ := cursor.announces found
      obtain ⟨response, elementsRun, elementsSuccess, behind⟩ :=
        elementsInduction elementsCursor [] ErrorCode.isError_success
      rw [elementsRun] at run
      rw [parseElements_of_success notStop run elementsSuccess]
      exact induction behind _ elementsSuccess

theorem Arrives.parseElements {wanted : Nat} {bytes : Bytes} {halt : Halt}
    (arrives : Arrives wanted bytes halt) {memory : Bytes} {it : Nat}
    (cursor : At memory it bytes) (array : List Value) (error : ErrorCode) :
    EndsIn memory halt
      (RedisClient.parseElements (parseReply memory memory.length)
        memory.length wanted it array error) := by
  induction arrives generalizing it array error with
  | @here wanted bytes halt found =>
      have described := parseReply_frame cursor
      by_cases atStop : it = memory.length
      · have isEmpty : bytes = [] := by
          have length := cursor.length
          exact List.length_eq_zero_iff.mp (by omega)
        subst bytes
        cases found
        rw [atStop, parseElements_stop, if_neg (Nat.succ_ne_zero wanted)]
        exact @EndsIn.stops memory _ (.failed .eof memory.length) rfl
          (Or.inl rfl) (by simp [Response.failed])
      · rw [found] at described
        exact EndsIn.parseElements described atStop _ _ _
  | item found arrives induction =>
      obtain ⟨notStop, response, run, itemSuccess, behind⟩ := cursor.item found
      rw [parseElements_of_success notStop run itemSuccess]
      exact induction behind _ _
  | inside found arrives induction =>
      obtain ⟨notStop, next, elementsCursor, run⟩ := cursor.announces found
      have ends := induction elementsCursor [] .success
      rw [← run] at ends
      exact ends.parseElements notStop _ _ _
  | behind found elementsPass arrives induction =>
      obtain ⟨notStop, next, elementsCursor, run⟩ := cursor.announces found
      obtain ⟨response, elementsRun, elementsSuccess, behind⟩ :=
        elementsPass.parseElements elementsCursor [] ErrorCode.isError_success
      rw [elementsRun] at run
      rw [parseElements_of_success notStop run elementsSuccess]
      exact induction behind _ _

theorem Passes.parseReply {bytes last : Bytes} (passes : Passes 1 bytes last)
    {memory : Bytes} {it : Nat} (cursor : At memory it bytes) :
    ∃ response, RedisClient.parseReply memory memory.length it =
        .returns response ∧
      response.error.isError = false ∧ At memory response.it last := by
  cases passes with
  | item found passes =>
      cases passes
      exact (cursor.item found).2
  | array found elementsPass passes =>
      cases passes
      obtain ⟨notStop, next, elementsCursor, run⟩ := cursor.announces found
      rw [run]
      exact elementsPass.parseElements elementsCursor []
        ErrorCode.isError_success

theorem Arrives.parseReply {bytes : Bytes} {halt : Halt}
    (arrives : Arrives 1 bytes halt) {memory : Bytes} {it : Nat}
    (cursor : At memory it bytes) :
    EndsIn memory halt (RedisClient.parseReply memory memory.length it) := by
  cases arrives with
  | here found =>
      have described := parseReply_frame cursor
      rw [found] at described
      exact described
  | item found arrives => cases arrives
  | inside found arrives =>
      obtain ⟨notStop, next, elementsCursor, run⟩ := cursor.announces found
      rw [run]
      exact arrives.parseElements elementsCursor [] .success
  | behind found elementsPass arrives => cases arrives

end RedisClient
