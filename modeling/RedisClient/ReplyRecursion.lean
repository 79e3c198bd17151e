import RedisClient.Reply

/-!
# The recursion of the reply parser

Each call of `parse_reply` either ends at `end` or moves the cursor forward.
Hence the recursion is never deeper than the memory is long, the bound in
`parseReply` is not met, and `parseReply_eq` states the definition of
`parse_reply` without it.
-/

namespace RedisClient

open Basis

/-- A parser called at `it` comes back at `end` or at a later position. -/
def Advances (parse : Nat → Execution Response) (stop : Nat) : Prop :=
  ∀ it response, parse it = .returns response →
    response.it = stop ∨ it < response.it

section Parsers

variable {memory : Bytes} {stop it : Nat} {runsOut : Prop}

private theorem readLineFrom_meets (rest : Bytes) :
    (readLineFrom stop rest it).Meets runsOut fun (_, next) => it ≤ next := by
  induction rest generalizing it with
  | nil =>
      unfold readLineFrom
      split
      · exact Nat.le_refl it
      · trivial
  | cons byte rest induction =>
      unfold readLineFrom
      simp only
      split
      · exact Nat.le_refl it
      · split
        · exact Nat.le_refl it
        · apply induction.bind
          intro ⟨text, next⟩ later
          exact Nat.le_of_succ_le later

theorem readLine_meets :
    (readLine memory stop it).Meets runsOut fun (_, next) => it ≤ next :=
  readLineFrom_meets (memory.drop it)

theorem readLine_le {next : Nat} {text : Bytes}
    (run : readLine memory stop it = .returns (text, next)) : it ≤ next :=
  (@readLine_meets memory stop it False).of_returns run

theorem dereference_meets :
    (dereference memory it).Meets runsOut fun _ => it < memory.length := by
  unfold dereference
  split <;> rename_i found
  · exact (List.getElem?_eq_some_iff.mp found).1
  · trivial

theorem resize_meets (size : Int64) :
    (resize size).Meets runsOut fun _ => True := by
  unfold resize
  simp only
  split <;> trivial

theorem copy_meets (count : Nat) :
    (copy memory it count).Meets runsOut fun _ => True := by
  unfold copy
  split
  · trivial
  · split <;> trivial

theorem parseSimpleString_meets :
    (parseSimpleString memory stop it).Meets runsOut fun response =>
      it ≤ response.it := by
  unfold parseSimpleString
  split
  · exact Nat.le_refl it
  · apply readLine_meets.bind
    intro ⟨text, next⟩ lineLe
    exact Nat.le_add_right_of_le lineLe

theorem parseError_meets :
    (parseError memory stop it).Meets runsOut fun response =>
      it ≤ response.it := by
  unfold parseError
  split
  · exact Nat.le_refl it
  · apply readLine_meets.bind
    intro ⟨text, next⟩ lineLe
    simp only
    split
    · exact lineLe
    · exact Nat.le_add_right_of_le lineLe

theorem parseBulkString_meets :
    (parseBulkString memory stop it).Meets runsOut fun response =>
      it ≤ response.it := by
  unfold parseBulkString
  split
  · exact Nat.le_refl it
  · apply readLine_meets.bind
    intro ⟨header, next⟩ lineLe
    simp only
    split
    · exact lineLe
    · have passed : it ≤ next + 2 := Nat.le_add_right_of_le lineLe
      split
      · exact passed
      · exact passed
      · trivial
      · split
        · exact passed
        · apply (resize_meets _).bind
          intro size _
          apply (copy_meets size).bind
          intro value _
          exact Nat.le_add_right_of_le passed

theorem parseInteger_meets :
    (parseInteger memory stop it).Meets runsOut fun response =>
      it ≤ response.it := by
  unfold parseInteger
  split
  · exact Nat.le_refl it
  · apply readLine_meets.bind
    intro ⟨message, next⟩ lineLe
    simp only
    split
    · exact lineLe
    · split <;> exact Nat.le_add_right_of_le lineLe

theorem parseElements_stop
    (parse : Nat → Execution Response) (stop remaining : Nat)
    (array : List Value) (error : ErrorCode) :
    parseElements parse stop remaining stop array error =
      if remaining = 0 then .returns ⟨.array array, error, stop⟩
      else .returns (.failed .eof stop) := by
  cases remaining with
  | zero => rfl
  | succ remaining => simp [parseElements]

variable {parse : Nat → Execution Response}

theorem parseElements_meets
    (parses : ∀ later, it ≤ later → later ≠ stop →
      (parse later).Meets runsOut fun response =>
        response.it = stop ∨ later < response.it)
    (remaining : Nat) (array : List Value) (error : ErrorCode) :
    (parseElements parse stop remaining it array error).Meets runsOut
      fun response => response.it = stop ∨ it ≤ response.it := by
  induction remaining generalizing it array error with
  | zero => exact Or.inr (Nat.le_refl it)
  | succ remaining induction =>
      unfold parseElements
      split <;> rename_i atStop
      · exact Or.inl atStop
      · apply (parses it (Nat.le_refl it) atStop).bind
        intro element advances
        split
        · exact advances.imp_right Nat.le_of_lt
        · rcases advances with finished | forward
          · rw [finished, parseElements_stop]
            split <;> exact Or.inl rfl
          · have rest := @induction element.it
              (fun later above => parses later (by omega))
              (array ++ [element.value]) element.error
            exact rest.weaken id fun _ => Or.imp_right fun restLe => by omega

theorem parseArray_meets
    (parses : ∀ later, it ≤ later → later ≠ stop →
      (parse later).Meets runsOut fun response =>
        response.it = stop ∨ later < response.it) :
    (parseArray parse memory stop it).Meets runsOut fun response =>
      response.it = stop ∨ it ≤ response.it := by
  unfold parseArray
  split
  · exact Or.inr (Nat.le_refl it)
  · apply readLine_meets.bind
    intro ⟨header, next⟩ lineLe
    simp only at lineLe ⊢
    split
    · exact Or.inr lineLe
    · cases stol header with
      | error exception => trivial
      | ok size =>
          have elements := @parseElements_meets stop (next + 2) runsOut parse
            (fun later above => parses later (by omega))
            size.toInt.toNat [] .success
          exact elements.weaken id fun _ => Or.imp_right fun restLe => by omega

theorem parseReplyBody_meets
    (parses : it < memory.length → ∀ later, it < later → later ≠ stop →
      (parse later).Meets runsOut fun response =>
        response.it = stop ∨ later < response.it) :
    (parseReplyBody parse memory stop it).Meets runsOut fun response =>
      response.it = stop ∨ it < response.it := by
  unfold parseReplyBody
  split
  · exact Or.inl rfl
  · apply dereference_meets.bind
    intro type inside
    simp only
    split
    · exact parseSimpleString_meets.weaken id fun _ => Or.inr
    · exact parseError_meets.weaken id fun _ => Or.inr
    · exact parseBulkString_meets.weaken id fun _ => Or.inr
    · exact parseArray_meets (parses inside)
    · exact parseInteger_meets.weaken id fun _ => Or.inr
    · exact Or.inl rfl

end Parsers

/-- Fuel is missing only where there is none, or more memory than fuel. -/
theorem parseReplyFuel_meets (memory : Bytes) (stop fuel it : Nat) :
    (parseReplyFuel memory stop fuel it).Meets
      (fuel = 0 ∨ fuel + it ≤ memory.length) fun response =>
        response.it = stop ∨ it < response.it := by
  induction fuel generalizing it with
  | zero => exact Or.inl rfl
  | succ fuel induction =>
      apply parseReplyBody_meets
      intro inside later above notStop
      exact (induction later).weaken (by omega) fun _ => id

theorem parseReplyFuel_advances (memory : Bytes) (stop fuel : Nat) :
    Advances (parseReplyFuel memory stop fuel) stop :=
  fun it _ run => (parseReplyFuel_meets memory stop fuel it).of_returns run

theorem parseReply_advances (memory : Bytes) (stop : Nat) :
    Advances (parseReply memory stop) stop :=
  parseReplyFuel_advances memory stop (memory.length + 1)

theorem parseReply_meets (memory : Bytes) (stop it : Nat) :
    (parseReply memory stop it).Meets False fun response =>
      response.it = stop ∨ it < response.it :=
  (parseReplyFuel_meets memory stop (memory.length + 1) it).weaken
    (by omega) fun _ => id

/-- `parse_reply` ends on every memory: its bound is never met. -/
theorem parseReply_ne_exhausted (memory : Bytes) (stop it : Nat) :
    parseReply memory stop it ≠ .exhausted :=
  (parseReply_meets memory stop it).ne_exhausted id

theorem loadData_ne_exhausted (memory : Bytes) (stop it : Nat) :
    loadData memory stop it ≠ .exhausted := by
  intro ends
  rcases Outcome.bind_eq_exhausted_iff.mp ends with parsing | ⟨_, _, done⟩
  · exact parseReply_ne_exhausted memory stop it parsing
  · cases done

/-! ## The recursive definition -/

theorem parseElements_congr
    {parse other : Nat → Execution Response} {stop : Nat}
    (advances : Advances parse stop) {start : Nat}
    (agree : ∀ it, start ≤ it → it ≠ stop → parse it = other it)
    {remaining it : Nat} (later : start ≤ it)
    (array : List Value) (error : ErrorCode) :
    parseElements parse stop remaining it array error =
      parseElements other stop remaining it array error := by
  induction remaining generalizing it array error with
  | zero => rfl
  | succ remaining induction =>
      unfold parseElements
      split <;> rename_i atStop
      · rfl
      · rw [← agree it later atStop]
        apply Outcome.bind_congr
        intro element elementRun
        split
        · rfl
        · rcases advances it element elementRun with finished | forward
          · rw [finished, parseElements_stop, parseElements_stop]
          · exact induction (by omega) _ _

theorem parseReplyBody_congr
    {parse other : Nat → Execution Response} {memory : Bytes} {stop it : Nat}
    (advances : Advances parse stop)
    (agree : it < memory.length →
      ∀ later, it < later → later ≠ stop → parse later = other later) :
    parseReplyBody parse memory stop it =
      parseReplyBody other memory stop it := by
  unfold parseReplyBody
  split
  · rfl
  · apply Outcome.bind_congr
    intro type typeRun
    have inside := (@dereference_meets memory it False).of_returns typeRun
    simp only
    split <;> try rfl
    unfold parseArray
    split
    · rfl
    · apply Outcome.bind_congr
      rintro ⟨header, next⟩ lineRun
      have lineLe := readLine_le lineRun
      simp only
      split
      · rfl
      · apply Outcome.bind_congr
        intro size sizeRun
        have agreeLater : ∀ later, it + 1 ≤ later → later ≠ stop →
            parse later = other later :=
          fun later above => agree inside later (by omega)
        exact parseElements_congr advances agreeLater (by omega) _ _

/-- More fuel than there is memory left changes nothing. -/
private theorem parseReplyFuel_succ
    (memory : Bytes) (stop : Nat) {fuel it : Nat}
    (enough : memory.length ≤ fuel + it) :
    parseReplyFuel memory stop (fuel + 1) it =
      parseReplyFuel memory stop (fuel + 2) it := by
  induction fuel generalizing it with
  | zero =>
      apply parseReplyBody_congr (parseReplyFuel_advances memory stop 0)
      intro inside
      omega
  | succ fuel induction =>
      apply parseReplyBody_congr
        (parseReplyFuel_advances memory stop (fuel + 1))
      intro inside later above notStop
      exact induction (by omega)

/-- The recursive definition of `parse_reply`. -/
theorem parseReply_eq (memory : Bytes) (stop it : Nat) :
    parseReply memory stop it =
      parseReplyBody (parseReply memory stop) memory stop it := by
  apply parseReplyBody_congr
    (parseReplyFuel_advances memory stop memory.length)
  intro inside later above notStop
  obtain ⟨fuel, length⟩ : ∃ fuel, memory.length = fuel + 1 :=
    ⟨memory.length - 1, by omega⟩
  unfold parseReply
  rw [length]
  exact parseReplyFuel_succ memory stop (by omega)

end RedisClient
