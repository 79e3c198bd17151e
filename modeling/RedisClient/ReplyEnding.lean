import RedisClient.ReplyStep

/-!
# Where a call of a reply parser ends

For the code around a call of `parse_reply` only its iterator matters, and
whether there is an error code.  `Ending` forgets the rest, and the element loop
of `parse_array` becomes a sequence of endings.
-/

namespace RedisClient

open Basis

/-- What a call of a parser comes to. -/
inductive Ending where
  | succeeds (it : Nat)
  | fails (it : Nat)
  | throws (exception : Exception)
  | faults
  | exhausted
  deriving DecidableEq

namespace Ending

/-- One call behind another, if that one succeeds. -/
def andThen : Ending → (Nat → Ending) → Ending
  | .succeeds it, next => next it
  | ending, _ => ending

@[simp] theorem andThen_succeeds (ending : Ending) :
    ending.andThen .succeeds = ending := by
  cases ending <;> rfl

theorem andThen_assoc (ending : Ending) (second third : Nat → Ending) :
    (ending.andThen second).andThen third =
      ending.andThen fun it => (second it).andThen third := by
  cases ending <;> rfl

end Ending

def ending : Execution Response → Ending
  | .returns response =>
      if response.error.isError then .fails response.it
      else .succeeds response.it
  | .throws exception => .throws exception
  | .faults _ => .faults
  | .exhausted => .exhausted

theorem ending_of_success {response : Response}
    (success : response.error.isError = false) :
    ending (.returns response) = .succeeds response.it := by
  simp [ending, success]

theorem ending_of_error {response : Response}
    (failing : response.error.isError = true) :
    ending (.returns response) = .fails response.it := by
  simp [ending, failing]

theorem ending_succeeds_iff {run : Execution Response} {it : Nat} :
    ending run = .succeeds it ↔
      ∃ response, run = .returns response ∧
        response.error.isError = false ∧ response.it = it := by
  cases run with
  | returns response =>
      cases failing : response.error.isError <;> simp [ending, failing]
  | _ => simp [ending]

theorem ending_faults_iff {run : Execution Response} :
    ending run = .faults ↔ ∃ position, run = .faults position := by
  cases run with
  | returns response =>
      cases failing : response.error.isError <;> simp [ending, failing]
  | _ => simp [ending]

/-- The ending of the element loop, of which `wanted` turns are left. -/
def endingAll (parse : Nat → Execution Response) (stop wanted it : Nat) :
    Ending :=
  ending (parseElements parse stop wanted it [] .success)

section ElementLoop

variable {parse : Nat → Execution Response} {stop : Nat}

private theorem ending_parseElements {wanted it : Nat}
    (array other : List Value) {error otherError : ErrorCode}
    (success : error.isError = false)
    (otherSuccess : otherError.isError = false) :
    ending (parseElements parse stop wanted it array error) =
      ending (parseElements parse stop wanted it other otherError) := by
  induction wanted generalizing it array other error otherError with
  | zero =>
      exact (@ending_of_success ⟨.array array, error, it⟩ success).trans
        (@ending_of_success ⟨.array other, otherError, it⟩ otherSuccess).symm
  | succ wanted induction =>
      simp only [parseElements]
      split
      · rfl
      · cases parse it with
        | returns response =>
            simp only [Outcome.returns_bind]
            split <;> rename_i failing
            · rfl
            · have noError := Bool.eq_false_iff.mpr failing
              exact induction _ _ noError noError
        | throws exception => rfl
        | faults position => rfl
        | exhausted => rfl

/-- A turn of the element loop is a call, and at `end` the loop does what the
call would do. -/
theorem endingAll_succ (atStop : ending (parse stop) = .fails stop)
    (wanted it : Nat) :
    endingAll parse stop (wanted + 1) it =
      (ending (parse it)).andThen (endingAll parse stop wanted) := by
  rw [endingAll, parseElements]
  split <;> rename_i stopped
  · rw [stopped, atStop]
    rfl
  · cases parse it with
    | returns response =>
        simp only [Outcome.returns_bind]
        split <;> rename_i failing
        · rw [ending_of_error failing]
          exact @ending_of_error ⟨.nil, _, _⟩ failing
        · have noError := Bool.eq_false_iff.mpr failing
          rw [ending_of_success noError]
          exact ending_parseElements _ _ noError rfl
    | throws exception => rfl
    | faults position => rfl
    | exhausted => rfl

theorem endingAll_stop (atStop : ending (parse stop) = .fails stop)
    (wanted : Nat) :
    endingAll parse stop (wanted + 1) stop = .fails stop := by
  rw [endingAll_succ atStop, atStop]
  rfl

theorem endingAll_add (atStop : ending (parse stop) = .fails stop)
    (first second it : Nat) :
    endingAll parse stop (first + second) it =
      (endingAll parse stop first it).andThen
        (endingAll parse stop second) := by
  induction first generalizing it with
  | zero =>
      rw [Nat.zero_add]
      rfl
  | succ first induction =>
      have later : endingAll parse stop (first + second) =
          fun it => (endingAll parse stop first it).andThen
            (endingAll parse stop second) := funext induction
      rw [Nat.add_right_comm, endingAll_succ atStop, endingAll_succ atStop,
        Ending.andThen_assoc, later]

end ElementLoop

end RedisClient
