import Mathlib.Init

/-!
# Outcomes of programs over a finite memory

A program that walks over a memory with a cursor may return a result, throw an
exception, dereference a position the memory does not have, or outlive the fuel
of a bounded evaluation.  The four cases stay apart: a fault is never confused
with an exception, and neither is confused with missing fuel.
-/

namespace Basis

/-- How a computation with exceptions of type `ε` ends. -/
inductive Outcome (ε : Type) (α : Type) where
  | returns (result : α)
  | throws (exception : ε)
  | faults (position : Nat)
  | exhausted
  deriving DecidableEq

namespace Outcome

variable {ε α β : Type}

def bind : Outcome ε α → (α → Outcome ε β) → Outcome ε β
  | .returns result, next => next result
  | .throws exception, _ => .throws exception
  | .faults position, _ => .faults position
  | .exhausted, _ => .exhausted

instance : Monad (Outcome ε) where
  pure := .returns
  bind := Outcome.bind

/-- Run a computation that can only throw inside one that can also fault. -/
def ofExcept : Except ε α → Outcome ε α
  | .ok result => .returns result
  | .error exception => .throws exception

/-- `try` with a handler that gives up whatever was thrown. -/
def attempt : Outcome ε α → Outcome ε (Option α)
  | .returns result => .returns (some result)
  | .throws _ => .returns none
  | .faults position => .faults position
  | .exhausted => .exhausted

@[simp] theorem pure_eq_returns (result : α) :
    (pure result : Outcome ε α) = .returns result := rfl

@[simp] theorem returns_bind (result : α) (next : α → Outcome ε β) :
    ((.returns result : Outcome ε α) >>= next) = next result := rfl

@[simp] theorem throws_bind (exception : ε) (next : α → Outcome ε β) :
    ((.throws exception : Outcome ε α) >>= next) = .throws exception := rfl

@[simp] theorem faults_bind (position : Nat) (next : α → Outcome ε β) :
    ((.faults position : Outcome ε α) >>= next) = .faults position := rfl

@[simp] theorem exhausted_bind (next : α → Outcome ε β) :
    ((.exhausted : Outcome ε α) >>= next) = .exhausted := rfl

@[simp] theorem ofExcept_ok (result : α) :
    (ofExcept (.ok result) : Outcome ε α) = .returns result := rfl

@[simp] theorem ofExcept_error (exception : ε) :
    (ofExcept (.error exception) : Outcome ε α) = .throws exception := rfl

/-- The same end for a cursor and a memory moved by `offset`: `move` carries
the result along. -/
def translate (offset : Nat) (move : α → β) : Outcome ε α → Outcome ε β
  | .returns result => .returns (move result)
  | .throws exception => .throws exception
  | .faults position => .faults (offset + position)
  | .exhausted => .exhausted

@[simp] theorem translate_returns
    (offset : Nat) (move : α → β) (result : α) :
    (.returns result : Outcome ε α).translate offset move =
      .returns (move result) := rfl

@[simp] theorem translate_throws
    (offset : Nat) (move : α → β) (exception : ε) :
    (.throws exception : Outcome ε α).translate offset move =
      .throws exception := rfl

@[simp] theorem translate_faults
    (offset position : Nat) (move : α → β) :
    (.faults position : Outcome ε α).translate offset move =
      .faults (offset + position) := rfl

theorem translate_bind {γ δ : Type} {offset : Nat}
    {move : α → β} {moveResult : γ → δ} (first : Outcome ε α)
    {next : α → Outcome ε γ} {moved : β → Outcome ε δ}
    (agree : ∀ middle, first = .returns middle →
      moved (move middle) = (next middle).translate offset moveResult) :
    (first.translate offset move >>= moved) =
      (first >>= next).translate offset moveResult := by
  cases first with
  | returns middle => exact agree middle rfl
  | throws exception => rfl
  | faults position => rfl
  | exhausted => rfl

theorem bind_eq_returns_iff
    {first : Outcome ε α} {next : α → Outcome ε β} {result : β} :
    (first >>= next) = .returns result ↔
      ∃ middle, first = .returns middle ∧ next middle = .returns result := by
  cases first with
  | returns middle => simp
  | throws exception => simp
  | faults position => simp
  | exhausted => simp

theorem bind_eq_exhausted_iff
    {first : Outcome ε α} {next : α → Outcome ε β} :
    (first >>= next) = .exhausted ↔
      first = .exhausted ∨
        ∃ middle, first = .returns middle ∧ next middle = .exhausted := by
  cases first with
  | returns middle => simp
  | throws exception => simp
  | faults position => simp
  | exhausted => simp

/-- What a computation promises: a result satisfies `holds`, and fuel is missing
only if `runsOut`.  Exceptions and faults are left open. -/
def Meets (runsOut : Prop) (holds : α → Prop) : Outcome ε α → Prop
  | .returns result => holds result
  | .throws _ => True
  | .faults _ => True
  | .exhausted => runsOut

namespace Meets

variable {outcome : Outcome ε α} {runsOut : Prop} {holds : α → Prop}

theorem bind {next : α → Outcome ε β} {ends : β → Prop}
    (meets : outcome.Meets runsOut holds)
    (later : ∀ middle, holds middle → (next middle).Meets runsOut ends) :
    (outcome >>= next).Meets runsOut ends := by
  cases outcome with
  | returns middle => exact later middle meets
  | throws exception => trivial
  | faults position => trivial
  | exhausted => exact meets

theorem weaken {otherRunsOut : Prop} {other : α → Prop}
    (meets : outcome.Meets runsOut holds) (mayRunOut : runsOut → otherRunsOut)
    (stronger : ∀ result, holds result → other result) :
    outcome.Meets otherRunsOut other := by
  cases outcome with
  | returns result => exact stronger result meets
  | throws exception => trivial
  | faults position => trivial
  | exhausted => exact mayRunOut meets

theorem both {other : α → Prop} (meets : outcome.Meets runsOut holds)
    (also : outcome.Meets runsOut other) :
    outcome.Meets runsOut fun result => holds result ∧ other result := by
  cases outcome with
  | returns result => exact ⟨meets, also⟩
  | throws exception => trivial
  | faults position => trivial
  | exhausted => exact meets

theorem of_forall (promises : ∀ result, outcome = .returns result →
      holds result) : outcome.Meets True holds := by
  cases outcome with
  | returns result => exact promises result rfl
  | throws exception => trivial
  | faults position => trivial
  | exhausted => trivial

theorem of_returns {result : α} (meets : outcome.Meets runsOut holds)
    (run : outcome = .returns result) : holds result := by
  subst run
  exact meets

theorem ne_exhausted (meets : outcome.Meets runsOut holds)
    (enough : ¬runsOut) : outcome ≠ .exhausted := by
  rintro rfl
  exact enough meets

end Meets

/-- The second computation returns whatever the first one returns.  Where the
first one throws, faults or runs out of fuel, the second one is left open. -/
def KeptBy (first second : Outcome ε α) : Prop :=
  ∀ result, first = .returns result → second = .returns result

namespace KeptBy

theorem refl (outcome : Outcome ε α) : outcome.KeptBy outcome :=
  fun _ run => run

theorem of_faults (position : Nat) (other : Outcome ε α) :
    (.faults position : Outcome ε α).KeptBy other := nofun

theorem of_exhausted (other : Outcome ε α) :
    (.exhausted : Outcome ε α).KeptBy other := nofun

theorem bind {first second : Outcome ε α} {next other : α → Outcome ε β}
    (kept : first.KeptBy second)
    (later : ∀ middle, (next middle).KeptBy (other middle)) :
    (first >>= next).KeptBy (second >>= other) := by
  intro result run
  obtain ⟨middle, firstRun, nextRun⟩ := bind_eq_returns_iff.mp run
  rw [kept middle firstRun]
  exact later middle result nextRun

end KeptBy

/-- Two continuations may be exchanged where they agree on what the first part
can return. -/
theorem bind_congr
    {first : Outcome ε α} {left right : α → Outcome ε β}
    (agree : ∀ middle, first = .returns middle → left middle = right middle) :
    (first >>= left) = (first >>= right) := by
  cases first with
  | returns middle => exact agree middle rfl
  | throws exception => rfl
  | faults position => rfl
  | exhausted => rfl

end Outcome

end Basis
