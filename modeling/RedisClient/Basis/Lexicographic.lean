import Mathlib.Init

/-!
# Lexicographic comparison

Lists are compared element by element with a test that is asked in both
directions.  Nothing is assumed about the test: what holds of it at the elements
of a list holds of the comparison at the list, so that the laws can be used in
an induction over nested lists.
-/

namespace Basis

variable {α : Type} {less : α → α → Bool}

/-- The first list ends before the second, or is less at the first place at
which one of them is. -/
def lexicographic (less : α → α → Bool) : List α → List α → Bool
  | _, [] => false
  | [], _ :: _ => true
  | left :: lefts, right :: rights =>
      if less left right then true
      else if less right left then false
      else lexicographic less lefts rights

def IrreflexiveAt (less : α → α → Bool) (item : α) : Prop :=
  less item item = false

/-- What is neither less nor greater is the same. -/
def ConnectedAt (less : α → α → Bool) (item : α) : Prop :=
  ∀ other, less item other = false → less other item = false → item = other

def TransitiveAt (less : α → α → Bool) (first : α) : Prop :=
  ∀ second third, less first second = true → less second third = true →
    less first third = true

section LinearOrder

variable [LT α] [LE α] [DecidableLT α] [Std.LawfulOrderLT α]

theorem lt_irreflexiveAt (item : α) :
    IrreflexiveAt (fun left right : α => decide (left < right)) item := by
  simp [IrreflexiveAt, Std.lt_irrefl]

variable [Std.IsLinearOrder α]

theorem lt_connectedAt (item : α) :
    ConnectedAt (fun left right : α => decide (left < right)) item := by
  intro other notLess notGreater
  simp only [decide_eq_false_iff_not, Std.not_lt] at notLess notGreater
  exact Std.le_antisymm notGreater notLess

theorem lt_transitiveAt (item : α) :
    TransitiveAt (fun left right : α => decide (left < right)) item := by
  intro second third firstLess secondLess
  simp only [decide_eq_true_eq] at *
  exact Std.lt_trans firstLess secondLess

end LinearOrder

theorem lexicographic_irreflexiveAt {items : List α}
    (irreflexive : ∀ item ∈ items, IrreflexiveAt less item) :
    IrreflexiveAt (lexicographic less) items := by
  induction items with
  | nil => rfl
  | cons item items induction =>
      have head : less item item = false := irreflexive item (by simp)
      have tail := induction fun later member =>
        irreflexive later (by simp [member])
      simpa [IrreflexiveAt, lexicographic, head] using tail

theorem lexicographic_connectedAt {items : List α}
    (connected : ∀ item ∈ items, ConnectedAt less item) :
    ConnectedAt (lexicographic less) items := by
  induction items with
  | nil =>
      intro others notLess notGreater
      cases others with
      | nil => rfl
      | cons other others => cases notLess
  | cons item items induction =>
      intro others notLess notGreater
      cases others with
      | nil => cases notGreater
      | cons other others =>
          simp only [lexicographic] at notLess notGreater
          cases below : less item other with
          | true => simp [below] at notLess
          | false =>
              cases above : less other item with
              | true => simp [above] at notGreater
              | false =>
                  have head : item = other :=
                    connected item (by simp) other below above
                  have tail : items = others :=
                    induction
                      (fun later member => connected later (by simp [member]))
                      others (by simpa [below, above] using notLess)
                      (by simpa [below, above] using notGreater)
                  rw [head, tail]

theorem lexicographic_cons_cases
    (connected : ∀ item, ConnectedAt less item) {left right : α}
    {lefts rights : List α}
    (isLess : lexicographic less (left :: lefts) (right :: rights) = true) :
    less left right = true ∨
      (left = right ∧ lexicographic less lefts rights = true) := by
  simp only [lexicographic] at isLess
  cases below : less left right with
  | true => exact Or.inl rfl
  | false =>
      cases above : less right left with
      | true => simp [below, above] at isLess
      | false =>
          exact Or.inr ⟨connected left right below above,
            by simpa [below, above] using isLess⟩

theorem lexicographic_cons_of_less {left right : α}
    (isLess : less left right = true) (lefts rights : List α) :
    lexicographic less (left :: lefts) (right :: rights) = true := by
  simp [lexicographic, isLess]

theorem lexicographic_cons_self {item : α}
    (irreflexive : IrreflexiveAt less item) (lefts rights : List α) :
    lexicographic less (item :: lefts) (item :: rights) =
      lexicographic less lefts rights := by
  have same : less item item = false := irreflexive
  simp [lexicographic, same]

theorem lexicographic_transitiveAt
    (connected : ∀ item, ConnectedAt less item)
    (irreflexive : ∀ item, IrreflexiveAt less item) {firsts : List α}
    (transitive : ∀ item ∈ firsts, TransitiveAt less item) :
    TransitiveAt (lexicographic less) firsts := by
  induction firsts with
  | nil =>
      intro seconds thirds firstLess secondLess
      cases thirds with
      | nil => cases seconds <;> cases secondLess
      | cons third thirds => rfl
  | cons first firsts induction =>
      intro seconds thirds firstLess secondLess
      cases seconds with
      | nil => cases firstLess
      | cons second seconds =>
          cases thirds with
          | nil => cases secondLess
          | cons third thirds =>
              rcases lexicographic_cons_cases connected firstLess with
                firstBelow | ⟨rfl, firstTail⟩
              · apply lexicographic_cons_of_less
                rcases lexicographic_cons_cases connected secondLess with
                  secondBelow | ⟨rfl, secondTail⟩
                · exact transitive first (by simp) second third firstBelow
                    secondBelow
                · exact firstBelow
              · rcases lexicographic_cons_cases connected secondLess with
                  secondBelow | ⟨rfl, secondTail⟩
                · exact lexicographic_cons_of_less secondBelow _ _
                · rw [lexicographic_cons_self (irreflexive first)]
                  exact induction
                    (fun later member => transitive later (by simp [member]))
                    seconds thirds firstTail secondTail

end Basis
