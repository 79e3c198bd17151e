import Mathlib.Data.Set.Basic

/-!
# Prefix-free encodings

An encoding is prefix free on a set when the code of an element of the set can
be split off the front of any longer string in one way only.  Sequences of such
codes are uniquely decodable.
-/

namespace Basis

variable {α β : Type}

/-- No code of the set is continued to another one. -/
def PrefixFreeOn (domain : Set α) (encode : α → List β) : Prop :=
  ∀ ⦃left right : α⦄, left ∈ domain → right ∈ domain →
    ∀ leftRest rightRest : List β,
      encode left ++ leftRest = encode right ++ rightRest →
        left = right ∧ leftRest = rightRest

theorem flatMap_append_inj {encode : α → List β} {left right : List α}
    (split : ∀ element ∈ left, ∀ other ∈ right, ∀ rest otherRest : List β,
      encode element ++ rest = encode other ++ otherRest →
        element = other ∧ rest = otherRest)
    (sameLength : left.length = right.length) {leftRest rightRest : List β}
    (equality : left.flatMap encode ++ leftRest =
      right.flatMap encode ++ rightRest) :
    left = right ∧ leftRest = rightRest := by
  induction left generalizing right with
  | nil =>
      have rightEmpty : right = [] :=
        List.length_eq_zero_iff.mp sameLength.symm
      subst right
      exact ⟨rfl, equality⟩
  | cons head tail induction =>
      cases right with
      | nil => cases sameLength
      | cons rightHead rightTail =>
          simp only [List.flatMap_cons, List.append_assoc] at equality
          obtain ⟨rfl, tailEquality⟩ :=
            split head (by simp) rightHead (by simp) _ _ equality
          obtain ⟨rfl, restEquality⟩ := induction
            (fun element member other otherMember =>
              split element (by simp [member]) other (by simp [otherMember]))
            (Nat.succ.inj sameLength) tailEquality
          exact ⟨rfl, restEquality⟩

/-- Nonempty prefix-free codes are uniquely decodable. -/
theorem PrefixFreeOn.flatMap_inj {domain : Set α} {encode : α → List β}
    (prefixFree : PrefixFreeOn domain encode)
    (nonempty : ∀ element ∈ domain, encode element ≠ [])
    {left right : List α}
    (leftMembers : ∀ element ∈ left, element ∈ domain)
    (rightMembers : ∀ element ∈ right, element ∈ domain)
    (equality : left.flatMap encode = right.flatMap encode) :
    left = right := by
  induction left generalizing right with
  | nil =>
      cases right with
      | nil => rfl
      | cons rightHead rightTail =>
          have headNonempty :=
            nonempty rightHead (rightMembers rightHead (by simp))
          simp only [List.flatMap_nil, List.flatMap_cons] at equality
          exact absurd (List.append_eq_nil_iff.mp equality.symm).1
            headNonempty
  | cons head tail induction =>
      cases right with
      | nil =>
          have headNonempty := nonempty head (leftMembers head (by simp))
          simp only [List.flatMap_nil, List.flatMap_cons] at equality
          exact absurd (List.append_eq_nil_iff.mp equality).1 headNonempty
      | cons rightHead rightTail =>
          simp only [List.flatMap_cons] at equality
          obtain ⟨rfl, tailEquality⟩ :=
            prefixFree (leftMembers head (by simp))
              (rightMembers rightHead (by simp)) _ _ equality
          rw [induction
            (fun element member => leftMembers element (by simp [member]))
            (fun element member => rightMembers element (by simp [member]))
            tailEquality]

theorem append_mark_inj {mark : β} {left right leftRest rightRest : List β}
    (leftFree : mark ∉ left) (rightFree : mark ∉ right)
    (equality : left ++ mark :: leftRest = right ++ mark :: rightRest) :
    left = right ∧ leftRest = rightRest := by
  induction left generalizing right with
  | nil =>
      cases right with
      | nil => simpa using equality
      | cons rightHead rightTail =>
          simp only [List.nil_append, List.cons_append, List.cons.injEq]
            at equality
          exact absurd (by simp [equality.1]) rightFree
  | cons head tail induction =>
      cases right with
      | nil =>
          simp only [List.nil_append, List.cons_append, List.cons.injEq]
            at equality
          exact absurd (by simp [equality.1]) leftFree
      | cons rightHead rightTail =>
          simp only [List.cons_append, List.cons.injEq] at equality
          obtain ⟨rfl, tailEquality⟩ := equality
          obtain ⟨rfl, restEquality⟩ := induction
            (fun member => leftFree (by simp [member]))
            (fun member => rightFree (by simp [member])) tailEquality
          exact ⟨rfl, restEquality⟩

end Basis
