import RedisClient.ValueEquality
import RedisClient.ValueOrder

/-!
# Equality and order of values

What `operator==` finds equal is not always interchangeable for `operator<`: the
former takes a simple string for the bulk string of the same bytes, at any
depth, and the latter ranks the two kinds.  Among values without errors that are
found equal from both sides this is the only difference.
-/

namespace RedisClient

open Basis

mutual

/-- The value, when the texts of its errors stand at their addresses. -/
def StoredValue.value (texts : Nat → RedisError) : StoredValue → Value
  | .nil => .nil
  | .simpleString text => .simpleString text
  | .error what => .error (texts what)
  | .integer number => .integer number
  | .bulkString bytes => .bulkString bytes
  | .array elements => .array (StoredValue.valueAll texts elements)

def StoredValue.valueAll (texts : Nat → RedisError) :
    List StoredValue → List Value
  | [] => []
  | element :: elements =>
      element.value texts :: StoredValue.valueAll texts elements

end

mutual

/-- No error occurs in the value. -/
def StoredValue.errorFree : StoredValue → Bool
  | .error _ => false
  | .array elements => StoredValue.allErrorFree elements
  | _ => true

def StoredValue.allErrorFree : List StoredValue → Bool
  | [] => true
  | element :: elements =>
      element.errorFree && StoredValue.allErrorFree elements

end

/-- No comparison tells the values apart. -/
structure Interchangeable (left right : StoredValue) : Prop where
  notLess : left.less right = false
  notGreater : right.less left = false
  below : ∀ other : StoredValue, left.less other = right.less other
  above : ∀ other : StoredValue, other.less left = other.less right

/-- Somewhere one value has a simple string where the other one has a bulk
string. -/
inductive Mixes : StoredValue → StoredValue → Prop where
  | simpleBulk {text bytes : Bytes} :
      Mixes (.simpleString text) (.bulkString bytes)
  | bulkSimple {text bytes : Bytes} :
      Mixes (.bulkString bytes) (.simpleString text)
  | array {lefts rights : List StoredValue} {index : Nat}
      {left right : StoredValue} :
      lefts[index]? = some left → rights[index]? = some right →
      Mixes left right → Mixes (.array lefts) (.array rights)

theorem StoredValue.valueAll_eq_map (texts : Nat → RedisError)
    (elements : List StoredValue) :
    StoredValue.valueAll texts elements =
      elements.map (StoredValue.value texts) := by
  induction elements with
  | nil => rfl
  | cons element elements induction => simp [StoredValue.valueAll, induction]

theorem StoredValue.allErrorFree_iff {elements : List StoredValue} :
    StoredValue.allErrorFree elements = true ↔
      ∀ element ∈ elements, element.errorFree = true := by
  induction elements with
  | nil => simp [StoredValue.allErrorFree]
  | cons element elements induction =>
      simp [StoredValue.allErrorFree, induction]

theorem Mixes.ne {left right : StoredValue} (mixes : Mixes left right) :
    left ≠ right := by
  induction mixes with
  | simpleBulk => exact nofun
  | bulkSimple => exact nofun
  | array found otherFound mixes induction =>
      intro same
      cases same
      exact induction (Option.some.inj (found.symm.trans otherFound))

private theorem eq_of_coveredAll {texts : Nat → RedisError}
    {lefts rights : List StoredValue}
    (elements : ∀ element ∈ lefts, ∀ other : StoredValue,
      Covered (element.value texts) (other.value texts) →
      Covered (other.value texts) (element.value texts) →
      ¬Mixes element other → element = other)
    (there : CoveredAll (lefts.map (StoredValue.value texts))
      (rights.map (StoredValue.value texts)))
    (back : CoveredAll (rights.map (StoredValue.value texts))
      (lefts.map (StoredValue.value texts)))
    (plain : ∀ (index : Nat) left right, lefts[index]? = some left →
      rights[index]? = some right → ¬Mixes left right) :
    lefts = rights := by
  induction lefts generalizing rights with
  | nil =>
      cases rights with
      | nil => rfl
      | cons right rights => cases back
  | cons left lefts induction =>
      cases rights with
      | nil => cases there
      | cons right rights =>
          cases there with
          | cons headThere tailThere =>
              cases back with
              | cons headBack tailBack =>
                  have head : left = right :=
                    elements left (by simp) right headThere headBack
                      (plain 0 left right rfl rfl)
                  have tail : lefts = rights :=
                    induction
                      (fun later member => elements later (by simp [member]))
                      tailThere tailBack fun index => plain (index + 1)
                  rw [head, tail]

/-- Values without errors that are covered by each other, and of the same kinds
everywhere, are the same. -/
theorem StoredValue.eq_of_covered {texts : Nat → RedisError}
    {left right : StoredValue} (errorFree : left.errorFree = true)
    (there : Covered (left.value texts) (right.value texts))
    (back : Covered (right.value texts) (left.value texts))
    (plain : ¬Mixes left right) : left = right := by
  induction left generalizing right with
  | array elements induction =>
      cases right with
      | array others =>
          have elementsFree := StoredValue.allErrorFree_iff.mp errorFree
          simp only [StoredValue.value,
            StoredValue.valueAll_eq_map] at there back
          cases there with
          | array there =>
              cases back with
              | array back =>
                  congr 1
                  apply eq_of_coveredAll _ there back
                  · intro index left right found otherFound mixes
                    exact plain (.array found otherFound mixes)
                  · intro element member other
                    exact induction element member (elementsFree element member)
      | _ => cases there
  | bulkString bytes =>
      cases right with
      | bulkString others =>
          have longer : bytes <+: others := there.startsWith
          have shorter : others <+: bytes := back.startsWith
          rw [longer.eq_of_length_le shorter.length_le]
      | simpleString text => exact absurd .bulkSimple plain
      | _ => cases there
  | simpleString text =>
      cases right with
      | simpleString other =>
          cases there
          rfl
      | bulkString bytes => exact absurd .simpleBulk plain
      | _ => cases there
  | nil =>
      cases right with
      | nil => rfl
      | _ => cases there
  | error what => cases errorFree
  | integer number =>
      cases right with
      | integer other =>
          cases there
          rfl
      | _ => cases there

theorem Interchangeable.refl (value : StoredValue) :
    Interchangeable value value :=
  ⟨value.less_irreflexiveAt, value.less_irreflexiveAt, fun _ => rfl,
    fun _ => rfl⟩

theorem Interchangeable.eq {left right : StoredValue}
    (interchangeable : Interchangeable left right) : left = right :=
  left.less_connectedAt right interchangeable.notLess
    interchangeable.notGreater

/-- Two values without errors that `operator==` finds equal from both sides are
interchangeable for `operator<` exactly when they have the same kinds
everywhere, and otherwise one of them is less. -/
theorem equal_interchangeable_iff {texts : Nat → RedisError}
    {left right : StoredValue} (errorFree : left.errorFree = true)
    (there : (left.value texts).equals (right.value texts) = .returns true)
    (back : (right.value texts).equals (left.value texts) = .returns true) :
    (Interchangeable left right ↔ ¬Mixes left right) ∧
      (Mixes left right →
        left.less right = true ∨ right.less left = true) := by
  have covered := Value.equals_true_iff.mp there
  have coveredBack := Value.equals_true_iff.mp back
  refine ⟨⟨fun interchangeable mixes => ?_, fun plain => ?_⟩, fun mixes => ?_⟩
  · exact mixes.ne interchangeable.eq
  · rw [StoredValue.eq_of_covered errorFree covered coveredBack plain]
    exact Interchangeable.refl right
  · by_contra neither
    simp only [not_or, Bool.not_eq_true] at neither
    exact mixes.ne (left.less_connectedAt right neither.1 neither.2)

/-- An array of a number and an empty bulk string, and itself. -/
theorem equal_interchangeable_iff_same :
    Interchangeable (.array [.integer 1, .bulkString []])
      (.array [.integer 1, .bulkString []]) := by
  have equal : Value.equals (.array [.integer 1, .bulkString []])
      (.array [.integer 1, .bulkString []]) = .returns true := rfl
  have iff := (@equal_interchangeable_iff (fun _ => ⟨[]⟩)
    (.array [.integer 1, .bulkString []]) (.array [.integer 1, .bulkString []])
    rfl equal equal).1
  exact iff.mpr fun mixes => mixes.ne rfl

/-- The simple string `OK` is equal to the bulk string `OK` and less than it. -/
theorem not_equal_interchangeable :
    ¬∀ (texts : Nat → RedisError) (left right : StoredValue),
      (left.value texts).equals (right.value texts) = .returns true →
        Interchangeable left right := by
  intro consistent
  have found := consistent (fun _ => ⟨[]⟩) (.simpleString [79, 75])
    (.bulkString [79, 75]) rfl
  cases found.eq

end RedisClient
