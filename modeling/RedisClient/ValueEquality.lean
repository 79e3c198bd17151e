import Mathlib.Data.List.Infix
import RedisClient.Value

/-!
# Equality of values

`value::operator==` compares bulk strings and arrays with a `std::equal` that is
given no end of its right operand.  It finds equal what the right operand only
begins with, and it reads behind a right operand that ends first: behind a bulk
string that is shorter, and behind an array in which it has met no difference.
`Covered` and `Differs` say when it returns which result.
-/

namespace RedisClient

open Basis

/-- `error::operator==` -/
def RedisError.equals (left right : RedisError) : Bool :=
  left.what == right.what

mutual

/-- `value::operator==`; `vector_to_string` copies the bytes. -/
def Value.equals : Value → Value → Execution Bool
  | .simpleString text, .bulkString bytes => .returns (text == bytes)
  | .bulkString bytes, .simpleString text => .returns (text == bytes)
  | .nil, .nil => .returns true
  | .simpleString left, .simpleString right => .returns (left == right)
  | .error left, .error right => .returns (left.equals right)
  | .integer left, .integer right => .returns (left == right)
  | .bulkString left, .bulkString right => equalBytes left right
  | .array left, .array right => Value.equalsAll 0 left right
  -- the types do not match
  | _, _ => .returns false

/-- `std::equal` on the elements of arrays. -/
def Value.equalsAll (it : Nat) : List Value → List Value → Execution Bool
  | [], _ => .returns true
  | _ :: _, [] => .faults it
  | left :: lefts, right :: rights => do
      if ← left.equals right then Value.equalsAll (it + 1) lefts rights
      else .returns false

end

theorem Value.equalsAll_eq (it : Nat) (left right : List Value) :
    Value.equalsAll it left right = equal Value.equals it left right := by
  induction left generalizing it right with
  | nil => rfl
  | cons head lefts induction =>
      cases right with
      | nil => rfl
      | cons other rights =>
          rw [Value.equalsAll, equal]
          simp only [induction]

mutual

/-- The value with every simple string replaced by the bulk string of the same
bytes, and with every error known by the text that `what()` shows. -/
def Value.contents : Value → Value
  | .simpleString text => .bulkString text
  | .error thrown => .error ⟨thrown.what⟩
  | .array elements => .array (Value.contentsAll elements)
  | value => value

def Value.contentsAll : List Value → List Value
  | [] => []
  | element :: elements => element.contents :: Value.contentsAll elements

end

/-- The comparison stays inside both values, and its result says whether their
contents are the same. -/
def ComparesContents (left right : Value) : Prop :=
  ∃ result, left.equals right = .returns result ∧
    (result = true ↔ left.contents = right.contents)

mutual

/-- Everything in the left value is found in the right one, whose bulk strings
and arrays may go on behind it. -/
inductive Covered : Value → Value → Prop where
  | nil : Covered .nil .nil
  | simple {text : Bytes} : Covered (.simpleString text) (.simpleString text)
  | simpleBulk {text : Bytes} : Covered (.simpleString text) (.bulkString text)
  | bulkSimple {text : Bytes} : Covered (.bulkString text) (.simpleString text)
  | error {left right : RedisError} : left.what = right.what →
      Covered (.error left) (.error right)
  | integer {number : Int64} : Covered (.integer number) (.integer number)
  | bulk {bytes rest : Bytes} :
      Covered (.bulkString bytes) (.bulkString (bytes ++ rest))
  | array {left right : List Value} : CoveredAll left right →
      Covered (.array left) (.array right)

inductive CoveredAll : List Value → List Value → Prop where
  | nil {rights : List Value} : CoveredAll [] rights
  | cons {left right : Value} {lefts rights : List Value} :
      Covered left right → CoveredAll lefts rights →
      CoveredAll (left :: lefts) (right :: rights)

end

mutual

/-- The values differ in kind or text, in their bytes where the right bulk
string is not the shorter one, or at the first place of an array at which they
are not alike, and both have that place. -/
inductive Differs : Value → Value → Prop where
  | kind {left right : Value} : left.contents.type ≠ right.contents.type →
      Differs left right
  | simple {left right : Bytes} : left ≠ right →
      Differs (.simpleString left) (.simpleString right)
  | simpleBulk {text bytes : Bytes} : text ≠ bytes →
      Differs (.simpleString text) (.bulkString bytes)
  | bulkSimple {text bytes : Bytes} : text ≠ bytes →
      Differs (.bulkString bytes) (.simpleString text)
  | error {left right : RedisError} : left.what ≠ right.what →
      Differs (.error left) (.error right)
  | integer {left right : Int64} : left ≠ right →
      Differs (.integer left) (.integer right)
  | bulk {left right : Bytes} : left.length ≤ right.length →
      ¬left <+: right → Differs (.bulkString left) (.bulkString right)
  | array {left right : List Value} : DiffersAll left right →
      Differs (.array left) (.array right)

inductive DiffersAll : List Value → List Value → Prop where
  | here {left right : Value} {lefts rights : List Value} :
      Differs left right → DiffersAll (left :: lefts) (right :: rights)
  | there {left right : Value} {lefts rights : List Value} :
      Covered left right → DiffersAll lefts rights →
      DiffersAll (left :: lefts) (right :: rights)

end

theorem Covered.startsWith {left right : Bytes}
    (covered : Covered (.bulkString left) (.bulkString right)) :
    left <+: right := by
  cases covered
  exact List.prefix_append _ _

/-! ## The results of the comparison -/

theorem equalBytes_of_prefix {left right : Bytes} (begins : left <+: right) :
    equalBytes left right = .returns true := by
  rw [equalBytes, if_pos begins.length_le,
    ← List.prefix_iff_eq_take.mp begins, beq_self_eq_true]

theorem equalBytes_of_not_prefix {left right : Bytes}
    (enough : left.length ≤ right.length) (apart : ¬left <+: right) :
    equalBytes left right = .returns false := by
  have differ : (left == right.take left.length) = false :=
    beq_false_of_ne fun same => apart (List.prefix_iff_eq_take.mpr same)
  rw [equalBytes, if_pos enough, differ]

mutual

theorem Covered.equals_eq {left right : Value} (covered : Covered left right) :
    left.equals right = .returns true := by
  cases covered with
  | error same => simp [Value.equals, RedisError.equals, same]
  | bulk => exact equalBytes_of_prefix (List.prefix_append _ _)
  | array elements => exact elements.equalsAll_eq 0
  | _ => simp [Value.equals]

theorem CoveredAll.equalsAll_eq {left right : List Value}
    (covered : CoveredAll left right) (it : Nat) :
    Value.equalsAll it left right = .returns true := by
  cases covered with
  | nil => rfl
  | cons head tail =>
      rw [Value.equalsAll, head.equals_eq, Outcome.returns_bind, if_pos rfl,
        tail.equalsAll_eq]

end

theorem Value.equals_of_kind {left right : Value}
    (apart : left.contents.type ≠ right.contents.type) :
    left.equals right = .returns false := by
  cases left <;> cases right <;> first | rfl | exact absurd rfl apart

mutual

theorem Differs.equals_eq {left right : Value} (differs : Differs left right) :
    left.equals right = .returns false := by
  cases differs with
  | kind apart => exact Value.equals_of_kind apart
  | error apart => simp [Value.equals, RedisError.equals, apart]
  | bulk enough apart => exact equalBytes_of_not_prefix enough apart
  | array elements => exact elements.equalsAll_eq 0
  | simple apart => simp [Value.equals, apart]
  | simpleBulk apart => simp [Value.equals, apart]
  | bulkSimple apart => simp [Value.equals, apart]
  | integer apart => simp [Value.equals, apart]

theorem DiffersAll.equalsAll_eq {left right : List Value}
    (differs : DiffersAll left right) (it : Nat) :
    Value.equalsAll it left right = .returns false := by
  cases differs with
  | here head =>
      rw [Value.equalsAll, head.equals_eq, Outcome.returns_bind]
      rfl
  | there head tail =>
      rw [Value.equalsAll, head.equals_eq, Outcome.returns_bind, if_pos rfl,
        tail.equalsAll_eq]

end

private theorem equalsAll_cases {left : List Value}
    (elements : ∀ element ∈ left, ∀ other,
      Covered element other ∨ Differs element other ∨
        ∃ position, element.equals other = .faults position)
    (right : List Value) :
    CoveredAll left right ∨ DiffersAll left right ∨
      ∀ it, ∃ position, Value.equalsAll it left right = .faults position := by
  induction left generalizing right with
  | nil => exact Or.inl .nil
  | cons element left induction =>
      cases right with
      | nil => exact Or.inr (Or.inr fun it => ⟨it, rfl⟩)
      | cons other right =>
          rcases elements element (by simp) other with
            covered | differs | ⟨position, faults⟩
          · rcases induction
                (fun later member => elements later (by simp [member])) right
              with allCovered | someDiffers | faults
            · exact Or.inl (.cons covered allCovered)
            · exact Or.inr (Or.inl (.there covered someDiffers))
            · refine Or.inr (Or.inr fun it => ?_)
              rw [Value.equalsAll, covered.equals_eq, Outcome.returns_bind,
                if_pos rfl]
              exact faults (it + 1)
          · exact Or.inr (Or.inl (.here differs))
          · refine Or.inr (Or.inr fun it => ⟨position, ?_⟩)
            rw [Value.equalsAll, faults, Outcome.faults_bind]

/-- A value is covered by another one, or differs from it, or the comparison
reads behind the right operand. -/
theorem Value.equals_cases (left right : Value) :
    Covered left right ∨ Differs left right ∨
      ∃ position, left.equals right = .faults position := by
  induction left generalizing right with
  | array elements induction =>
      cases right with
      | array others =>
          rcases equalsAll_cases induction others with
            covered | differs | faults
          · exact Or.inl (.array covered)
          · exact Or.inr (Or.inl (.array differs))
          · exact Or.inr (Or.inr (faults 0))
      | _ => exact Or.inr (Or.inl (.kind nofun))
  | bulkString bytes =>
      cases right with
      | bulkString others =>
          by_cases begins : bytes <+: others
          · obtain ⟨rest, rfl⟩ := begins
            exact Or.inl .bulk
          · by_cases enough : bytes.length ≤ others.length
            · exact Or.inr (Or.inl (.bulk enough begins))
            · exact Or.inr (Or.inr ⟨others.length, if_neg enough⟩)
      | simpleString text =>
          by_cases same : text = bytes
          · exact Or.inl (same ▸ .bulkSimple)
          · exact Or.inr (Or.inl (.bulkSimple same))
      | _ => exact Or.inr (Or.inl (.kind nofun))
  | simpleString text =>
      cases right with
      | bulkString bytes =>
          by_cases same : text = bytes
          · exact Or.inl (same ▸ .simpleBulk)
          · exact Or.inr (Or.inl (.simpleBulk same))
      | simpleString other =>
          by_cases same : text = other
          · exact Or.inl (same ▸ .simple)
          · exact Or.inr (Or.inl (.simple same))
      | _ => exact Or.inr (Or.inl (.kind nofun))
  | nil =>
      cases right with
      | nil => exact Or.inl .nil
      | _ => exact Or.inr (Or.inl (.kind nofun))
  | error error =>
      cases right with
      | error other =>
          by_cases same : error.what = other.what
          · exact Or.inl (.error same)
          · exact Or.inr (Or.inl (.error same))
      | _ => exact Or.inr (Or.inl (.kind nofun))
  | integer number =>
      cases right with
      | integer other =>
          by_cases same : number = other
          · exact Or.inl (same ▸ .integer)
          · exact Or.inr (Or.inl (.integer same))
      | _ => exact Or.inr (Or.inl (.kind nofun))

theorem Value.equals_true_iff {left right : Value} :
    left.equals right = .returns true ↔ Covered left right := by
  refine ⟨fun run => ?_, Covered.equals_eq⟩
  rcases left.equals_cases right with covered | differs | ⟨position, faults⟩
  · exact covered
  · cases differs.equals_eq.symm.trans run
  · cases faults.symm.trans run

theorem Value.equals_false_iff {left right : Value} :
    left.equals right = .returns false ↔ Differs left right := by
  refine ⟨fun run => ?_, Differs.equals_eq⟩
  rcases left.equals_cases right with covered | differs | ⟨position, faults⟩
  · cases covered.equals_eq.symm.trans run
  · exact differs
  · cases faults.symm.trans run

/-! ## Contents -/

theorem Value.contentsAll_eq_map (elements : List Value) :
    Value.contentsAll elements = elements.map Value.contents := by
  induction elements with
  | nil => rfl
  | cons element elements induction => simp [Value.contentsAll, induction]

private theorem coveredAll_of_contents {left right : List Value}
    (elements : ∀ element ∈ left, ∀ other,
      element.contents = other.contents → Covered element other)
    (same : left.map Value.contents = right.map Value.contents) :
    CoveredAll left right := by
  induction left generalizing right with
  | nil => exact .nil
  | cons element left induction =>
      cases right with
      | nil => cases same
      | cons other right =>
          obtain ⟨head, tail⟩ := List.cons.inj same
          exact .cons (elements element (by simp) other head)
            (induction (fun later member => elements later (by simp [member]))
              tail)

theorem Value.covered_of_contents {left right : Value}
    (same : left.contents = right.contents) : Covered left right := by
  induction left generalizing right with
  | array elements induction =>
      cases right with
      | array others =>
          simp only [Value.contents, Value.contentsAll_eq_map,
            Value.array.injEq] at same
          exact .array (coveredAll_of_contents
            (fun element member _ => induction element member) same)
      | _ => cases same
  | bulkString bytes =>
      cases right with
      | bulkString others =>
          cases same
          have covered := @Covered.bulk bytes []
          rwa [List.append_nil] at covered
      | simpleString text =>
          cases same
          exact .bulkSimple
      | _ => cases same
  | simpleString text =>
      cases right with
      | bulkString bytes =>
          cases same
          exact .simpleBulk
      | simpleString other =>
          cases same
          exact .simple
      | _ => cases same
  | nil =>
      cases right with
      | nil => exact .nil
      | _ => cases same
  | error error =>
      cases right with
      | error other =>
          simp only [Value.contents, Value.error.injEq,
            RedisError.mk.injEq] at same
          exact .error same
      | _ => cases same
  | integer number =>
      cases right with
      | integer other =>
          cases same
          exact .integer
      | _ => cases same

theorem Differs.contents_ne {left right : Value}
    (differs : Differs left right) : left.contents ≠ right.contents := by
  intro same
  have covered := Value.covered_of_contents same
  cases differs.equals_eq.symm.trans covered.equals_eq

/-- The comparison says whether the contents are the same exactly where they
are, or where it meets a difference and nothing makes it look behind the right
value before. -/
theorem comparesContents_iff (left right : Value) :
    ComparesContents left right ↔
      left.contents = right.contents ∨ Differs left right := by
  constructor
  · rintro ⟨result, run, sound⟩
    cases result with
    | true => exact Or.inl (sound.mp rfl)
    | false => exact Or.inr (Value.equals_false_iff.mp run)
  · rintro (same | differs)
    · exact ⟨true, (Value.covered_of_contents same).equals_eq,
        iff_of_true rfl same⟩
    · exact ⟨false, differs.equals_eq,
        iff_of_false Bool.false_ne_true differs.contents_ne⟩

/-- The bulk string `a` is found equal to `ab`, and the comparison of `ab` with
`a` reads behind the latter. -/
theorem not_comparesContents_prefix :
    Value.equals (.bulkString [97]) (.bulkString [97, 98]) = .returns true ∧
      ¬ComparesContents (.bulkString [97]) (.bulkString [97, 98]) ∧
      Value.equals (.bulkString [97, 98]) (.bulkString [97]) = .faults 1 := by
  refine ⟨rfl, ?_, rfl⟩
  rintro ⟨result, run, sound⟩
  have found : Value.equals (.bulkString [97]) (.bulkString [97, 98]) =
      .returns true := rfl
  cases found.symm.trans run
  cases sound.mp rfl

end RedisClient
