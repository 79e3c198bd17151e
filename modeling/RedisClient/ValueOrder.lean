import RedisClient.Basis.Lexicographic
import RedisClient.Value

/-!
# The order of values

`value::operator<` ranks values by their types and then compares what they hold.
It compares errors by the pointers that `what()` returns, so an error is known
here by the address of its text.
-/

namespace RedisClient

open Basis

/-- A value as `operator<` sees it: `what` is the pointer that `what()`
returns. -/
inductive StoredValue where
  | nil
  | simpleString (text : Bytes)
  | error (what : Nat)
  | integer (number : Int64)
  | bulkString (bytes : Bytes)
  | array (elements : List StoredValue)

/-- Induction with one hypothesis for all elements of an array. -/
@[elab_as_elim, induction_eliminator]
theorem StoredValue.induction {motive : StoredValue → Prop}
    (nil : motive .nil)
    (simpleString : ∀ text, motive (.simpleString text))
    (error : ∀ what, motive (.error what))
    (integer : ∀ number, motive (.integer number))
    (bulkString : ∀ bytes, motive (.bulkString bytes))
    (array : ∀ elements, (∀ element ∈ elements, motive element) →
      motive (.array elements)) :
    ∀ value, motive value := by
  refine @StoredValue.rec motive
    (fun elements => ∀ element ∈ elements, motive element)
    nil simpleString error integer bulkString array ?_ ?_
  · intro element member
    cases member
  · intro head tail headHolds tailHolds element member
    rcases List.mem_cons.mp member with rfl | later
    · exact headHolds
    · exact tailHolds element later

def StoredValue.type : StoredValue → RedisType
  | .nil => .nil
  | .simpleString _ => .simpleString
  | .error _ => .error
  | .integer _ => .integer
  | .bulkString _ => .bulkString
  | .array _ => .array

/-- The values of the enumeration `redis_type`. -/
def RedisType.rank : RedisType → Nat
  | .nil => 0
  | .simpleString => 1
  | .error => 2
  | .integer => 3
  | .bulkString => 4
  | .array => 5

/-- The order of the characters of a string and of the bytes of a vector. -/
def byteLess (left right : UInt8) : Bool := decide (left < right)

mutual

/-- `value::operator<` -/
def StoredValue.less (left right : StoredValue) : Bool :=
  match left, right with
  | .nil, .nil => false
  | .simpleString left, .simpleString right =>
      lexicographic byteLess left right
  | .error left, .error right => decide (left < right)
  | .integer left, .integer right => decide (left < right)
  | .bulkString left, .bulkString right => lexicographic byteLess left right
  | .array left, .array right => StoredValue.lessAll left right
  -- the types are different
  | left, right => decide (left.type.rank < right.type.rank)
termination_by sizeOf left + sizeOf right

/-- The order of vectors of values. -/
def StoredValue.lessAll (left right : List StoredValue) : Bool :=
  match left, right with
  | _, [] => false
  | [], _ :: _ => true
  | left :: lefts, right :: rights =>
      if left.less right then true
      else if right.less left then false
      else StoredValue.lessAll lefts rights
termination_by sizeOf left + sizeOf right

end

theorem StoredValue.lessAll_eq (left right : List StoredValue) :
    StoredValue.lessAll left right =
      lexicographic StoredValue.less left right := by
  induction left generalizing right with
  | nil => cases right <;> simp [StoredValue.lessAll, lexicographic]
  | cons head lefts induction =>
      cases right with
      | nil => simp [StoredValue.lessAll, lexicographic]
      | cons other rights =>
          rw [StoredValue.lessAll, lexicographic, induction]

theorem StoredValue.less_array (left right : List StoredValue) :
    StoredValue.less (.array left) (.array right) =
      lexicographic StoredValue.less left right := by
  rw [StoredValue.less, StoredValue.lessAll_eq]

theorem StoredValue.less_of_type_ne {left right : StoredValue}
    (different : left.type ≠ right.type) :
    left.less right = decide (left.type.rank < right.type.rank) := by
  cases left <;> cases right <;>
    first | exact absurd rfl different | simp [StoredValue.less]

/-! ## Strings of bytes -/

theorem bytesLess_irreflexiveAt (bytes : Bytes) :
    IrreflexiveAt (lexicographic byteLess) bytes :=
  lexicographic_irreflexiveAt fun byte _ => lt_irreflexiveAt byte

theorem bytesLess_connectedAt (bytes : Bytes) :
    ConnectedAt (lexicographic byteLess) bytes :=
  lexicographic_connectedAt fun byte _ => lt_connectedAt byte

theorem bytesLess_transitiveAt (bytes : Bytes) :
    TransitiveAt (lexicographic byteLess) bytes :=
  lexicographic_transitiveAt lt_connectedAt lt_irreflexiveAt
    fun byte _ => lt_transitiveAt byte

/-! ## Types -/

theorem RedisType.rank_injective : Function.Injective RedisType.rank := by
  intro left right same
  cases left <;> cases right <;> first | rfl | cases same

theorem StoredValue.rank_le_of_less {left right : StoredValue}
    (isLess : left.less right = true) :
    left.type.rank ≤ right.type.rank := by
  by_cases same : left.type = right.type
  · rw [same]
  · rw [StoredValue.less_of_type_ne same, decide_eq_true_eq] at isLess
    exact Nat.le_of_lt isLess

theorem StoredValue.type_eq_of_not_less {left right : StoredValue}
    (notLess : left.less right = false) (notGreater : right.less left = false) :
    left.type = right.type := by
  by_contra different
  rw [StoredValue.less_of_type_ne different, decide_eq_false_iff_not] at notLess
  rw [StoredValue.less_of_type_ne (Ne.symm different),
    decide_eq_false_iff_not] at notGreater
  exact different (RedisType.rank_injective (by omega))

/-- Only values of one type are left when types alone do not decide. -/
theorem StoredValue.less_of_types {first second third : StoredValue}
    (firstLess : first.less second = true)
    (secondLess : second.less third = true)
    (sameType : second.type = first.type → third.type = first.type →
      first.less third = true) : first.less third = true := by
  have firstLe := StoredValue.rank_le_of_less firstLess
  have secondLe := StoredValue.rank_le_of_less secondLess
  by_cases same : third.type = first.type
  · have middle : second.type = first.type :=
      RedisType.rank_injective (by rw [same] at secondLe; omega)
    exact sameType middle same
  · have apart : third.type.rank ≠ first.type.rank :=
      fun ranks => same (RedisType.rank_injective ranks)
    rw [StoredValue.less_of_type_ne (Ne.symm same), decide_eq_true_eq]
    omega

/-! ## The values of one type -/

/-- The values of one type are ordered by what they hold. -/
structure OrderedBy {α : Type} (kind : α → StoredValue)
    (order : α → α → Bool) : Prop where
  only : ∀ (held : α) (value : StoredValue),
    value.type = (kind held).type → ∃ other, value = kind other
  less_eq : ∀ left right : α,
    (kind left).less (kind right) = order left right

namespace OrderedBy

variable {α : Type} {kind : α → StoredValue} {order : α → α → Bool} {held : α}

theorem irreflexiveAt (ordered : OrderedBy kind order)
    (law : IrreflexiveAt order held) :
    IrreflexiveAt StoredValue.less (kind held) :=
  (ordered.less_eq held held).trans law

theorem connectedAt (ordered : OrderedBy kind order)
    (law : ConnectedAt order held) :
    ConnectedAt StoredValue.less (kind held) := by
  intro other notLess notGreater
  have sameType := StoredValue.type_eq_of_not_less notLess notGreater
  obtain ⟨other, rfl⟩ := ordered.only held other sameType.symm
  rw [ordered.less_eq] at notLess notGreater
  rw [law other notLess notGreater]

theorem transitiveAt (ordered : OrderedBy kind order)
    (law : TransitiveAt order held) :
    TransitiveAt StoredValue.less (kind held) := by
  intro second third firstLess secondLess
  apply StoredValue.less_of_types firstLess secondLess
  intro secondType thirdType
  obtain ⟨second, rfl⟩ := ordered.only held second secondType
  obtain ⟨third, rfl⟩ := ordered.only held third thirdType
  rw [ordered.less_eq] at firstLess secondLess ⊢
  exact law second third firstLess secondLess

theorem nil : OrderedBy (fun _ : Unit => .nil) fun _ _ => false where
  only := by
    intro held value same
    cases value with
    | nil => exact ⟨(), rfl⟩
    | _ => cases same
  less_eq := by
    intro left right
    rw [StoredValue.less]

theorem simpleString : OrderedBy .simpleString (lexicographic byteLess) where
  only := by
    intro held value same
    cases value with
    | simpleString text => exact ⟨text, rfl⟩
    | _ => cases same
  less_eq := by
    intro left right
    rw [StoredValue.less]

theorem error :
    OrderedBy .error fun left right => decide (left < right) where
  only := by
    intro held value same
    cases value with
    | error what => exact ⟨what, rfl⟩
    | _ => cases same
  less_eq := by
    intro left right
    rw [StoredValue.less]

theorem integer :
    OrderedBy .integer fun left right => decide (left < right) where
  only := by
    intro held value same
    cases value with
    | integer number => exact ⟨number, rfl⟩
    | _ => cases same
  less_eq := by
    intro left right
    rw [StoredValue.less]

theorem bulkString : OrderedBy .bulkString (lexicographic byteLess) where
  only := by
    intro held value same
    cases value with
    | bulkString bytes => exact ⟨bytes, rfl⟩
    | _ => cases same
  less_eq := by
    intro left right
    rw [StoredValue.less]

theorem array : OrderedBy .array (lexicographic StoredValue.less) where
  only := by
    intro held value same
    cases value with
    | array elements => exact ⟨elements, rfl⟩
    | _ => cases same
  less_eq := StoredValue.less_array

end OrderedBy

/-! ## The laws of the order -/

theorem StoredValue.less_irreflexiveAt (value : StoredValue) :
    IrreflexiveAt StoredValue.less value := by
  induction value with
  | nil =>
      have law : IrreflexiveAt (fun _ _ : Unit => false) () := rfl
      exact OrderedBy.nil.irreflexiveAt law
  | simpleString text =>
      exact OrderedBy.simpleString.irreflexiveAt (bytesLess_irreflexiveAt text)
  | error what => exact OrderedBy.error.irreflexiveAt (lt_irreflexiveAt what)
  | integer number =>
      exact OrderedBy.integer.irreflexiveAt (lt_irreflexiveAt number)
  | bulkString bytes =>
      exact OrderedBy.bulkString.irreflexiveAt (bytesLess_irreflexiveAt bytes)
  | array elements induction =>
      exact OrderedBy.array.irreflexiveAt
        (lexicographic_irreflexiveAt induction)

theorem StoredValue.less_connectedAt (value : StoredValue) :
    ConnectedAt StoredValue.less value := by
  induction value with
  | nil =>
      have law : ConnectedAt (fun _ _ : Unit => false) () := fun _ _ _ => rfl
      exact OrderedBy.nil.connectedAt law
  | simpleString text =>
      exact OrderedBy.simpleString.connectedAt (bytesLess_connectedAt text)
  | error what => exact OrderedBy.error.connectedAt (lt_connectedAt what)
  | integer number =>
      exact OrderedBy.integer.connectedAt (lt_connectedAt number)
  | bulkString bytes =>
      exact OrderedBy.bulkString.connectedAt (bytesLess_connectedAt bytes)
  | array elements induction =>
      exact OrderedBy.array.connectedAt (lexicographic_connectedAt induction)

theorem StoredValue.less_transitiveAt (value : StoredValue) :
    TransitiveAt StoredValue.less value := by
  induction value with
  | nil =>
      have law : TransitiveAt (fun _ _ : Unit => false) () :=
        fun _ _ isLess _ => isLess
      exact OrderedBy.nil.transitiveAt law
  | simpleString text =>
      exact OrderedBy.simpleString.transitiveAt (bytesLess_transitiveAt text)
  | error what => exact OrderedBy.error.transitiveAt (lt_transitiveAt what)
  | integer number =>
      exact OrderedBy.integer.transitiveAt (lt_transitiveAt number)
  | bulkString bytes =>
      exact OrderedBy.bulkString.transitiveAt (bytesLess_transitiveAt bytes)
  | array elements induction =>
      exact OrderedBy.array.transitiveAt
        (lexicographic_transitiveAt StoredValue.less_connectedAt
          StoredValue.less_irreflexiveAt induction)

theorem StoredValue.less_asymmetric {left right : StoredValue}
    (isLess : left.less right = true) : right.less left = false := by
  cases greater : right.less left with
  | false => rfl
  | true =>
      have itself := left.less_transitiveAt right left isLess greater
      exact absurd itself (Bool.eq_false_iff.mp left.less_irreflexiveAt)

/-- `operator<` is a strict total order: of two values exactly one is less, or
they are the same.  Errors are the same where their texts have one address. -/
theorem less_strictTotalOrder :
    (∀ value : StoredValue, value.less value = false) ∧
    (∀ first second third : StoredValue, first.less second = true →
      second.less third = true → first.less third = true) ∧
    (∀ left right : StoredValue,
      (left.less right = true ∧ right.less left = false ∧ left ≠ right) ∨
      (left.less right = false ∧ right.less left = true ∧ left ≠ right) ∨
      (left.less right = false ∧ right.less left = false ∧ left = right)) := by
  refine ⟨StoredValue.less_irreflexiveAt, StoredValue.less_transitiveAt, ?_⟩
  intro left right
  cases below : left.less right with
  | true =>
      have notAbove := StoredValue.less_asymmetric below
      refine Or.inl ⟨rfl, notAbove, ?_⟩
      rintro rfl
      cases below.symm.trans notAbove
  | false =>
      cases above : right.less left with
      | true =>
          refine Or.inr (Or.inl ⟨rfl, rfl, ?_⟩)
          rintro rfl
          cases below.symm.trans above
      | false =>
          exact Or.inr (Or.inr
            ⟨rfl, rfl, left.less_connectedAt right below above⟩)

end RedisClient
