import RedisClient.ReplyDecoding

/-!
# Nulls and empty values

A position in a reply or in a value is the list of the indices that lead to it.
A reply without errors is decoded position by position, and a null array is the
one kind that does not come out as what it is.
-/

namespace RedisClient

open Basis

/-- The part of the reply at a position. -/
def Resp.nodeAt : Resp → List Nat → Option Resp
  | reply, [] => some reply
  | .array items, index :: path =>
      items[index]?.bind fun item => item.nodeAt path
  | _, _ :: _ => none

/-- The part of the value at a position. -/
def Value.nodeAt : Value → List Nat → Option Value
  | value, [] => some value
  | .array elements, index :: path =>
      elements[index]?.bind fun element => element.nodeAt path
  | _, _ :: _ => none

/-- The value is nil exactly where the reply has a null, and empty exactly where
the reply has something empty of the same kind. -/
structure KeepsNulls (reply : Resp) (value : Value) : Prop where
  nil : ∀ path, value.nodeAt path = some .nil ↔
    reply.nodeAt path = some .nullBulk ∨ reply.nodeAt path = some .nullArray
  emptyArray : ∀ path, value.nodeAt path = some (.array []) ↔
    reply.nodeAt path = some (.array [])
  emptyBulkString : ∀ path, value.nodeAt path = some (.bulkString []) ↔
    reply.nodeAt path = some (.bulk [])

theorem Resp.noError_nodeAt {reply node : Resp} {path : List Nat}
    (noError : reply.hasError = false) (found : reply.nodeAt path = some node) :
    node.hasError = false := by
  induction path generalizing reply with
  | nil =>
      obtain rfl : reply = node := by simpa [Resp.nodeAt] using found
      exact noError
  | cons index path induction =>
      cases reply with
      | array items =>
          obtain ⟨item, itemFound, rest⟩ := Option.bind_eq_some_iff.mp found
          have itemNoError := Resp.anyError_eq_false_iff.mp noError item
            (List.mem_of_getElem? itemFound)
          exact induction itemNoError rest
      | _ => cases found

/-- A reply without errors is decoded position by position. -/
theorem Resp.nodeAt_reading {reply : Resp} (noError : reply.hasError = false)
    (path : List Nat) :
    reply.reading.1.nodeAt path =
      (reply.nodeAt path).map fun node => node.reading.1 := by
  induction path generalizing reply with
  | nil => simp [Resp.nodeAt, Value.nodeAt]
  | cons index path induction =>
      cases reply with
      | array items =>
          have itemsNoError := Resp.anyError_eq_false_iff.mp noError
          rw [Resp.reading_array_of_noError itemsNoError, Value.nodeAt,
            Resp.nodeAt, List.getElem?_map]
          cases found : items[index]? with
          | none => rfl
          | some item =>
              exact induction
                (itemsNoError item (List.mem_of_getElem? found))
      | _ => rfl

theorem Resp.hasNullArray_eq_false_iff {reply : Resp} :
    reply.hasNullArray = false ↔
      ∀ path, reply.nodeAt path ≠ some .nullArray := by
  induction reply with
  | array items induction =>
      rw [Resp.hasNullArray, Resp.anyNullArray_eq_false_iff]
      constructor
      · intro none path
        cases path with
        | nil =>
            intro found
            cases found
        | cons index path =>
            intro found
            obtain ⟨item, itemFound, rest⟩ := Option.bind_eq_some_iff.mp found
            have member := List.mem_of_getElem? itemFound
            exact (induction item member).mp (none item member) path rest
      · intro none item member
        obtain ⟨index, found⟩ := List.mem_iff_getElem?.mp member
        apply (induction item member).mpr
        intro path itemFound
        apply none (index :: path)
        rw [Resp.nodeAt, found]
        exact itemFound
  | nullArray =>
      constructor
      · intro none
        cases none
      · intro none
        exact absurd rfl (none [])
  | _ =>
      constructor
      · intro _ path found
        cases path <;> cases found
      · exact fun _ => rfl

private theorem Resp.reading_cases {node : Resp}
    (noError : node.hasError = false) :
    (node.reading.1 = .nil ↔ node = .nullBulk) ∧
      (node.reading.1 = .array [] ↔ node = .array [] ∨ node = .nullArray) ∧
      (node.reading.1 = .bulkString [] ↔ node = .bulk []) := by
  cases node with
  | error text => cases noError
  | array items =>
      rw [Resp.reading_array_of_noError
        (Resp.anyError_eq_false_iff.mp noError)]
      simp
  | _ => simp [Resp.reading]

private theorem exists_reading_iff {found : Option Resp} {value : Value}
    {kind : Resp → Prop}
    (reads : ∀ node, found = some node → (node.reading.1 = value ↔ kind node)) :
    found.map (fun node => node.reading.1) = some value ↔
      ∃ node, found = some node ∧ kind node := by
  rw [Option.map_eq_some_iff]
  constructor
  · rintro ⟨node, same, read⟩
    exact ⟨node, same, (reads node same).mp read⟩
  · rintro ⟨node, same, held⟩
    exact ⟨node, same, (reads node same).mpr held⟩

theorem Resp.keepsNulls_iff {reply : Resp} (noError : reply.hasError = false) :
    KeepsNulls reply reply.reading.1 ↔ reply.hasNullArray = false := by
  have reads (path : List Nat) (node : Resp)
      (found : reply.nodeAt path = some node) :=
    Resp.reading_cases (Resp.noError_nodeAt noError found)
  rw [Resp.hasNullArray_eq_false_iff]
  constructor
  · intro kept path found
    have decoded := (kept.nil path).mpr (Or.inr found)
    rw [Resp.nodeAt_reading noError, found] at decoded
    cases decoded
  · intro none
    refine ⟨fun path => ?_, fun path => ?_, fun path => ?_⟩
    · rw [Resp.nodeAt_reading noError,
        exists_reading_iff fun node found => (reads path node found).1]
      simp [none path]
    · rw [Resp.nodeAt_reading noError,
        exists_reading_iff fun node found => (reads path node found).2.1]
      constructor
      · rintro ⟨node, found, rfl | rfl⟩
        · exact found
        · exact absurd found (none path)
      · exact fun found => ⟨_, found, Or.inl rfl⟩
    · rw [Resp.nodeAt_reading noError,
        exists_reading_iff fun node found => (reads path node found).2.2]
      simp

/-- `load_data` on a complete reply without errors is a success, and keeps nulls
and empty values apart exactly where the reply has no null array in it. -/
theorem nulls_kept_iff {reply : Resp} {bytes : Bytes}
    (spelled : Spells reply bytes) (noError : reply.hasError = false)
    {memory rest : Bytes} {stop it : Nat}
    (found : memory.drop it = bytes ++ rest)
    (inside : it + bytes.length ≤ stop) :
    (∃ value,
      loadData memory stop it =
        .returns (⟨value, .success⟩, it + bytes.length) ∧
      KeepsNulls reply value) ↔
      reply.hasNullArray = false := by
  have run := spelled.loadData_eq (Or.inl noError) found inside
  have success : reply.reading.2 = .success := by
    rw [reply.readingFits, noError]
    rfl
  rw [success] at run
  constructor
  · rintro ⟨value, valueRun, kept⟩
    cases run.symm.trans valueRun
    exact (Resp.keepsNulls_iff noError).mp kept
  · intro none
    exact ⟨_, run, (Resp.keepsNulls_iff noError).mpr none⟩

/-- `*1`, `$-1`: an array of one null. -/
theorem nulls_kept_iff_nullBulk :
    ∃ value,
      loadData [42, 49, 13, 10, 36, 45, 49, 13, 10] 9 0 =
        .returns (⟨value, .success⟩, 9) ∧
      KeepsNulls (.array [.nullBulk]) value :=
  have spelled : Spells (.array [.nullBulk])
      [42, 49, 13, 10, 36, 45, 49, 13, 10] := Resp.spells_encode (by decide)
  (@nulls_kept_iff _ _ spelled rfl _ [] 9 0 rfl (Nat.le_refl 9)).mpr rfl

/-- `*-1`: the null array is decoded as an empty one. -/
theorem not_nulls_kept_nullArray :
    Spells .nullArray [42, 45, 49, 13, 10] ∧
      loadData [42, 45, 49, 13, 10] 5 0 =
        .returns (⟨.array [], .success⟩, 5) ∧
      ¬KeepsNulls .nullArray (.array []) := by
  refine ⟨.nullArray, rfl, fun kept => ?_⟩
  have decoded : (Value.array []).nodeAt [] = some .nil :=
    (kept.nil []).mpr (Or.inr rfl)
  cases decoded

end RedisClient
