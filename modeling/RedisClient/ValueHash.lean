import Mathlib.Tactic.Common
import RedisClient.ValueConversion

/-!
# Hashes

A hash is sent as an array in which each key is followed by its value.
`value::as<hash>` goes through such an array two elements at a time, and
`std::map::insert` keeps the entry a map has, so that of two equal keys the
first one counts.
-/

namespace RedisClient

open Basis

/-- `redis::hash`: `std::map` keeps its entries in the order of their keys. -/
abbrev Hash := Std.ExtTreeMap Bytes Value

/-- `value::value(hash)` -/
def Value.ofHash (hash : Hash) : Value :=
  .array (hash.toList.flatMap fun entry => [.simpleString entry.1, entry.2])

/-- `while (it != arr.cend())`, whose body takes the key and then the value
from the array. -/
def pairLoop (it : Nat) : List Value → Hash → Outcome BadCast Hash
  | [], hashMap => .returns hashMap
  | [key], _ => do
      let _ ← key.convert Value.asString
      .faults (it + 1)
  | key :: value :: rest, hashMap => do
      let text ← key.convert Value.asString
      pairLoop (it + 2) rest (hashMap.insertIfNew text value)

/-- `value::as<hash>` -/
def Value.asHash : Value → Outcome BadCast (Option Hash)
  | .array arr =>
      if arr.length % 2 ≠ 0 then .returns none
      else (pairLoop 0 arr ∅).attempt
  | _ => .returns none

/-- The key of the pair at the index has the text. -/
def KeyAt (arr : List Value) (text : Bytes) (index : Nat) : Prop :=
  ∃ key, arr[2 * index]? = some key ∧ key.asString = some text

/-- Arrays that can be read as a hash. -/
structure PairsUp (arr : List Value) : Prop where
  even : arr.length % 2 = 0
  hasText : ∀ index key, arr[2 * index]? = some key →
    key.type.hasText = true

/-- The hash holds the texts of the keys, each bound to what follows the first
key that has it. -/
structure ReadsAs (arr : List Value) (hash : Hash) : Prop where
  keys : ∀ text, text ∈ hash ↔ ∃ index, KeyAt arr text index
  bound : ∀ text index, KeyAt arr text index →
    (∀ earlier < index, ¬KeyAt arr text earlier) →
    hash[text]? = arr[2 * index + 1]?

/-- What follows the first key with the text. -/
def boundTo (text : Bytes) : List Value → Option Value
  | key :: value :: rest =>
      if key.asString = some text then some value else boundTo text rest
  | _ => none

private theorem length_pair {key value : Value} {rest : List Value} :
    (key :: value :: rest).length % 2 = rest.length % 2 := by
  simp [Nat.add_assoc]

private theorem keyAt_zero {key value : Value} {rest : List Value}
    {text : Bytes} :
    KeyAt (key :: value :: rest) text 0 ↔ key.asString = some text := by
  simp [KeyAt]

private theorem keyAt_succ {key value : Value} {rest : List Value}
    {text : Bytes} {index : Nat} :
    KeyAt (key :: value :: rest) text (index + 1) ↔ KeyAt rest text index := by
  simp [KeyAt, Nat.mul_add]

theorem boundTo_isSome_iff {text : Bytes} : (arr : List Value) →
    arr.length % 2 = 0 →
    ((boundTo text arr).isSome = true ↔ ∃ index, KeyAt arr text index)
  | [], _ => by simp [boundTo, KeyAt]
  | [_], even => by cases even
  | key :: value :: rest, even => by
      rw [length_pair] at even
      have tail : (boundTo text rest).isSome = true ↔
          ∃ index, KeyAt rest text index := boundTo_isSome_iff rest even
      rw [boundTo]
      by_cases same : key.asString = some text
      · simp only [same, if_true, Option.isSome_some, true_iff]
        exact ⟨0, keyAt_zero.mpr same⟩
      · rw [if_neg same, tail]
        constructor
        · rintro ⟨index, keyAt⟩
          exact ⟨index + 1, keyAt_succ.mpr keyAt⟩
        · rintro ⟨index, keyAt⟩
          cases index with
          | zero => exact absurd (keyAt_zero.mp keyAt) same
          | succ index => exact ⟨index, keyAt_succ.mp keyAt⟩

theorem boundTo_of_first {text : Bytes} : (arr : List Value) → {index : Nat} →
    KeyAt arr text index → (∀ earlier < index, ¬KeyAt arr text earlier) →
    arr.length % 2 = 0 → boundTo text arr = arr[2 * index + 1]?
  | [], _, keyAt, _, _ => by simp [KeyAt] at keyAt
  | [_], _, _, _, even => by cases even
  | key :: value :: rest, 0, keyAt, _, _ => by
      simp [boundTo, keyAt_zero.mp keyAt]
  | key :: value :: rest, index + 1, keyAt, first, even => by
      have notHead : key.asString ≠ some text := by
        intro same
        exact first 0 (by omega) (keyAt_zero.mpr same)
      rw [length_pair] at even
      have tail := boundTo_of_first rest (keyAt_succ.mp keyAt)
        (fun earlier before keyAt =>
          first (earlier + 1) (by omega) (keyAt_succ.mpr keyAt)) even
      simpa [boundTo, notHead, Nat.mul_add] using tail

theorem pairsUp_cons {key value : Value} {rest : List Value} :
    PairsUp (key :: value :: rest) ↔
      key.type.hasText = true ∧ PairsUp rest := by
  constructor
  · intro pairsUp
    refine ⟨pairsUp.hasText 0 key rfl, ?_, ?_⟩
    · exact length_pair.symm.trans pairsUp.even
    · intro index other found
      exact pairsUp.hasText (index + 1) other (by simpa [Nat.mul_add])
  · rintro ⟨hasText, even, restHasText⟩
    refine ⟨length_pair.trans even, ?_⟩
    intro index other found
    cases index with
    | zero =>
        obtain rfl : key = other := by simpa using found
        exact hasText
    | succ index =>
        exact restHasText index other (by simpa [Nat.mul_add] using found)

/-- An entry that the map has stays; the pairs add what they bind. -/
theorem pairLoop_of_pairsUp : (arr : List Value) → (it : Nat) →
    (hashMap : Hash) → PairsUp arr →
    ∃ result, pairLoop it arr hashMap = .returns result ∧
      ∀ text, result[text]? = hashMap[text]?.or (boundTo text arr)
  | [], _, hashMap, _ => ⟨hashMap, rfl, fun text => by simp [boundTo]⟩
  | [_], _, _, pairsUp => by cases pairsUp.even
  | key :: value :: rest, it, hashMap, pairsUp => by
      obtain ⟨hasText, restPairsUp⟩ := pairsUp_cons.mp pairsUp
      obtain ⟨text, keyText⟩ := Value.exists_asString hasText
      obtain ⟨result, run, found⟩ := pairLoop_of_pairsUp rest (it + 2)
        (hashMap.insertIfNew text value) restPairsUp
      refine ⟨result, ?_, ?_⟩
      · simpa [pairLoop, Value.convert, keyText] using run
      · intro other
        rw [found, boundTo, keyText, Std.ExtTreeMap.getElem?_insertIfNew]
        by_cases same : text = other
        · subst other
          by_cases member : text ∈ hashMap
          · simp [member]
          · simp [member]
        · simp [same]

theorem pairLoop_of_not_pairsUp : (arr : List Value) → (it : Nat) →
    (hashMap : Hash) → arr.length % 2 = 0 → ¬PairsUp arr →
    pairLoop it arr hashMap = .throws .badCast
  | [], _, _, _, unpaired => absurd ⟨rfl, by simp⟩ unpaired
  | [_], _, _, even, _ => by cases even
  | key :: value :: rest, it, hashMap, even, unpaired => by
      rw [length_pair] at even
      cases hasText : key.type.hasText with
      | false => simp [pairLoop, Value.convert, Value.asString_eq_none hasText]
      | true =>
          obtain ⟨text, keyText⟩ := Value.exists_asString hasText
          have restUnpaired : ¬PairsUp rest := fun paired =>
            unpaired (pairsUp_cons.mpr ⟨hasText, paired⟩)
          have tail := pairLoop_of_not_pairsUp rest (it + 2)
            (hashMap.insertIfNew text value) even restUnpaired
          simpa [pairLoop, Value.convert, keyText] using tail

theorem asHash_of_pairsUp {arr : List Value} (pairsUp : PairsUp arr) :
    ∃ hash, (Value.array arr).asHash = .returns (some hash) ∧
      ∀ text, hash[text]? = boundTo text arr := by
  obtain ⟨hash, run, found⟩ := pairLoop_of_pairsUp arr 0 ∅ pairsUp
  refine ⟨hash, ?_, fun text => by simpa using found text⟩
  simp [Value.asHash, pairsUp.even, run, Outcome.attempt]

theorem readsAs_of_boundTo {arr : List Value} {hash : Hash}
    (even : arr.length % 2 = 0)
    (found : ∀ text, hash[text]? = boundTo text arr) : ReadsAs arr hash where
  keys text := by
    rw [← boundTo_isSome_iff arr even, ← found,
      Std.ExtTreeMap.mem_iff_isSome_getElem?]
  bound text index keyAt first := by
    rw [found, boundTo_of_first arr keyAt first even]

theorem asHash_eq_none {value : Value}
    (unpaired : ∀ arr, value = .array arr → ¬PairsUp arr) :
    value.asHash = .returns none := by
  cases value with
  | array arr =>
      rw [Value.asHash]
      by_cases even : arr.length % 2 = 0
      · rw [if_neg (not_not.mpr even),
          pairLoop_of_not_pairsUp arr 0 ∅ even (unpaired arr rfl)]
        rfl
      · rw [if_pos even]
  | _ => rfl

theorem boundTo_entries {entries : List (Bytes × Value)}
    (distinct : entries.Pairwise fun left right => left.1 ≠ right.1)
    (text : Bytes) (bound : Value) :
    boundTo text (entries.flatMap fun entry =>
        [.simpleString entry.1, entry.2]) = some bound ↔
      (text, bound) ∈ entries := by
  induction entries with
  | nil => simp [boundTo]
  | cons entry entries induction =>
      obtain ⟨key, value⟩ := entry
      obtain ⟨headDistinct, tailDistinct⟩ := List.pairwise_cons.mp distinct
      simp only [List.flatMap_cons, List.cons_append, List.nil_append, boundTo,
        Value.asString, List.mem_cons, Prod.mk.injEq]
      by_cases same : key = text
      · subst key
        have absent : (text, bound) ∉ entries := fun member =>
          headDistinct _ member rfl
        simp [absent, eq_comm]
      · simp [same, Ne.symm same, induction tailDistinct]

theorem pairsUp_entries (entries : List (Bytes × Value)) :
    PairsUp (entries.flatMap fun entry =>
      [.simpleString entry.1, entry.2]) := by
  induction entries with
  | nil => exact ⟨rfl, by simp⟩
  | cons entry entries induction =>
      exact pairsUp_cons.mpr ⟨rfl, induction⟩

theorem asHash_ofHash (hash : Hash) :
    (Value.ofHash hash).asHash = .returns (some hash) := by
  obtain ⟨result, run, found⟩ :=
    asHash_of_pairsUp (pairsUp_entries hash.toList)
  have distinct : hash.toList.Pairwise fun left right => left.1 ≠ right.1 :=
    hash.distinct_keys_toList.imp fun apart same => apart (by simp [same])
  have same : result = hash := by
    apply Std.ExtTreeMap.ext_getElem?
    intro text
    apply Option.ext
    intro bound
    rw [found, boundTo_entries distinct,
      Std.ExtTreeMap.mem_toList_iff_getElem?_eq_some]
  rw [Value.ofHash, run, same]

/-- A value is read as a hash exactly when it is an array that pairs up, and
then as the hash that binds every key to what follows it first; every other
value has no reading.  A hash is read back from the value made of it. -/
theorem asHash_exact :
    (∀ value : Value,
      ((∃ hash, value.asHash = .returns (some hash)) ↔
        ∃ arr, value = .array arr ∧ PairsUp arr) ∧
      (∀ hash, value.asHash = .returns (some hash) →
        ∃ arr, value = .array arr ∧ ReadsAs arr hash) ∧
      ((∀ hash, value.asHash ≠ .returns (some hash)) →
        value.asHash = .returns none)) ∧
    ∀ hash : Hash, (Value.ofHash hash).asHash = .returns (some hash) := by
  refine ⟨?_, asHash_ofHash⟩
  intro value
  by_cases paired : ∃ arr, value = .array arr ∧ PairsUp arr
  · obtain ⟨arr, rfl, pairsUp⟩ := paired
    obtain ⟨hash, run, found⟩ := asHash_of_pairsUp pairsUp
    refine ⟨⟨fun _ => ⟨arr, rfl, pairsUp⟩, fun _ => ⟨hash, run⟩⟩, ?_, ?_⟩
    · intro other otherRun
      obtain rfl : hash = other := by
        simpa using run.symm.trans otherRun
      exact ⟨arr, rfl, readsAs_of_boundTo pairsUp.even found⟩
    · intro refused
      exact absurd run (refused hash)
  · have run : value.asHash = .returns none :=
      asHash_eq_none fun arr isArray pairsUp => paired ⟨arr, isArray, pairsUp⟩
    refine ⟨⟨?_, fun pairsUp => absurd pairsUp paired⟩, ?_, fun _ => run⟩
    · rintro ⟨hash, read⟩
      cases run.symm.trans read
    · intro hash read
      cases run.symm.trans read

end RedisClient
