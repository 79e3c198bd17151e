import RedisClient.CommandBuilders
import RedisClient.CommandFraming

/-!
# Writing a hash and reading it back

`hset` sends a hash as fields and texts, and a server answers `HGETALL` with an
array of the fields and texts it has, in an order of its own.  `as<hash>` makes
of this answer the hash that was sent, each value as its text.
-/

namespace RedisClient

open Basis

/-- The fields with the texts of their values, of those that have one. -/
def textPairs (entries : List (Bytes × Value)) : List (Bytes × Bytes) :=
  entries.filterMap fun entry =>
    entry.2.asString.map fun text => (entry.1, text)

/-- Fields and texts one after another. -/
def inTurn (pairs : List (Bytes × Bytes)) : List Bytes :=
  pairs.flatMap fun pair => [pair.1, pair.2]

/-- The answer to `HGETALL`. -/
def hashAnswer (pairs : List (Bytes × Bytes)) : Resp :=
  argumentArray (inTurn pairs)

/-- A value that comes back as its text. -/
def Value.returned (value : Value) : Option Value :=
  value.asString.map .bulkString

/-! ## What `hset` sends -/

theorem pushBackAll_entries {entries : List (Bytes × Value)}
    (hasText : ∀ entry ∈ entries, entry.2.type.hasText = true)
    (commandStrings : List Bytes) :
    pushBackAll commandStrings entries =
      .returns (commandStrings ++ inTurn (textPairs entries)) := by
  induction entries generalizing commandStrings with
  | nil => simp [pushBackAll, textPairs, inTurn]
  | cons entry entries induction =>
      obtain ⟨text, entryText⟩ :=
        Value.exists_asString (hasText entry List.mem_cons_self)
      have tail := induction
        fun other member => hasText other (List.mem_cons_of_mem entry member)
      simp only [pushBackAll, Item.texts, Value.convert, entryText,
        Outcome.returns_bind, tail]
      simp [textPairs, inTurn, entryText]

theorem pushBackAll_throws {entries : List (Bytes × Value)}
    {entry : Bytes × Value} (member : entry ∈ entries)
    (noText : entry.2.asString = none) (commandStrings : List Bytes) :
    pushBackAll commandStrings entries = .throws .badCast := by
  induction entries generalizing commandStrings with
  | nil => cases member
  | cons head entries induction =>
      cases headText : head.2.asString with
      | none =>
          simp only [pushBackAll, Item.texts, Value.convert, headText,
            Outcome.throws_bind]
      | some text =>
          have later : entry ∈ entries := by
            rcases List.mem_cons.mp member with rfl | later
            · rw [noText] at headText
              cases headText
            · exact later
          simp only [pushBackAll, Item.texts, Value.convert, headText,
            Outcome.returns_bind, induction later]

/-! ## What `HGETALL` is answered -/

theorem mem_textPairs {entries : List (Bytes × Value)} {field text : Bytes} :
    (field, text) ∈ textPairs entries ↔
      ∃ value, (field, value) ∈ entries ∧ value.asString = some text := by
  simp only [textPairs, List.mem_filterMap, Option.map_eq_some_iff,
    Prod.mk.injEq, Prod.exists]
  constructor
  · rintro ⟨_, value, member, _, valueText, rfl, rfl⟩
    exact ⟨value, member, valueText⟩
  · rintro ⟨value, member, valueText⟩
    exact ⟨field, value, member, text, valueText, rfl, rfl⟩

theorem textPairs_distinct {entries : List (Bytes × Value)}
    (distinct : entries.Pairwise fun left right => left.1 ≠ right.1) :
    (textPairs entries).Pairwise fun left right => left.1 ≠ right.1 := by
  apply distinct.filterMap
  rintro left right apart leftPair isLeft rightPair isRight
  obtain ⟨leftText, _, rfl⟩ := Option.map_eq_some_iff.mp isLeft
  obtain ⟨rightText, _, rfl⟩ := Option.map_eq_some_iff.mp isRight
  exact apart

theorem value_hashAnswer (pairs : List (Bytes × Bytes)) :
    (hashAnswer pairs).toReply =
      ⟨.array (pairs.flatMap fun pair =>
        [.bulkString pair.1, .bulkString pair.2]), .success⟩ := by
  rw [hashAnswer, argumentArray_toReply, inTurn, List.map_flatMap]
  rfl

theorem pairsUp_pairs (pairs : List (Bytes × Bytes)) :
    PairsUp (pairs.flatMap fun pair =>
      [.bulkString pair.1, .bulkString pair.2]) := by
  induction pairs with
  | nil => exact ⟨rfl, by simp⟩
  | cons pair pairs induction => exact pairsUp_cons.mpr ⟨rfl, induction⟩

theorem boundTo_pairs {pairs : List (Bytes × Bytes)}
    (distinct : pairs.Pairwise fun left right => left.1 ≠ right.1)
    (field : Bytes) (bound : Value) :
    boundTo field (pairs.flatMap fun pair =>
        [.bulkString pair.1, .bulkString pair.2]) = some bound ↔
      ∃ text, (field, text) ∈ pairs ∧ bound = .bulkString text := by
  induction pairs with
  | nil => simp [boundTo]
  | cons pair pairs induction =>
      obtain ⟨key, contents⟩ := pair
      obtain ⟨headDistinct, tailDistinct⟩ := List.pairwise_cons.mp distinct
      simp only [List.flatMap_cons, List.cons_append, List.nil_append, boundTo,
        Value.asString, Option.some.injEq]
      by_cases same : key = field
      · subst same
        rw [if_pos rfl]
        constructor
        · rintro ⟨⟩
          exact ⟨contents, List.mem_cons_self, rfl⟩
        · rintro ⟨text, member, rfl⟩
          rcases List.mem_cons.mp member with head | later
          · cases head
            rfl
          · exact (headDistinct (key, text) later rfl).elim
      · rw [if_neg same, induction tailDistinct]
        constructor
        · rintro ⟨text, member, isText⟩
          exact ⟨text, List.mem_cons_of_mem _ member, isText⟩
        · rintro ⟨text, member, isText⟩
          rcases List.mem_cons.mp member with head | later
          · cases head
            exact absurd rfl same
          · exact ⟨text, later, isText⟩

/-! ## The way there and back -/

private theorem asHash_hashAnswer {hash : Hash}
    {answered : List (Bytes × Bytes)}
    (perm : answered.Perm (textPairs hash.toList)) :
    ∃ stored, (hashAnswer answered).toReply.value.asHash =
        .returns (some stored) ∧
      ∀ field : Bytes, stored[field]? = hash[field]?.bind Value.returned := by
  obtain ⟨stored, run, found⟩ := asHash_of_pairsUp (pairsUp_pairs answered)
  have distinct : hash.toList.Pairwise fun left right => left.1 ≠ right.1 :=
    hash.distinct_keys_toList.imp fun apart same => apart (by simp [same])
  have answeredDistinct :
      answered.Pairwise fun left right => left.1 ≠ right.1 :=
    (perm.pairwise_iff fun apart => Ne.symm apart).mpr
      (textPairs_distinct distinct)
  rw [value_hashAnswer]
  refine ⟨stored, run, ?_⟩
  intro field
  apply Option.ext
  intro bound
  rw [found, boundTo_pairs answeredDistinct, Option.bind_eq_some_iff]
  constructor
  · rintro ⟨text, member, rfl⟩
    obtain ⟨value, inHash, valueText⟩ :=
      mem_textPairs.mp (perm.mem_iff.mp member)
    refine ⟨value, ?_, by rw [Value.returned, valueText]; rfl⟩
    exact Std.ExtTreeMap.mem_toList_iff_getElem?_eq_some.mp inHash
  · rintro ⟨value, inHash, isReturned⟩
    obtain ⟨text, valueText, rfl⟩ := Option.map_eq_some_iff.mp isReturned
    refine ⟨text, perm.mem_iff.mpr (mem_textPairs.mpr ⟨value, ?_, valueText⟩),
      rfl⟩
    exact Std.ExtTreeMap.mem_toList_iff_getElem?_eq_some.mpr inHash

/-- What comes back has the same text, and an integer is read as the same
number. -/
private theorem reads_returned (value : Value) :
    value.returned.bind Value.asString = value.asString ∧
      ∀ number, value = .integer number →
        value.returned.bind Value.asInt64 = some number := by
  constructor
  · rw [Value.returned]
    cases value.asString with
    | none => rfl
    | some text => rfl
  · rintro number rfl
    have read : stol (Decimal.printInt number.toInt) = .ok number :=
      stol_printInt number
    simp only [Value.returned, Value.asString, Option.map_some,
      Option.bind_some, Value.asInt64, read]
    rfl

/-- The reading agrees with the hash that was sent: every field has its text,
and every integer its number. -/
structure ReadsBack (hash stored : Hash) : Prop where
  values : ∀ field : Bytes,
    stored[field]? = hash[field]?.bind Value.returned
  texts : ∀ field : Bytes,
    stored[field]?.bind Value.asString = hash[field]?.bind Value.asString
  integers : ∀ (field : Bytes) number, hash[field]? = some (.integer number) →
    stored[field]?.bind Value.asInt64 = some number

private theorem readsBack_of_values {hash stored : Hash}
    (values : ∀ field : Bytes,
      stored[field]? = hash[field]?.bind Value.returned) :
    ReadsBack hash stored where
  values := values
  texts := by
    intro field
    rw [values, Option.bind_assoc]
    exact congrArg (hash[field]?.bind ·)
      (funext fun value => (reads_returned value).1)
  integers := by
    intro field number bound
    rw [values, bound]
    exact (reads_returned (.integer number)).2 number rfl

/-- `hset` throws where a value has no text, and otherwise sends every field
with the text of its value.  If these come back as the answer to `HGETALL`, in
whatever order and whatever bytes they contain, then `as<hash>` gives the hash
that was sent, with every value as its text. -/
theorem hgetall_hset (key : Bytes) (hash : Hash) (params : List Bytes) :
    ((∃ entry ∈ hash.toList, entry.2.asString = none) →
      hsetMap key hash params = .throws .badCast) ∧
    ((∀ entry ∈ hash.toList, entry.2.type.hasText = true) →
      hsetMap key hash params =
          .returns ⟨[ascii "HSET", key] ++ inTurn (textPairs hash.toList) ++
            params⟩ ∧
        ∀ answered following,
          answered.Perm (textPairs hash.toList) →
          (hashAnswer answered).encode.length ≤ maxSize →
          ∃ reply stored,
            loadData ((hashAnswer answered).encode ++ following)
                ((hashAnswer answered).encode ++ following).length 0 =
              .returns (reply, (hashAnswer answered).encode.length) ∧
            reply.error = .success ∧
            reply.value.asHash = .returns (some stored) ∧
            ReadsBack hash stored) := by
  constructor
  · rintro ⟨entry, member, noText⟩
    have thrown := pushBackAll_throws member noText [ascii "HSET", key]
    rw [hsetMap, multiItem, thrown, Outcome.throws_bind]
  · intro hasText
    constructor
    · have pushed := pushBackAll_entries hasText [ascii "HSET", key]
      rw [hsetMap, multiItem, pushed, Outcome.returns_bind]
    · intro answered following perm fits
      have ordinary := argumentArray_ordinary (inTurn answered)
      have loaded := @Resp.loadData_reading (hashAnswer answered)
        ordinary.readToEnd fits following
      obtain ⟨stored, asHash, values⟩ := asHash_hashAnswer perm
      rw [hashAnswer, ordinary.reading_eq] at loaded
      refine ⟨(hashAnswer answered).toReply, stored, loaded, ?_, asHash,
        readsBack_of_values values⟩
      rw [value_hashAnswer]

end RedisClient
