import RedisClient.ReplyTranslation
import RedisClient.Resp

/-!
# Decoding complete replies

`parse_reply` on a memory that holds a complete reply at the cursor.  The two
main lemmas are proved together over the derivation that spells the reply, for
an arbitrary continuation of the memory, so that they compose along arrays and
pipelines.
-/

namespace RedisClient

open Basis

/-- The replies the parsers read to their last byte: everything but arrays in
which an error reply occurs. -/
def Resp.ReadToEnd (reply : Resp) : Prop :=
  reply.hasError = false ∨ ∃ text, reply = .error text

theorem Resp.Plain.readToEnd {reply : Resp} (plain : reply.Plain) :
    reply.ReadToEnd :=
  Or.inl plain.noError

theorem Resp.Ordinary.readToEnd {reply : Resp} (ordinary : reply.Ordinary) :
    reply.ReadToEnd :=
  ordinary.imp_left Resp.Plain.noError

theorem Resp.readToEnd_error (text : LineText) :
    (Resp.error text).ReadToEnd :=
  Or.inr ⟨text, rfl⟩

private theorem stol_minusOne : stol minusOne = .ok (-1) := rfl

theorem parseReply_line
    {memory text body rest : Bytes} {marker : Marker} {stop it : Nat}
    (found : memory.drop it = line marker text body ++ rest)
    (noReturn : carriageReturn ∉ text)
    (inside : it + (line marker text body).length ≤ stop) :
    memory.drop (it + (text.length + 3)) = body ++ rest ∧
      parseReply memory stop it =
        finishLine memory stop text (it + (text.length + 3)) marker := by
  rw [line_append] at found
  rw [length_line] at inside
  have sameIt : it + 1 + text.length + 2 = it + (text.length + 3) := by omega
  have before : it + 1 + text.length < stop := by omega
  have run := parseReply_of_line found noReturn before
  have behindText := drop_add_of_append (drop_succ_of_cons found)
  have behindLine :
      memory.drop (it + 1 + text.length + 2) = body ++ rest :=
    drop_succ_of_cons (drop_succ_of_cons behindText)
  rw [sameIt] at run behindLine
  exact ⟨behindLine, run⟩

mutual

theorem Spells.parseReply_eq {reply : Resp} {bytes : Bytes}
    (spelled : Spells reply bytes) {memory rest : Bytes} {stop it : Nat}
    (found : memory.drop it = bytes ++ rest)
    (inside : it + bytes.length ≤ stop) :
    ∃ consumed, consumed ≤ bytes.length ∧
      (reply.ReadToEnd → consumed = bytes.length) ∧
      parseReply memory stop it =
        .returns ⟨reply.reading.1, reply.reading.2, it + consumed⟩ := by
  cases spelled with
  | simple text =>
      obtain ⟨behind, run⟩ := parseReply_line found text.noReturn inside
      exact ⟨_, Nat.le_refl _, fun _ => rfl, by rw [run, length_line]; rfl⟩
  | error text =>
      obtain ⟨behind, run⟩ := parseReply_line found text.noReturn inside
      exact ⟨_, Nat.le_refl _, fun _ => rfl, by rw [run, length_line]; rfl⟩
  | @integer header number numeral =>
      obtain ⟨behind, run⟩ :=
        parseReply_line found (noReturn_of_isNumeral numeral) inside
      refine ⟨_, Nat.le_refl _, fun _ => rfl, ?_⟩
      rw [run, finishLine, stol_of_isNumeral numeral, length_line]
      rfl
  | @bulk header content natural fits =>
      obtain ⟨behind, run⟩ :=
        parseReply_line found (noReturn_of_isNatural natural) inside
      obtain ⟨size, readSize, value⟩ := stol_of_isNatural natural fits
      have notNull : size ≠ -1 := by
        rintro rfl
        have negative : (-1 : Int64).toInt = -1 := rfl
        omega
      rw [payload_append] at behind
      refine ⟨_, Nat.le_refl _, fun _ => rfl, ?_⟩
      rw [run, finishLine, readSize, length_line, length_payload]
      simp only [notNull, if_false, resize_of_nonneg value,
        copy_of_drop behind, Outcome.returns_bind, Resp.reading,
        List.length_nil]
      congr 2
      omega
  | nullBulk =>
      obtain ⟨behind, run⟩ := parseReply_line found (by decide) inside
      refine ⟨_, Nat.le_refl _, fun _ => rfl, ?_⟩
      rw [run, finishLine, stol_minusOne, length_line]
      rfl
  | @array header body items natural fits spelledItems =>
      obtain ⟨behind, run⟩ :=
        parseReply_line found (noReturn_of_isNatural natural) inside
      obtain ⟨size, readSize, value⟩ := stol_of_isNatural natural fits
      rw [length_line] at inside ⊢
      have itemsInside :
          it + (header.length + 3) + body.length ≤ stop := by
        omega
      obtain ⟨consumed, consumedLe, consumedAll, itemsRun⟩ :=
        spelledItems.parseElements_eq behind itemsInside []
      have count : size.toInt.toNat = items.length := by omega
      refine ⟨header.length + consumed + 3, by omega, ?_, ?_⟩
      · rintro (noError | ⟨text, impossible⟩)
        · rw [consumedAll noError]
        · cases impossible
      · rw [run, finishLine, readSize]
        simp only [count, itemsRun, Resp.reading]
        congr 2
        omega
  | nullArray =>
      obtain ⟨behind, run⟩ := parseReply_line found (by decide) inside
      refine ⟨_, Nat.le_refl _, fun _ => rfl, ?_⟩
      rw [run, finishLine, stol_minusOne, length_line]
      rfl

theorem SpellsAll.parseElements_eq {items : List Resp} {bytes : Bytes}
    (spelled : SpellsAll items bytes) {memory rest : Bytes} {stop it : Nat}
    (found : memory.drop it = bytes ++ rest)
    (inside : it + bytes.length ≤ stop) (values : List Value) :
    ∃ consumed, consumed ≤ bytes.length ∧
      (Resp.anyError items = false → consumed = bytes.length) ∧
      parseElements (parseReply memory stop) stop items.length it values
          .success =
        .returns ⟨(Resp.readingAll items values).1,
          (Resp.readingAll items values).2, it + consumed⟩ := by
  cases spelled with
  | nil => exact ⟨0, by simp, by simp, rfl⟩
  | @cons item items headBytes tailBytes spelledHead spelledTail =>
      rw [List.append_assoc] at found
      rw [List.length_append] at inside
      have headPos := List.length_pos_iff.mpr spelledHead.ne_nil
      have notStop : it ≠ stop := by omega
      have headInside : it + headBytes.length ≤ stop := by omega
      have tailInside : it + headBytes.length + tailBytes.length ≤ stop := by
        omega
      obtain ⟨headConsumed, headLe, headAll, headRun⟩ :=
        spelledHead.parseReply_eq found headInside
      simp only [List.length_cons, parseElements, notStop, if_false, headRun,
        Outcome.returns_bind, Resp.readingAll, Resp.isError_reading]
      cases headError : item.hasError with
      | true =>
          refine ⟨headConsumed, ?_, ?_, rfl⟩
          · rw [List.length_append]
            omega
          · simp [Resp.anyError, headError]
      | false =>
          have success : item.reading.2 = .success := by
            rw [item.readingFits, headError]
            rfl
          obtain rfl := headAll (Or.inl headError)
          obtain ⟨consumed, consumedLe, consumedAll, run⟩ :=
            spelledTail.parseElements_eq (drop_add_of_append found) tailInside
              (values ++ [item.reading.1])
          refine ⟨headBytes.length + consumed, ?_, ?_, ?_⟩
          · rw [List.length_append]
            omega
          · intro noError
            rw [Resp.anyError, headError, Bool.false_or] at noError
            rw [consumedAll noError, List.length_append]
          · simp only [success, run, Bool.false_eq_true, if_false]
            congr 2
            omega

end

/-- `load_data` on a complete reply, at any place of any memory. -/
theorem Spells.loadData_eq {reply : Resp} {bytes : Bytes}
    (spelled : Spells reply bytes) (readToEnd : reply.ReadToEnd)
    {memory rest : Bytes} {stop it : Nat}
    (found : memory.drop it = bytes ++ rest)
    (inside : it + bytes.length ≤ stop) :
    loadData memory stop it =
      .returns (⟨reply.reading.1, reply.reading.2⟩, it + bytes.length) := by
  obtain ⟨consumed, consumedLe, consumedAll, run⟩ :=
    spelled.parseReply_eq found inside
  simp only [loadData, run, consumedAll readToEnd, Outcome.returns_bind]

/-- An array with an error reply in it is read as nil; the iterator is left
somewhere inside the array or at its end. -/
theorem Spells.loadData_of_anyError {items : List Resp} {bytes : Bytes}
    (spelled : Spells (.array items) bytes)
    (failing : Resp.anyError items = true)
    {memory rest : Bytes} {stop it : Nat}
    (found : memory.drop it = bytes ++ rest)
    (inside : it + bytes.length ≤ stop) :
    ∃ consumed, consumed ≤ bytes.length ∧
      loadData memory stop it =
        .returns (⟨.nil, ClientErrorCode.error.toErrorCode⟩,
          it + consumed) := by
  obtain ⟨consumed, consumedLe, consumedAll, run⟩ :=
    spelled.parseReply_eq found inside
  refine ⟨consumed, consumedLe, ?_⟩
  simp only [loadData, run, Outcome.returns_bind,
    Resp.reading_array_of_anyError failing]

theorem Resp.loadData_reading {reply : Resp}
    (readToEnd : reply.ReadToEnd) (fits : reply.encode.length ≤ maxSize)
    (suffix : Bytes) :
    loadData (reply.encode ++ suffix) (reply.encode ++ suffix).length 0 =
      .returns (⟨reply.reading.1, reply.reading.2⟩, reply.encode.length) := by
  have found : (reply.encode ++ suffix).drop 0 = reply.encode ++ suffix := rfl
  have inside : 0 + reply.encode.length ≤ (reply.encode ++ suffix).length := by
    simp
  have run := (Resp.spells_encode fits).loadData_eq readToEnd found inside
  rwa [Nat.zero_add] at run

end RedisClient
