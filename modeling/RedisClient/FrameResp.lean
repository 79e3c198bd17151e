import RedisClient.Frame
import RedisClient.Resp

/-!
# Frames of complete replies

A complete reply is one item, and an error reply anywhere in it brings the
parsers to a halt there.
-/

namespace RedisClient

open Basis

theorem frame_line {text rest : Bytes} (marker : Marker)
    (noReturn : carriageReturn ∉ text) :
    frame (line marker text rest) =
      lineFrame marker text (lineFeed :: rest) :=
  frame_of_line noReturn

theorem frame_bulk {header rest : Bytes} {count : Nat}
    (natural : Decimal.IsNatural header count) (fits : count ≤ maxSize) :
    frame (line .bulkString header rest) =
      if count + 2 ≤ rest.length then .item (rest.drop (count + 2))
      else .halts .overruns := by
  obtain ⟨size, readSize, value⟩ := stol_of_isNatural natural fits
  have notNull : size ≠ -1 := by
    rintro rfl
    have negative : (-1 : Int64).toInt = -1 := rfl
    omega
  have notNegative : ¬(count : Int) < 0 := by omega
  have sameRoom : count + 3 ≤ rest.length + 1 ↔ count + 2 ≤ rest.length :=
    Nat.succ_le_succ_iff
  rw [frame_line _ (noReturn_of_isNatural natural), lineFrame, readSize]
  simp only [notNull, value, notNegative, if_false, Int.toNat_natCast,
    List.length_cons, List.drop_succ_cons, sameRoom]

theorem frame_array {header rest : Bytes} {count : Nat}
    (natural : Decimal.IsNatural header count) (fits : count ≤ maxSize) :
    frame (line .array header rest) = .announces count rest := by
  obtain ⟨size, readSize, value⟩ := stol_of_isNatural natural fits
  rw [frame_line _ (noReturn_of_isNatural natural), lineFrame, readSize]
  simp only [value, Int.toNat_natCast]

mutual

theorem Spells.passes {reply : Resp} {bytes : Bytes}
    (spelled : Spells reply bytes) (noError : reply.hasError = false)
    (rest : Bytes) : Passes 1 (bytes ++ rest) rest := by
  cases spelled with
  | simple text =>
      rw [line_append]
      exact .item (frame_line _ text.noReturn) (.done rest)
  | error text => cases noError
  | integer numeral =>
      rw [line_append]
      apply Passes.item _ (.done rest)
      rw [frame_line _ (noReturn_of_isNumeral numeral), lineFrame,
        stol_of_isNumeral numeral]
      rfl
  | @bulk header content natural fits =>
      rw [line_append]
      apply Passes.item _ (.done rest)
      have room : content.length + 2 ≤ (payload content [] ++ rest).length := by
        simp
      have behind : (payload content [] ++ rest).drop (content.length + 2) =
          rest := by
        have length : (payload content []).length = content.length + 2 := by
          simp
        rw [← length, List.drop_left]
      rw [frame_bulk natural fits, if_pos room, behind]
  | nullBulk =>
      rw [line_append]
      exact .item (frame_line _ (by decide)) (.done rest)
  | array natural fits spelledItems =>
      rw [line_append]
      exact .array (frame_array natural fits)
        (spelledItems.passes noError rest) (.done rest)
  | nullArray =>
      rw [line_append]
      exact .array (frame_line _ (by decide)) (.done rest) (.done rest)

theorem SpellsAll.passes {items : List Resp} {bytes : Bytes}
    (spelled : SpellsAll items bytes) (noError : Resp.anyError items = false)
    (rest : Bytes) : Passes items.length (bytes ++ rest) rest := by
  cases spelled with
  | nil => exact .done rest
  | @cons item items headBytes tailBytes spelledHead spelledTail =>
      rw [Resp.anyError, Bool.or_eq_false_iff] at noError
      rw [List.append_assoc, List.length_cons, Nat.add_comm]
      exact (spelledHead.passes noError.1 (tailBytes ++ rest)).append
        (spelledTail.passes noError.2 rest)

end

mutual

/-- A complete reply with an error in it stops the parsers at the error. -/
theorem Spells.arrives {reply : Resp} {bytes : Bytes}
    (spelled : Spells reply bytes) (failing : reply.hasError = true)
    (rest : Bytes) :
    Arrives 1 (bytes ++ rest)
      (.stops ClientErrorCode.error.toErrorCode true) := by
  cases spelled with
  | error text =>
      rw [line_append]
      exact .here (frame_line _ text.noReturn)
  | array natural fits spelledItems =>
      rw [line_append]
      exact .inside (frame_array natural fits)
        (spelledItems.arrives failing rest)
  | _ => cases failing

theorem SpellsAll.arrives {items : List Resp} {bytes : Bytes}
    (spelled : SpellsAll items bytes) (failing : Resp.anyError items = true)
    (rest : Bytes) :
    Arrives items.length (bytes ++ rest)
      (.stops ClientErrorCode.error.toErrorCode true) := by
  cases spelled with
  | nil => cases failing
  | @cons item items headBytes tailBytes spelledHead spelledTail =>
      rw [List.append_assoc, List.length_cons, Nat.add_comm]
      cases headFailing : item.hasError with
      | true =>
          exact (spelledHead.arrives headFailing (tailBytes ++ rest)).more _
      | false =>
          rw [Resp.anyError, headFailing, Bool.false_or] at failing
          exact (spelledHead.passes headFailing (tailBytes ++ rest)).arrives
            (spelledTail.arrives failing rest)

end

end RedisClient
