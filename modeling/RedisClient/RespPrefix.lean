import RedisClient.Basis.PrefixFree
import RedisClient.Resp

/-!
# Encodings of replies are prefix free

Every encoding is a line and a body.  The line can be split off because its
text has no CR, and it tells which body follows: a payload of known length, or
known many encodings.  So an encoding can be split off the front of a buffer in
one way only, whatever the bytes of its bulk strings are.
-/

namespace RedisClient

open Basis

/-- The type of the line that opens a reply. -/
def Resp.marker : Resp → Marker
  | .simple _ => .simpleString
  | .error _ => .error
  | .integer _ => .integer
  | .bulk _ => .bulkString
  | .nullBulk => .bulkString
  | .array _ => .array
  | .nullArray => .array

/-- The text of the line that opens a reply. -/
def Resp.header : Resp → Bytes
  | .simple text => text.bytes
  | .error text => text.bytes
  | .integer number => Decimal.printInt number.toInt
  | .bulk bytes => Decimal.print bytes.length
  | .nullBulk => minusOne
  | .array items => Decimal.print items.length
  | .nullArray => minusOne

/-- What follows the line that opens a reply. -/
def Resp.body : Resp → Bytes
  | .bulk bytes => payload bytes []
  | .array items => Resp.encodeAll items
  | _ => []

theorem Resp.encode_eq_line (reply : Resp) :
    reply.encode = line reply.marker reply.header reply.body := by
  cases reply <;> simp [Resp.encode, Resp.marker, Resp.header, Resp.body]

theorem noReturn_print (number : Nat) :
    carriageReturn ∉ Decimal.print number :=
  noReturn_of_isNatural (Decimal.isNatural_print number)

theorem noReturn_printInt (number : Int) :
    carriageReturn ∉ Decimal.printInt number :=
  noReturn_of_isNumeral (Decimal.isNumeral_printInt number)

theorem Resp.noReturn_header (reply : Resp) :
    carriageReturn ∉ reply.header := by
  cases reply with
  | simple text => exact text.noReturn
  | error text => exact text.noReturn
  | integer number => exact noReturn_printInt number.toInt
  | bulk bytes => exact noReturn_print bytes.length
  | nullBulk => decide
  | array items => exact noReturn_print items.length
  | nullArray => decide

theorem line_inj {leftMarker rightMarker : Marker}
    {left right leftRest rightRest : Bytes}
    (leftLine : carriageReturn ∉ left) (rightLine : carriageReturn ∉ right)
    (equality : line leftMarker left leftRest =
      line rightMarker right rightRest) :
    leftMarker = rightMarker ∧ left = right ∧ leftRest = rightRest := by
  simp only [line, List.cons.injEq] at equality
  obtain ⟨sameByte, equality⟩ := equality
  obtain ⟨sameText, equality⟩ := append_mark_inj leftLine rightLine equality
  simp only [List.cons.injEq, true_and] at equality
  exact ⟨Marker.byte_injective sameByte, sameText, equality⟩

/-- The lengths of arrays and bulk strings are not the text `-1`. -/
theorem print_ne_minusOne (number : Nat) :
    Decimal.print number ≠ minusOne := by
  intro equality
  have digit := Decimal.print_isDigit number Decimal.minusSign
    (by simp [equality, minusOne])
  exact absurd digit (by decide)

private theorem toInt_of_printInt_eq {left right : Int64}
    (equality : Decimal.printInt left.toInt =
      Decimal.printInt right.toInt) : left = right := by
  have values : some left.toInt = some right.toInt := by
    rw [← strtol_of_isNumeral (Decimal.isNumeral_printInt left.toInt),
      equality, strtol_of_isNumeral (Decimal.isNumeral_printInt right.toInt)]
  exact Int64.toInt_inj.mp (Option.some.inj values)

private theorem LineText.ext_bytes {left right : LineText}
    (equality : left.bytes = right.bytes) : left = right := by
  cases left
  cases right
  cases equality
  rfl

private theorem split_line {left right : Resp} {leftRest rightRest : Bytes}
    (equality : left.encode ++ leftRest = right.encode ++ rightRest) :
    left.marker = right.marker ∧ left.header = right.header ∧
      left.body ++ leftRest = right.body ++ rightRest := by
  rw [Resp.encode_eq_line, Resp.encode_eq_line, line_append, line_append]
    at equality
  exact line_inj (Resp.noReturn_header _) (Resp.noReturn_header _) equality

/-- An encoding can be split off the front of a buffer in one way only. -/
theorem Resp.encode_append_inj {left right : Resp}
    {leftRest rightRest : Bytes}
    (equality : left.encode ++ leftRest = right.encode ++ rightRest) :
    left = right ∧ leftRest = rightRest := by
  induction left generalizing right leftRest rightRest with
  | simple text =>
      obtain ⟨sameMarker, sameHeader, sameRest⟩ := split_line equality
      cases right with
      | simple other =>
          exact ⟨congrArg _ (LineText.ext_bytes sameHeader), sameRest⟩
      | _ => cases sameMarker
  | error text =>
      obtain ⟨sameMarker, sameHeader, sameRest⟩ := split_line equality
      cases right with
      | error other =>
          exact ⟨congrArg _ (LineText.ext_bytes sameHeader), sameRest⟩
      | _ => cases sameMarker
  | integer number =>
      obtain ⟨sameMarker, sameHeader, sameRest⟩ := split_line equality
      cases right with
      | integer other =>
          exact ⟨congrArg _ (toInt_of_printInt_eq sameHeader), sameRest⟩
      | _ => cases sameMarker
  | bulk bytes =>
      obtain ⟨sameMarker, sameHeader, sameRest⟩ := split_line equality
      cases right with
      | bulk other =>
          have sameLength := Decimal.print_injective sameHeader
          simp only [Resp.body, payload, List.append_assoc, List.cons_append,
            List.nil_append] at sameRest
          obtain ⟨rfl, behind⟩ := List.append_inj sameRest sameLength
          simp only [List.cons.injEq, true_and] at behind
          exact ⟨rfl, behind⟩
      | nullBulk => exact absurd sameHeader (print_ne_minusOne _)
      | _ => cases sameMarker
  | nullBulk =>
      obtain ⟨sameMarker, sameHeader, sameRest⟩ := split_line equality
      cases right with
      | bulk other => exact absurd sameHeader.symm (print_ne_minusOne _)
      | nullBulk => exact ⟨rfl, sameRest⟩
      | _ => cases sameMarker
  | array items induction =>
      obtain ⟨sameMarker, sameHeader, sameRest⟩ := split_line equality
      cases right with
      | array others =>
          simp only [Resp.body, Resp.encodeAll_eq_flatMap] at sameRest
          obtain ⟨rfl, behind⟩ := flatMap_append_inj
            (fun item member other _ rest otherRest =>
              induction item member)
            (Decimal.print_injective sameHeader) sameRest
          exact ⟨rfl, behind⟩
      | nullArray => exact absurd sameHeader (print_ne_minusOne _)
      | _ => cases sameMarker
  | nullArray =>
      obtain ⟨sameMarker, sameHeader, sameRest⟩ := split_line equality
      cases right with
      | array others => exact absurd sameHeader.symm (print_ne_minusOne _)
      | nullArray => exact ⟨rfl, sameRest⟩
      | _ => cases sameMarker

private theorem encodeAll_closed {items : List Resp} (nonempty : items ≠ [])
    (closed : ∀ item ∈ items, ∃ text, item.encode = text ++ crlf) :
    ∃ text, Resp.encodeAll items = text ++ crlf := by
  induction items with
  | nil => exact absurd rfl nonempty
  | cons item items induction =>
      by_cases isLast : items = []
      · subst items
        obtain ⟨text, itemClosed⟩ := closed item (by simp)
        exact ⟨text, by simp [Resp.encodeAll, itemClosed]⟩
      · obtain ⟨text, restClosed⟩ := induction isLast
          fun later member => closed later (by simp [member])
        exact ⟨item.encode ++ text, by simp [Resp.encodeAll, restClosed]⟩

theorem Resp.encode_closed (reply : Resp) :
    ∃ text, reply.encode = text ++ crlf := by
  induction reply with
  | bulk bytes =>
      exact ⟨line .bulkString (Decimal.print bytes.length) bytes, by
        simp [Resp.encode, line, payload, crlf]⟩
  | array items induction =>
      by_cases isEmpty : items = []
      · subst items
        exact ⟨Marker.array.byte :: Decimal.print 0, by
          simp [Resp.encode, Resp.encodeAll, line, crlf]⟩
      · obtain ⟨text, closed⟩ := encodeAll_closed isEmpty induction
        exact ⟨line .array (Decimal.print items.length) text, by
          simp [Resp.encode, closed]⟩
  | simple text =>
      exact ⟨Marker.simpleString.byte :: text.bytes, by
        simp [Resp.encode, line, crlf]⟩
  | error text =>
      exact ⟨Marker.error.byte :: text.bytes, by
        simp [Resp.encode, line, crlf]⟩
  | integer number =>
      exact ⟨Marker.integer.byte :: Decimal.printInt number.toInt, by
        simp [Resp.encode, line, crlf]⟩
  | nullBulk =>
      exact ⟨Marker.bulkString.byte :: minusOne, by
        simp [Resp.encode, line, crlf]⟩
  | nullArray =>
      exact ⟨Marker.array.byte :: minusOne, by
        simp [Resp.encode, line, crlf]⟩

/-- One encoding is never the beginning of another. -/
theorem Resp.eq_of_encode_prefix {left right : Resp}
    (isPrefix : left.encode <+: right.encode) : left = right := by
  obtain ⟨rest, equality⟩ := isPrefix
  rw [← List.append_nil right.encode] at equality
  exact (Resp.encode_append_inj equality).1

theorem prefix_encodeAll {items : List Resp} {bytes : Bytes}
    (isPrefix : bytes <+: Resp.encodeAll items)
    (proper : bytes ≠ Resp.encodeAll items) :
    ∃ done item behind cut, items = done ++ item :: behind ∧
      bytes = Resp.encodeAll done ++ cut ∧ cut <+: item.encode ∧
      cut ≠ item.encode := by
  induction items generalizing bytes with
  | nil => exact absurd (List.prefix_nil.mp isPrefix) proper
  | cons item items induction =>
      rw [Resp.encodeAll] at isPrefix proper
      by_cases inItem : bytes <+: item.encode ∧ bytes ≠ item.encode
      · exact ⟨[], item, items, bytes, rfl, rfl, inItem.1, inItem.2⟩
      · have behindItem : item.encode <+: bytes := by
          rcases List.prefix_or_prefix_of_prefix isPrefix
            (List.prefix_append item.encode _) with inside | outside
          · by_cases whole : bytes = item.encode
            · rw [whole]
            · exact absurd ⟨inside, whole⟩ inItem
          · exact outside
        obtain ⟨rest, rfl⟩ := behindItem
        rw [List.prefix_append_right_inj] at isPrefix
        obtain ⟨done, other, behind, cut, rfl, rfl, cutPrefix, cutProper⟩ :=
          induction isPrefix fun whole => proper (congrArg _ whole)
        exact ⟨item :: done, other, behind, cut, rfl,
          by simp [Resp.encodeAll], cutPrefix, cutProper⟩

end RedisClient
