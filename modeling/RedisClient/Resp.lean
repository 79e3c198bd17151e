import RedisClient.Reply

/-!
# RESP replies

`Resp` is the abstract syntax of what a server sends.  `Resp.encode` writes a
reply in the canonical way, `Spells` relates it to every byte string the
protocol accepts for it, and `Resp.value` is the value it denotes.  Nothing
here depends on the parsers; `Resp.reading` records what they make of a reply
whose bytes are complete.
-/

namespace RedisClient

open Basis

/-- A text that fits on one line of the protocol. -/
structure LineText where
  bytes : Bytes
  noReturn : carriageReturn ∉ bytes

inductive Resp where
  | simple (text : LineText)
  | error (text : LineText)
  | integer (number : Int64)
  | bulk (bytes : Bytes)
  | nullBulk
  | array (items : List Resp)
  | nullArray

/-- Induction over replies with one hypothesis for all elements of an array. -/
@[elab_as_elim, induction_eliminator]
theorem Resp.induction {motive : Resp → Prop}
    (simple : ∀ text, motive (.simple text))
    (error : ∀ text, motive (.error text))
    (integer : ∀ number, motive (.integer number))
    (bulk : ∀ bytes, motive (.bulk bytes))
    (nullBulk : motive .nullBulk)
    (array : ∀ items, (∀ item ∈ items, motive item) → motive (.array items))
    (nullArray : motive .nullArray) :
    ∀ reply, motive reply := by
  refine @Resp.rec motive (fun items => ∀ item ∈ items, motive item)
    simple error integer bulk nullBulk array nullArray ?_ ?_
  · intro item member
    cases member
  · intro head tail headHolds tailHolds item member
    rcases List.mem_cons.mp member with rfl | later
    · exact headHolds
    · exact tailHolds item later

/-- A type byte, a text closed by CR LF, and what follows the line. -/
def line (marker : Marker) (text rest : Bytes) : Bytes :=
  marker.byte :: (text ++ carriageReturn :: lineFeed :: rest)

@[simp] theorem line_append (marker : Marker) (text rest suffix : Bytes) :
    line marker text rest ++ suffix = line marker text (rest ++ suffix) := by
  simp [line]

@[simp] theorem length_line (marker : Marker) (text rest : Bytes) :
    (line marker text rest).length = text.length + rest.length + 3 := by
  simp only [line, List.length_cons, List.length_append]
  omega

/-- The bytes of a bulk string behind its header. -/
def payload (bytes rest : Bytes) : Bytes :=
  bytes ++ carriageReturn :: lineFeed :: rest

@[simp] theorem payload_append (bytes rest suffix : Bytes) :
    payload bytes rest ++ suffix = payload bytes (rest ++ suffix) := by
  simp [payload]

@[simp] theorem length_payload (bytes rest : Bytes) :
    (payload bytes rest).length = bytes.length + rest.length + 2 := by
  simp only [payload, List.length_cons, List.length_append]
  omega

/-- The text `-1`, the length of the null replies. -/
def minusOne : Bytes := [Decimal.minusSign, 49]

mutual

/-- RESP2 wire encoding. -/
def Resp.encode : Resp → Bytes
  | .simple text => line .simpleString text.bytes []
  | .error text => line .error text.bytes []
  | .integer number => line .integer (Decimal.printInt number.toInt) []
  | .bulk bytes =>
      line .bulkString (Decimal.print bytes.length) (payload bytes [])
  | .nullBulk => line .bulkString minusOne []
  | .array items =>
      line .array (Decimal.print items.length) (Resp.encodeAll items)
  | .nullArray => line .array minusOne []

/-- The encodings of a list of replies, one after another. -/
def Resp.encodeAll : List Resp → Bytes
  | [] => []
  | item :: items => item.encode ++ Resp.encodeAll items

end

mutual

/-- The value a reply denotes. -/
def Resp.value : Resp → Value
  | .simple text => .simpleString text.bytes
  | .error text => .error ⟨text.bytes⟩
  | .integer number => .integer number
  | .bulk bytes => .bulkString bytes
  | .nullBulk => .nil
  | .array items => .array (Resp.valueAll items)
  | .nullArray => .nil

def Resp.valueAll : List Resp → List Value
  | [] => []
  | item :: items => item.value :: Resp.valueAll items

end

mutual

/-- Whether an error reply occurs anywhere in the reply. -/
def Resp.hasError : Resp → Bool
  | .error _ => true
  | .array items => Resp.anyError items
  | _ => false

def Resp.anyError : List Resp → Bool
  | [] => false
  | item :: items => item.hasError || Resp.anyError items

end

mutual

/-- Whether a null array occurs anywhere in the reply. -/
def Resp.hasNullArray : Resp → Bool
  | .nullArray => true
  | .array items => Resp.anyNullArray items
  | _ => false

def Resp.anyNullArray : List Resp → Bool
  | [] => false
  | item :: items => item.hasNullArray || Resp.anyNullArray items

end

/-- A reply built from simple strings, integers, bulk strings, null bulk
strings and arrays of these. -/
structure Resp.Plain (reply : Resp) : Prop where
  noError : reply.hasError = false
  noNullArray : reply.hasNullArray = false

/-- The replies that are read as they were sent: plain ones and errors that
stand for themselves. -/
def Resp.Ordinary (reply : Resp) : Prop :=
  reply.Plain ∨ ∃ text, reply = .error text

/-- The code that goes with a reply. -/
def Resp.status : Resp → ErrorCode
  | .error _ => ClientErrorCode.error.toErrorCode
  | _ => .success

/-- The `redis::reply` a caller is to see for a reply of the server. -/
def Resp.toReply (reply : Resp) : Reply := ⟨reply.value, reply.status⟩

mutual

/-- The value and the code the parsers produce for a complete reply: the first
error reply in an array stands for the whole array, and a null array is read as
an empty one. -/
def Resp.reading : Resp → Value × ErrorCode
  | .simple text => (.simpleString text.bytes, .success)
  | .error text =>
      (.error ⟨text.bytes⟩, ClientErrorCode.error.toErrorCode)
  | .integer number => (.integer number, .success)
  | .bulk bytes => (.bulkString bytes, .success)
  | .nullBulk => (.nil, .success)
  | .array items => Resp.readingAll items []
  | .nullArray => (.array [], .success)

def Resp.readingAll : List Resp → List Value → Value × ErrorCode
  | [], values => (.array values, .success)
  | item :: items, values =>
      if item.reading.2.isError then (.nil, item.reading.2)
      else Resp.readingAll items (values ++ [item.reading.1])

end

mutual

/-- `Spells reply bytes`: the bytes are a complete encoding of the reply.  An
integer may carry a sign and leading zeros, lengths and counts only the
latter. -/
inductive Spells : Resp → Bytes → Prop where
  | simple (text : LineText) :
      Spells (.simple text) (line .simpleString text.bytes [])
  | error (text : LineText) :
      Spells (.error text) (line .error text.bytes [])
  | integer {header : Bytes} {number : Int64} :
      Decimal.IsNumeral header number.toInt →
      Spells (.integer number) (line .integer header [])
  | bulk {header bytes : Bytes} :
      Decimal.IsNatural header bytes.length → bytes.length ≤ maxSize →
      Spells (.bulk bytes) (line .bulkString header (payload bytes []))
  | nullBulk : Spells .nullBulk (line .bulkString minusOne [])
  | array {header body : Bytes} {items : List Resp} :
      Decimal.IsNatural header items.length → items.length ≤ maxSize →
      SpellsAll items body →
      Spells (.array items) (line .array header body)
  | nullArray : Spells .nullArray (line .array minusOne [])

/-- The bytes spell the replies one after another. -/
inductive SpellsAll : List Resp → Bytes → Prop where
  | nil : SpellsAll [] []
  | cons {item : Resp} {items : List Resp} {bytes rest : Bytes} :
      Spells item bytes → SpellsAll items rest →
      SpellsAll (item :: items) (bytes ++ rest)

end

theorem Resp.encodeAll_eq_flatMap (items : List Resp) :
    Resp.encodeAll items = items.flatMap Resp.encode := by
  induction items with
  | nil => rfl
  | cons item items induction => simp [Resp.encodeAll, induction]

theorem Resp.encodeAll_append (left right : List Resp) :
    Resp.encodeAll (left ++ right) =
      Resp.encodeAll left ++ Resp.encodeAll right := by
  simp only [Resp.encodeAll_eq_flatMap, List.flatMap_append]

theorem Resp.valueAll_eq_map (items : List Resp) :
    Resp.valueAll items = items.map Resp.value := by
  induction items with
  | nil => rfl
  | cons item items induction => simp [Resp.valueAll, induction]

theorem Resp.anyError_eq_false_iff {items : List Resp} :
    Resp.anyError items = false ↔ ∀ item ∈ items, item.hasError = false := by
  induction items with
  | nil => simp [Resp.anyError]
  | cons item items induction => simp [Resp.anyError, induction]

theorem Resp.anyNullArray_eq_false_iff {items : List Resp} :
    Resp.anyNullArray items = false ↔
      ∀ item ∈ items, item.hasNullArray = false := by
  induction items with
  | nil => simp [Resp.anyNullArray]
  | cons item items induction => simp [Resp.anyNullArray, induction]

theorem Resp.encode_ne_nil (reply : Resp) : reply.encode ≠ [] := by
  cases reply <;> simp [Resp.encode, line]

theorem Spells.ne_nil {reply : Resp} {bytes : Bytes}
    (spelled : Spells reply bytes) : bytes ≠ [] := by
  cases spelled <;> simp [line]

/-- A type byte, CR and LF are the least. -/
theorem Spells.three_le_length {reply : Resp} {bytes : Bytes}
    (spelled : Spells reply bytes) : 3 ≤ bytes.length := by
  cases spelled <;> simp

theorem noReturn_of_isNumeral {text : Bytes} {number : Int}
    (numeral : Decimal.IsNumeral text number) : carriageReturn ∉ text := by
  intro member
  rcases numeral.mem_cases member with digit | sign | sign
  · exact absurd digit (by decide)
  · exact absurd sign (by decide)
  · exact absurd sign (by decide)

theorem noReturn_of_isNatural {text : Bytes} {number : Nat}
    (natural : Decimal.IsNatural text number) : carriageReturn ∉ text :=
  noReturn_of_isNumeral natural.isNumeral

private theorem spellsAll_encodeAll {items : List Resp}
    (spelled : ∀ item ∈ items, Spells item item.encode) :
    SpellsAll items (Resp.encodeAll items) := by
  induction items with
  | nil => exact .nil
  | cons item items induction =>
      exact .cons (spelled item (by simp))
        (induction fun later member => spelled later (by simp [member]))

theorem Resp.length_encode_le_encodeAll {items : List Resp} {item : Resp}
    (member : item ∈ items) :
    item.encode.length ≤ (Resp.encodeAll items).length := by
  induction items with
  | nil => cases member
  | cons head tail induction =>
      simp only [Resp.encodeAll, List.length_append]
      rcases List.mem_cons.mp member with rfl | later
      · omega
      · have tailLe := induction later
        omega

theorem Resp.length_le_encodeAll (items : List Resp) :
    items.length ≤ (Resp.encodeAll items).length := by
  induction items with
  | nil => simp
  | cons head tail induction =>
      have headPos := List.length_pos_iff.mpr head.encode_ne_nil
      simp only [Resp.encodeAll, List.length_append, List.length_cons]
      omega

/-- The encoding of a reply that fits into a vector spells it. -/
theorem Resp.spells_encode {reply : Resp}
    (fits : reply.encode.length ≤ maxSize) : Spells reply reply.encode := by
  induction reply with
  | simple text => exact .simple text
  | error text => exact .error text
  | integer number => exact .integer (Decimal.isNumeral_printInt number.toInt)
  | bulk bytes =>
      simp only [Resp.encode, length_line, length_payload] at fits
      exact .bulk (Decimal.isNatural_print bytes.length) (by omega)
  | nullBulk => exact .nullBulk
  | array items induction =>
      simp only [Resp.encode, length_line] at fits
      have countLe := Resp.length_le_encodeAll items
      apply Spells.array (Decimal.isNatural_print items.length) (by omega)
      apply spellsAll_encodeAll
      intro item member
      have itemLe := Resp.length_encode_le_encodeAll member
      exact induction item member (by omega)
  | nullArray => exact .nullArray

theorem Resp.spellsAll_encodeAll {items : List Resp}
    (fits : (Resp.encodeAll items).length ≤ maxSize) :
    SpellsAll items (Resp.encodeAll items) := by
  apply RedisClient.spellsAll_encodeAll
  intro item member
  exact Resp.spells_encode ((Resp.length_encode_le_encodeAll member).trans fits)

/-! ## What the parsers make of a complete reply -/

private theorem readingAll_of_success {items : List Resp}
    (success : ∀ item ∈ items, item.reading = (item.value, .success))
    (values : List Value) :
    Resp.readingAll items values =
      (.array (values ++ Resp.valueAll items), .success) := by
  induction items generalizing values with
  | nil => simp [Resp.readingAll, Resp.valueAll]
  | cons item items induction =>
      have headReading := success item (by simp)
      have tailReading :=
        induction (fun later member => success later (by simp [member]))
          (values ++ [item.value])
      simp [Resp.readingAll, Resp.valueAll, headReading, tailReading]

theorem Resp.Plain.reading_eq {reply : Resp} (plain : reply.Plain) :
    reply.reading = (reply.value, .success) := by
  obtain ⟨noError, noNullArray⟩ := plain
  induction reply with
  | simple text => rfl
  | error text => cases noError
  | integer number => rfl
  | bulk bytes => rfl
  | nullBulk => rfl
  | array items induction =>
      simp only [Resp.hasError, Resp.anyError_eq_false_iff] at noError
      simp only [Resp.hasNullArray,
        Resp.anyNullArray_eq_false_iff] at noNullArray
      simp only [Resp.reading, Resp.value]
      rw [readingAll_of_success fun item member =>
        induction item member (noError item member) (noNullArray item member)]
      simp
  | nullArray => cases noNullArray

theorem Resp.Ordinary.reading_eq {reply : Resp} (ordinary : reply.Ordinary) :
    reply.reading = (reply.value, reply.status) := by
  rcases ordinary with plain | ⟨text, rfl⟩
  · rw [plain.reading_eq]
    cases reply with
    | error text => cases plain.noError
    | _ => rfl
  · rfl

/-- A reply is read without error exactly when it contains none, and then the
code is the default one. -/
def Resp.ReadingFits (reply : Resp) : Prop :=
  reply.reading.2 =
    if reply.hasError then ClientErrorCode.error.toErrorCode else .success

private theorem readingAll_code {items : List Resp}
    (fits : ∀ item ∈ items, item.ReadingFits) (values : List Value) :
    (Resp.readingAll items values).2 =
        (if Resp.anyError items then ClientErrorCode.error.toErrorCode
        else .success) ∧
      (Resp.anyError items = true →
        (Resp.readingAll items values).1 = .nil) := by
  induction items generalizing values with
  | nil => simp [Resp.readingAll, Resp.anyError]
  | cons item items induction =>
      have headFits : item.ReadingFits := fits item (by simp)
      have tailFits := induction
        (fun later member => fits later (by simp [member]))
        (values ++ [item.reading.1])
      unfold Resp.ReadingFits at headFits
      by_cases headError : item.hasError = true
      · simp [Resp.readingAll, Resp.anyError, headFits, headError]
      · simp only [Bool.not_eq_true] at headError
        simpa [Resp.readingAll, Resp.anyError, headFits, headError]
          using tailFits

theorem Resp.readingFits (reply : Resp) : reply.ReadingFits := by
  induction reply with
  | array items induction =>
      unfold Resp.ReadingFits
      rw [Resp.reading, Resp.hasError]
      exact (readingAll_code induction []).1
  | _ => rfl

theorem Resp.isError_reading (reply : Resp) :
    reply.reading.2.isError = reply.hasError := by
  rw [reply.readingFits]
  cases reply.hasError <;> rfl

theorem Resp.reading_array_of_anyError {items : List Resp}
    (failing : Resp.anyError items = true) :
    (Resp.array items).reading =
      (.nil, ClientErrorCode.error.toErrorCode) := by
  have allFit : ∀ item ∈ items, item.ReadingFits :=
    fun item _ => item.readingFits
  obtain ⟨code, value⟩ := readingAll_code allFit []
  rw [failing, if_pos rfl] at code
  rw [Resp.reading]
  exact Prod.ext (value failing) code

private theorem readingAll_of_noError {items : List Resp}
    (noError : ∀ item ∈ items, item.hasError = false) (values : List Value) :
    Resp.readingAll items values =
      (.array (values ++ items.map fun item => item.reading.1), .success) := by
  induction items generalizing values with
  | nil => simp [Resp.readingAll]
  | cons item items induction =>
      have headSuccess : item.reading.2.isError = false := by
        rw [Resp.isError_reading]
        exact noError item (by simp)
      rw [Resp.readingAll, if_neg (by simp [headSuccess]),
        induction fun later member => noError later (by simp [member])]
      simp

theorem Resp.reading_array_of_noError {items : List Resp}
    (noError : ∀ item ∈ items, item.hasError = false) :
    (Resp.array items).reading =
      (.array (items.map fun item => item.reading.1), .success) := by
  rw [Resp.reading, readingAll_of_noError noError, List.nil_append]

end RedisClient
