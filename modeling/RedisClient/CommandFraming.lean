import RedisClient.Command
import RedisClient.ReplyLoop

/-!
# What the framing of commands guarantees

Commands of two or more arguments survive the round trip through the reply
parser, also back to back.  The inline format of commands of one argument does
not delimit its argument, and the second part says exactly when two commands,
and two pipelines, can share their bytes.
-/

namespace RedisClient

open Basis

/-! ## Commands read back as replies -/

/-- `load_data` called `count` times, each call from where the one before it
ended. -/
def loadTimes (memory : Bytes) (stop : Nat) :
    Nat → Nat → Execution (List Reply × Nat)
  | 0, it => .returns ([], it)
  | count + 1, it => do
      let (reply, it) ← loadData memory stop it
      let (replies, it) ← loadTimes memory stop count it
      .returns (reply :: replies, it)

theorem SpellsAll.loadTimes_eq {items : List Resp} {bytes : Bytes}
    (spelled : SpellsAll items bytes)
    (ordinary : ∀ item ∈ items, item.Ordinary)
    {memory rest : Bytes} {stop it : Nat}
    (found : memory.drop it = bytes ++ rest)
    (inside : it + bytes.length ≤ stop) :
    loadTimes memory stop items.length it =
      .returns (items.map Resp.toReply, it + bytes.length) := by
  induction items generalizing bytes it with
  | nil =>
      cases spelled
      rfl
  | cons item items induction =>
      cases spelled with
      | @cons _ _ headBytes tailBytes spelledHead spelledTail =>
          rw [List.append_assoc] at found
          rw [List.length_append] at inside
          have headInside : it + headBytes.length ≤ stop := by omega
          have tailInside :
              it + headBytes.length + tailBytes.length ≤ stop := by
            omega
          have itemOrdinary := ordinary item (by simp)
          have headRun := spelledHead.loadData_eq itemOrdinary.readToEnd
            found headInside
          rw [itemOrdinary.reading_eq] at headRun
          have tailRun := induction spelledTail
            (fun later member => ordinary later (by simp [member]))
            (drop_add_of_append found) tailInside
          rw [List.length_append, ← Nat.add_assoc]
          simp only [List.length_cons, loadTimes, headRun, tailRun,
            Outcome.returns_bind, List.map_cons, Resp.toReply]

private theorem anyError_bulk (arguments : List Bytes) :
    Resp.anyError (arguments.map .bulk) = false := by
  simp [Resp.anyError_eq_false_iff, Resp.hasError]

private theorem anyNullArray_bulk (arguments : List Bytes) :
    Resp.anyNullArray (arguments.map .bulk) = false := by
  simp [Resp.anyNullArray_eq_false_iff, Resp.hasNullArray]

theorem argumentArray_ordinary (arguments : List Bytes) :
    (argumentArray arguments).Ordinary :=
  Or.inl ⟨anyError_bulk arguments, anyNullArray_bulk arguments⟩

theorem argumentArray_toReply (arguments : List Bytes) :
    (argumentArray arguments).toReply =
      ⟨.array (arguments.map .bulkString), .success⟩ := by
  simp only [argumentArray, Resp.toReply, Resp.value, Resp.status,
    Resp.valueAll_eq_map, List.map_map]
  rfl

theorem serializedCommands_eq_encodeAll {commands : List Command}
    (several : ∀ command ∈ commands, 2 ≤ command.commands.length) :
    serializedCommands commands =
      Resp.encodeAll
        (commands.map fun command => argumentArray command.commands) := by
  induction commands with
  | nil => rfl
  | cons command commands induction =>
      have tailEncoded :=
        induction fun later member => several later (by simp [member])
      rw [serializedCommands] at tailEncoded
      rw [serializedCommands, List.flatMap_cons, List.map_cons,
        Resp.encodeAll, tailEncoded,
        serializedCommand_array (several command (by simp))]

/-- The reply parser reads a pipeline of commands of at least two arguments
back, one array of bulk strings for each command. -/
theorem loadTimes_serializedCommands {commands : List Command}
    (several : ∀ command ∈ commands, 2 ≤ command.commands.length)
    (fits : (serializedCommands commands).length ≤ maxSize)
    (suffix : Bytes) :
    let buffer := serializedCommands commands
    loadTimes (buffer ++ suffix) (buffer ++ suffix).length commands.length 0 =
      .returns (commands.map fun command =>
        ⟨.array (command.commands.map .bulkString), .success⟩,
        buffer.length) := by
  intro buffer
  have encoded := serializedCommands_eq_encodeAll several
  have spelled : SpellsAll
      (commands.map fun command => argumentArray command.commands) buffer := by
    rw [encoded] at fits
    rw [show buffer = _ from encoded]
    exact Resp.spellsAll_encodeAll fits
  have ordinary : ∀ item ∈
      commands.map fun command => argumentArray command.commands,
      item.Ordinary := by
    intro item member
    obtain ⟨command, commandMember, rfl⟩ := List.mem_map.mp member
    exact argumentArray_ordinary command.commands
  have found : (buffer ++ suffix).drop 0 = buffer ++ suffix := rfl
  have inside : 0 + buffer.length ≤ (buffer ++ suffix).length := by simp
  have run := spelled.loadTimes_eq ordinary found inside
  rw [List.length_map, Nat.zero_add, List.map_map] at run
  rw [run]
  congr 2
  exact List.map_congr_left fun command member =>
    argumentArray_toReply command.commands

/-- The arguments contain CR LF, a header of an array, NUL and nothing. -/
private def framingCommands : List Command :=
  [⟨[[71], [13, 10]]⟩, ⟨[[], [42, 50], [0]]⟩]

theorem loadTimes_framingCommands :
    loadTimes (serializedCommands framingCommands ++ [43]) 45 2 0 =
      .returns ([⟨.array [.bulkString [71], .bulkString [13, 10]], .success⟩,
        ⟨.array [.bulkString [], .bulkString [42, 50], .bulkString [0]],
          .success⟩], 44) :=
  loadTimes_serializedCommands
    (by decide : ∀ command ∈ framingCommands, 2 ≤ command.commands.length)
    (by decide) [43]

/-! ## Commands that share their bytes -/

/-- `Opens front whole`: a command with the arguments `front` sends the
beginning of what one with the other arguments `whole` sends. -/
inductive Opens : List Bytes → List Bytes → Prop where
  | inline {front whole : Bytes} :
      front ++ crlf <+: whole → Opens [front] [whole]
  | inlineArray {front : Bytes} {whole : List Bytes} :
      2 ≤ whole.length → front ++ crlf <+: (argumentArray whole).encode →
      Opens [front] whole
  | arrayInline {front : List Bytes} {whole : Bytes} :
      2 ≤ front.length → (argumentArray front).encode <+: whole ++ crlf →
      Opens front [whole]

/-- The single argument of an inline command is the text of an array, but for
the CR LF that is sent behind it. -/
def Masquerades (inline array : List Bytes) : Prop :=
  2 ≤ array.length ∧
    ∃ argument, inline = [argument] ∧
      argument ++ crlf = (argumentArray array).encode

/-- A command whose arguments cannot disturb the framing: it has at least two,
or its only one is a single line and does not look like the header of an
array of at least two elements. -/
def Framed (arguments : List Bytes) : Prop :=
  2 ≤ arguments.length ∨
    ∃ argument, arguments = [argument] ∧ ¬crlf <:+: argument ∧
      ∀ count, 2 ≤ count →
        argument ≠ Marker.array.byte :: Decimal.print count

private theorem arguments_cases {command : Command}
    (nonempty : command.commands ≠ []) :
    (∃ argument, command = ⟨[argument]⟩) ∨ 2 ≤ command.commands.length := by
  obtain ⟨arguments⟩ := command
  match arguments, nonempty with
  | [argument], nonempty => exact Or.inl ⟨argument, rfl⟩
  | first :: second :: rest, nonempty => exact Or.inr (by simp)

private theorem crlf_front {middle rest otherRest : Bytes}
    (equality : crlf ++ rest = middle ++ (crlf ++ otherRest)) :
    middle = [] ∨ crlf <+: middle := by
  match middle with
  | [] => exact Or.inl rfl
  | [byte] =>
      simp only [crlf, List.cons_append, List.nil_append, List.cons.injEq]
        at equality
      exact absurd equality.2.1 (by decide)
  | first :: second :: middle =>
      simp only [crlf, List.cons_append, List.nil_append, List.cons.injEq]
        at equality
      obtain ⟨rfl, rfl, equality⟩ := equality
      exact Or.inr ⟨middle, rfl⟩

/-- Two texts that are closed by CR LF at the beginning of the same bytes are
equal, or one is closed inside the other. -/
theorem crlf_append_cases {left right leftRest rightRest : Bytes}
    (equality : left ++ crlf ++ leftRest = right ++ crlf ++ rightRest) :
    left = right ∨ left ++ crlf <+: right ∨ right ++ crlf <+: left := by
  rw [List.append_assoc, List.append_assoc, List.append_eq_append_iff]
    at equality
  rcases equality with ⟨middle, rfl, behind⟩ | ⟨middle, rfl, behind⟩
  · rcases crlf_front behind with rfl | inside
    · exact Or.inl (List.append_nil left).symm
    · exact Or.inr (Or.inl ((List.prefix_append_right_inj left).mpr inside))
  · rcases crlf_front behind with rfl | inside
    · exact Or.inl (List.append_nil right)
    · exact Or.inr (Or.inr ((List.prefix_append_right_inj right).mpr inside))

theorem argumentArray_injective : Function.Injective argumentArray := by
  intro left right equality
  simp only [argumentArray, Resp.array.injEq] at equality
  exact List.map_injective_iff.mpr (fun _ _ same => Resp.bulk.inj same)
    equality

theorem opens_iff {front whole : Command}
    (frontNonempty : front.commands ≠ []) (wholeNonempty : whole.commands ≠ [])
    (different : front ≠ whole) :
    Opens front.commands whole.commands ↔
      front.serializedCommand <+: whole.serializedCommand := by
  rcases arguments_cases frontNonempty with ⟨left, rfl⟩ | frontSeveral
  · rcases arguments_cases wholeNonempty with ⟨right, rfl⟩ | wholeSeveral
    · rw [serializedCommand_inline, serializedCommand_inline]
      constructor
      · intro opens
        cases opens with
        | inline isPrefix => exact isPrefix.trans (List.prefix_append _ _)
        | inlineArray several isPrefix => simp at several
        | arrayInline several isPrefix => simp at several
      · rintro ⟨rest, equality⟩
        have lengths := congrArg List.length equality
        simp only [List.length_append] at lengths
        rw [← List.append_nil (right ++ crlf)] at equality
        rcases crlf_append_cases equality with rfl | inside | inside
        · exact absurd rfl different
        · exact .inline inside
        · have insideLe := inside.length_le
          rw [List.length_append] at insideLe
          simp only [crlf, List.length_cons, List.length_nil]
            at lengths insideLe
          omega
    · rw [serializedCommand_inline, serializedCommand_array wholeSeveral]
      constructor
      · intro opens
        generalize whole.commands = arguments at opens wholeSeveral
        cases opens with
        | inline isPrefix => simp at wholeSeveral
        | inlineArray several isPrefix => exact isPrefix
        | arrayInline several isPrefix => simp at several
      · exact Opens.inlineArray wholeSeveral
  · rcases arguments_cases wholeNonempty with ⟨right, rfl⟩ | wholeSeveral
    · rw [serializedCommand_inline, serializedCommand_array frontSeveral]
      constructor
      · intro opens
        generalize front.commands = arguments at opens frontSeveral
        cases opens with
        | inline isPrefix => simp at frontSeveral
        | inlineArray several isPrefix => simp at several
        | arrayInline several isPrefix => exact isPrefix
      · exact Opens.arrayInline frontSeveral
    · rw [serializedCommand_array frontSeveral,
        serializedCommand_array wholeSeveral]
      constructor
      · intro opens
        generalize front.commands = left at opens frontSeveral
        generalize whole.commands = right at opens wholeSeveral
        cases opens with
        | inline isPrefix => simp at frontSeveral
        | inlineArray several isPrefix => simp at frontSeveral
        | arrayInline several isPrefix => simp at wholeSeveral
      · intro isPrefix
        have sameArguments :=
          argumentArray_injective (Resp.eq_of_encode_prefix isPrefix)
        exact absurd (congrArg Command.mk sameArguments) different

theorem serializedCommand_closed {command : Command}
    (nonempty : command.commands ≠ []) :
    ∃ text, command.serializedCommand = text ++ crlf := by
  rcases arguments_cases nonempty with ⟨argument, rfl⟩ | several
  · exact ⟨argument, rfl⟩
  · rw [serializedCommand_array several]
    exact Resp.encode_closed _

/-- What is left of a closed text behind a closed beginning is closed. -/
private theorem closed_rest {front whole rest : Bytes}
    (equality : front ++ crlf ++ rest = whole ++ crlf) :
    rest = [] ∨ ∃ text, rest = text ++ crlf := by
  have isSuffix : rest <:+ whole ++ crlf := ⟨front ++ crlf, equality⟩
  rcases List.suffix_or_suffix_of_suffix (List.suffix_append whole crlf)
    isSuffix with ⟨text, closed⟩ | short
  · exact Or.inr ⟨text, closed.symm⟩
  · simp only [crlf, List.suffix_cons_iff, List.suffix_nil] at short
    rcases short with rfl | rfl | rfl
    · exact Or.inr ⟨[], rfl⟩
    · have reversed := congrArg List.reverse equality
      simp [crlf, carriageReturn, lineFeed] at reversed
    · exact Or.inl rfl

/-- Two commands that send the same bytes are equal, unless one masquerades as
the other. -/
theorem serializedCommand_inj_iff {left right : Command}
    (leftNonempty : left.commands ≠ []) (rightNonempty : right.commands ≠ []) :
    (left.serializedCommand = right.serializedCommand → left = right) ↔
      ¬Masquerades left.commands right.commands ∧
        ¬Masquerades right.commands left.commands := by
  rcases arguments_cases leftNonempty with ⟨argument, rfl⟩ | leftSeveral
  · rcases arguments_cases rightNonempty with ⟨other, rfl⟩ | rightSeveral
    · simp [serializedCommand_inline, Masquerades]
    · rw [serializedCommand_inline, serializedCommand_array rightSeveral]
      have different : Command.mk [argument] ≠ right := by
        rintro rfl
        simp at rightSeveral
      simp [Masquerades, rightSeveral, different]
  · rcases arguments_cases rightNonempty with ⟨other, rfl⟩ | rightSeveral
    · rw [serializedCommand_inline, serializedCommand_array leftSeveral]
      have different : left ≠ Command.mk [other] := by
        rintro rfl
        simp at leftSeveral
      simp [Masquerades, leftSeveral, different, eq_comm]
    · rw [serializedCommand_array leftSeveral,
        serializedCommand_array rightSeveral]
      have notInline {arguments : List Bytes} (several : 2 ≤ arguments.length)
          (argument : Bytes) : arguments ≠ [argument] := by
        rintro rfl
        simp at several
      constructor
      · intro injective
        constructor
        · rintro ⟨several, argument, inline, text⟩
          exact notInline leftSeveral argument inline
        · rintro ⟨several, argument, inline, text⟩
          exact notInline rightSeveral argument inline
      · intro separate equality
        rw [← List.append_nil (argumentArray left.commands).encode,
          ← List.append_nil (argumentArray right.commands).encode] at equality
        exact congrArg Command.mk
          (argumentArray_injective (Resp.encode_append_inj equality).1)

/-- The framing of the first command in which two pipelines differ. -/
theorem serializedCommands_ne_iff {left right : Command}
    (leftNonempty : left.commands ≠ []) (rightNonempty : right.commands ≠ [])
    (different : left ≠ right) :
    (∀ front leftRest rightRest : List Command,
      (∀ command ∈ leftRest ++ rightRest, command.commands ≠ []) →
        serializedCommands (front ++ left :: leftRest) ≠
          serializedCommands (front ++ right :: rightRest)) ↔
      ¬Opens left.commands right.commands ∧
        ¬Opens right.commands left.commands := by
  rw [opens_iff leftNonempty rightNonempty different,
    opens_iff rightNonempty leftNonempty different.symm]
  obtain ⟨leftText, leftClosed⟩ := serializedCommand_closed leftNonempty
  obtain ⟨rightText, rightClosed⟩ := serializedCommand_closed rightNonempty
  constructor
  · intro separate
    constructor
    · rintro ⟨rest, equality⟩
      have closed := equality
      rw [leftClosed, rightClosed] at closed
      rcases closed_rest closed with rfl | ⟨text, rfl⟩
      · apply separate [] [] [] (by simp)
        simpa [serializedCommands] using equality
      · apply separate [] [⟨[text]⟩] [] (by simp)
        simpa [serializedCommands, serializedCommand_inline] using equality
    · rintro ⟨rest, equality⟩
      have closed := equality
      rw [leftClosed, rightClosed] at closed
      rcases closed_rest closed with rfl | ⟨text, rfl⟩
      · apply separate [] [] [] (by simp)
        simpa [serializedCommands] using equality.symm
      · apply separate [] [] [⟨[text]⟩] (by simp)
        simpa [serializedCommands, serializedCommand_inline]
          using equality.symm
  · rintro ⟨leftSeparate, rightSeparate⟩ front leftRest rightRest
      restNonempty equality
    simp only [serializedCommands, List.flatMap_append, List.flatMap_cons,
      List.append_cancel_left_eq] at equality
    rcases List.prefix_or_prefix_of_prefix
      (List.prefix_append left.serializedCommand _)
      (equality ▸ List.prefix_append right.serializedCommand _)
      with leftOpens | rightOpens
    · exact leftSeparate leftOpens
    · exact rightSeparate rightOpens

/-! ## Framed commands -/

private theorem argumentArray_header (arguments : List Bytes) :
    ∃ rest, (argumentArray arguments).encode =
      (Marker.array.byte :: Decimal.print arguments.length) ++ crlf ++ rest :=
  ⟨Resp.encodeAll (arguments.map .bulk), by
    simp [argumentArray, Resp.encode, line, crlf]⟩

private theorem noReturn_arrayHeader (count : Nat) :
    carriageReturn ∉ Marker.array.byte :: Decimal.print count := by
  rw [List.mem_cons, not_or]
  exact ⟨by decide, noReturn_print count⟩

private theorem mem_of_crlf_front {front whole : Bytes}
    (isPrefix : front ++ crlf <+: whole) : carriageReturn ∈ whole :=
  isPrefix.subset (by simp [crlf])

private theorem crlf_inside {front whole : Bytes}
    (isPrefix : front ++ crlf <+: whole) : crlf <:+: whole :=
  (List.suffix_append front crlf).isInfix.trans isPrefix.isInfix

/-- A single line that does not look like the header of an array differs from
it before either is closed. -/
private theorem not_header {argument : Bytes} {count : Nat}
    (oneLine : ¬crlf <:+: argument)
    (noHeader : argument ≠ Marker.array.byte :: Decimal.print count)
    (rest otherRest : Bytes) :
    argument ++ crlf ++ rest ≠
      (Marker.array.byte :: Decimal.print count) ++ crlf ++ otherRest := by
  intro equality
  rcases crlf_append_cases equality with same | inside | inside
  · exact noHeader same
  · exact noReturn_arrayHeader count (mem_of_crlf_front inside)
  · exact oneLine (crlf_inside inside)

theorem Opens.not_framed {front whole : List Bytes}
    (opens : Opens front whole) : ¬(Framed front ∧ Framed whole) := by
  rintro ⟨frontFramed, wholeFramed⟩
  cases opens with
  | @inline front whole isPrefix =>
      rcases wholeFramed with several | ⟨argument, same, oneLine, noHeader⟩
      · simp at several
      · cases same
        exact oneLine (crlf_inside isPrefix)
  | @inlineArray front whole several isPrefix =>
      rcases frontFramed with frontSeveral | ⟨argument, same, oneLine, noHeader⟩
      · simp at frontSeveral
      · cases same
        obtain ⟨rest, equality⟩ := isPrefix
        obtain ⟨body, header⟩ := argumentArray_header whole
        rw [header] at equality
        exact not_header oneLine (noHeader _ several) rest body equality
  | @arrayInline front whole several isPrefix =>
      rcases wholeFramed with wholeSeveral | ⟨argument, same, oneLine, noHeader⟩
      · simp at wholeSeveral
      · cases same
        obtain ⟨rest, equality⟩ := isPrefix
        obtain ⟨body, header⟩ := argumentArray_header front
        rw [header, List.append_assoc, ← List.append_nil (whole ++ crlf)]
          at equality
        exact not_header oneLine (noHeader _ several) [] (body ++ rest)
          equality.symm

theorem Framed.ne_nil {arguments : List Bytes} (framed : Framed arguments) :
    arguments ≠ [] := by
  rintro rfl
  rcases framed with several | ⟨argument, same, shape⟩
  · simp at several
  · cases same

/-- Framed commands can be split off a buffer in one way only. -/
theorem framed_prefixFree :
    PrefixFreeOn {command : Command | Framed command.commands}
      Command.serializedCommand := by
  intro left right leftFramed rightFramed leftRest rightRest equality
  have same : left = right := by
    by_contra different
    rcases List.prefix_or_prefix_of_prefix
      (List.prefix_append left.serializedCommand leftRest)
      (equality ▸ List.prefix_append right.serializedCommand rightRest)
      with isPrefix | isPrefix
    · exact ((opens_iff leftFramed.ne_nil rightFramed.ne_nil different).mpr
        isPrefix).not_framed ⟨leftFramed, rightFramed⟩
    · exact ((opens_iff rightFramed.ne_nil leftFramed.ne_nil
        (Ne.symm different)).mpr isPrefix).not_framed
          ⟨rightFramed, leftFramed⟩
  subst same
  exact ⟨rfl, List.append_cancel_left equality⟩

theorem serializedCommands_inj {left right : List Command}
    (leftFramed : ∀ command ∈ left, Framed command.commands)
    (rightFramed : ∀ command ∈ right, Framed command.commands)
    (equality : serializedCommands left = serializedCommands right) :
    left = right :=
  framed_prefixFree.flatMap_inj
    (fun _ framed => serializedCommand_ne_nil framed.ne_nil)
    leftFramed rightFramed equality

/-- Inline commands that send the elements of an array of empty strings. -/
private def emptyBulks : Nat → List Command
  | 0 => []
  | count + 1 =>
      ⟨[Marker.bulkString.byte :: Decimal.print 0]⟩ :: ⟨[[]]⟩ ::
        emptyBulks count

private theorem emptyBulks_nonempty {count : Nat} :
    ∀ command ∈ emptyBulks count, command.commands ≠ [] := by
  induction count with
  | zero => simp [emptyBulks]
  | succ count induction => simpa [emptyBulks] using induction

private theorem serializedCommands_emptyBulks (count : Nat) :
    serializedCommands (emptyBulks count) =
      Resp.encodeAll ((List.replicate count []).map .bulk) := by
  induction count with
  | zero => rfl
  | succ count induction =>
      rw [serializedCommands] at induction
      rw [serializedCommands, emptyBulks, List.flatMap_cons,
        List.flatMap_cons, induction, List.replicate_succ, List.map_cons,
        Resp.encodeAll, ← List.append_assoc]
      rfl

theorem exists_collision {command : Command}
    (nonempty : command.commands ≠ []) (unframed : ¬Framed command.commands) :
    ∃ left right : List Command,
      (∀ other ∈ left ++ right, other.commands ≠ []) ∧ command ∈ left ∧
        left ≠ right ∧ serializedCommands left = serializedCommands right := by
  rcases arguments_cases nonempty with ⟨argument, rfl⟩ | several
  · by_cases oneLine : crlf <:+: argument
    · obtain ⟨front, rest, rfl⟩ := oneLine
      refine ⟨[⟨[front ++ crlf ++ rest]⟩], [⟨[front]⟩, ⟨[rest]⟩], by simp,
        by simp, by simp, ?_⟩
      simp [serializedCommands, serializedCommand_inline]
    · obtain ⟨count, several, header⟩ : ∃ count, 2 ≤ count ∧
          argument = Marker.array.byte :: Decimal.print count := by
        by_contra noHeader
        exact unframed (Or.inr ⟨argument, rfl, oneLine,
          fun count several header => noHeader ⟨count, several, header⟩⟩)
      refine ⟨⟨[argument]⟩ :: emptyBulks count, [⟨List.replicate count []⟩],
        ?_, by simp, ?_, ?_⟩
      · simp only [List.mem_append, List.mem_cons, List.not_mem_nil, or_false]
        rintro other ((rfl | member) | rfl)
        · simp
        · exact emptyBulks_nonempty other member
        · simp only [ne_eq, List.replicate_eq_nil_iff]
          omega
      · intro equality
        have heads := (List.cons.inj equality).1
        have lengths := congrArg (fun other => other.commands.length) heads
        simp only [List.length_cons, List.length_nil, List.length_replicate]
          at lengths
        omega
      · have replicated :
            2 ≤ (Command.mk (List.replicate count [])).commands.length := by
          simpa using several
        have arrayText := serializedCommand_array replicated
        have bulks := serializedCommands_emptyBulks count
        rw [serializedCommands] at bulks
        simp [serializedCommands, bulks, arrayText, header, argumentArray,
          Resp.encode, line, crlf, serializedCommand_inline]
  · exact absurd (Or.inl several) unframed

/-- When the bytes of commands determine the commands.  Two commands are told
apart unless one masquerades as the other; two pipelines are told apart,
whatever comes later in them, unless one of the first two commands in which
they differ opens the other; commands that are framed are always told apart,
and every other command takes part in a collision. -/
theorem serialized_framing {left right : Command}
    (leftNonempty : left.commands ≠ [])
    (rightNonempty : right.commands ≠ []) :
    ((left.serializedCommand = right.serializedCommand → left = right) ↔
      ¬Masquerades left.commands right.commands ∧
        ¬Masquerades right.commands left.commands) ∧
    (left ≠ right →
      ((∀ front leftRest rightRest : List Command,
        (∀ command ∈ leftRest ++ rightRest, command.commands ≠ []) →
          serializedCommands (front ++ left :: leftRest) ≠
            serializedCommands (front ++ right :: rightRest)) ↔
        ¬Opens left.commands right.commands ∧
          ¬Opens right.commands left.commands)) ∧
    (∀ lefts rights : List Command,
      (∀ command ∈ lefts ++ rights, Framed command.commands) →
        serializedCommands lefts = serializedCommands rights →
          lefts = rights) ∧
    (¬Framed left.commands →
      ∃ lefts rights : List Command,
        (∀ other ∈ lefts ++ rights, other.commands ≠ []) ∧ left ∈ lefts ∧
          lefts ≠ rights ∧
            serializedCommands lefts = serializedCommands rights) := by
  refine ⟨serializedCommand_inj_iff leftNonempty rightNonempty,
    serializedCommands_ne_iff leftNonempty rightNonempty, ?_,
    exists_collision leftNonempty⟩
  intro lefts rights framed equality
  exact serializedCommands_inj
    (fun command member =>
      framed command (List.mem_append_left rights member))
    (fun command member =>
      framed command (List.mem_append_right lefts member))
    equality

/-- `PING` and `G` with CR LF, together and the latter alone. -/
theorem serialized_framing_ping :
    (∀ front leftRest rightRest : List Command,
      (∀ command ∈ leftRest ++ rightRest, command.commands ≠ []) →
        serializedCommands (front ++ ⟨[[80, 73, 78, 71]]⟩ :: leftRest) ≠
          serializedCommands (front ++ ⟨[[71], [13, 10]]⟩ :: rightRest)) ∧
    serializedCommands [⟨[[80, 73, 78, 71]]⟩, ⟨[[71], [13, 10]]⟩] ≠
      serializedCommands [⟨[[71], [13, 10]]⟩] := by
  have separate := (serialized_framing
    (by decide : (Command.mk [[80, 73, 78, 71]]).commands ≠ [])
    (by decide : (Command.mk [[71], [13, 10]]).commands ≠ [])).2.1
    (by decide)
  have noOpens : ¬Opens [[80, 73, 78, 71]] [[71], [13, 10]] ∧
      ¬Opens [[71], [13, 10]] [[80, 73, 78, 71]] := by
    constructor
    · intro opens
      cases opens with
      | inlineArray several isPrefix =>
          exact absurd isPrefix (by decide)
    · intro opens
      cases opens with
      | arrayInline several isPrefix =>
          exact absurd isPrefix (by decide)
  refine ⟨separate.mpr noOpens, ?_⟩
  exact separate.mpr noOpens [] [⟨[[71], [13, 10]]⟩] [] (by decide)

/-- An argument with CR LF in it is two commands, and `*2` with three further
lines is an array. -/
theorem serialized_collisions :
    serializedCommands [⟨[[65, 13, 10, 66]]⟩] =
      serializedCommands [⟨[[65]]⟩, ⟨[[66]]⟩] ∧
    (Command.mk [[42, 50, 13, 10, 36, 49, 13, 10, 97, 13, 10, 36, 49, 13, 10,
        98]]).serializedCommand =
      (Command.mk [[97], [98]]).serializedCommand ∧
    Command.mk [[42, 50, 13, 10, 36, 49, 13, 10, 97, 13, 10, 36, 49, 13, 10,
        98]] ≠ Command.mk [[97], [98]] := by
  decide

end RedisClient
