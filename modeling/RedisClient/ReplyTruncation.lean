import RedisClient.FrameAdequacy
import RedisClient.FrameResp
import RedisClient.RespPrefix

/-!
# Truncated replies

What `load_data` reports for a proper prefix of the encoding of a reply.  The
prefixes it reports as truncated are those that end where a parser tests for
the end: before a reply, behind its type byte, inside the text of a line other
than a simple string, and at such a place of an element of an array before
which no error reply stands.
-/

namespace RedisClient

open Basis

/-- The prefixes of an encoding that end where the parsers test for the end. -/
inductive CleanCut : Resp → Bytes → Prop where
  | nothing (reply : Resp) : CleanCut reply []
  | header {reply : Resp} {text : Bytes} :
      text <+: reply.header → reply.marker ≠ .simpleString ∨ text = [] →
      CleanCut reply (reply.marker.byte :: text)
  | element {done behind : List Resp} {item : Resp} {cut : Bytes} :
      Resp.anyError done = false → CleanCut item cut →
      CleanCut (.array (done ++ item :: behind))
        (line .array (Decimal.print (done ++ item :: behind).length)
          (Resp.encodeAll done ++ cut))

/-- `load_data` reports that the buffer ends too early, and nothing else. -/
def ReportedTruncated (bytes : Bytes) : Prop :=
  ∃ next, loadData bytes bytes.length 0 =
    .returns (⟨.nil, ParseErrorCode.eof.toErrorCode⟩, next)

private theorem openFrame_clean {marker : Marker} {text : Bytes}
    (clean : marker ≠ .simpleString ∨ text = []) :
    openFrame marker text =
      .halts (.stops ParseErrorCode.eof.toErrorCode true) := by
  cases text with
  | nil => cases marker <;> rfl
  | cons byte text => cases marker <;> simp_all [openFrame]

private theorem fits_of_array {done behind : List Resp} {item : Resp}
    (fits : (Resp.array (done ++ item :: behind)).encode.length ≤ maxSize) :
    (Resp.encodeAll done).length ≤ maxSize ∧
      item.encode.length ≤ maxSize ∧
      (done ++ item :: behind).length ≤ maxSize := by
  have countLe := Resp.length_le_encodeAll (done ++ item :: behind)
  simp only [Resp.encode, length_line] at fits
  have split : (Resp.encodeAll (done ++ item :: behind)).length =
      (Resp.encodeAll done).length + (item.encode.length +
        (Resp.encodeAll behind).length) := by
    rw [Resp.encodeAll_append, Resp.encodeAll, List.length_append,
      List.length_append]
  omega

theorem CleanCut.arrives {reply : Resp} {bytes : Bytes}
    (clean : CleanCut reply bytes) (fits : reply.encode.length ≤ maxSize) :
    Arrives 1 bytes (.stops ParseErrorCode.eof.toErrorCode true) := by
  induction clean with
  | nothing reply => exact .here rfl
  | @header reply text isPrefix clean =>
      have noReturn : carriageReturn ∉ text :=
        fun member => reply.noReturn_header (isPrefix.subset member)
      exact .here ((frame_of_noReturn noReturn).trans (openFrame_clean clean))
  | @element done behind item cut noError clean induction =>
      obtain ⟨doneFits, itemFits, countFits⟩ := fits_of_array fits
      have natural := Decimal.isNatural_print (done ++ item :: behind).length
      have passes :=
        (Resp.spellsAll_encodeAll doneFits).passes noError cut
      have arrives := passes.arrives ((induction itemFits).more behind.length)
      apply Arrives.inside (frame_array natural countFits)
      rwa [List.length_append, List.length_cons, Nat.add_comm behind.length]

/-! ## The other prefixes -/

theorem prefix_line {marker : Marker} {text rest bytes : Bytes}
    (isPrefix : bytes <+: line marker text rest) :
    bytes = [] ∨
      (∃ front, front <+: text ∧ bytes = marker.byte :: front) ∨
      bytes = marker.byte :: (text ++ [carriageReturn]) ∨
      ∃ front, front <+: rest ∧ bytes = line marker text front := by
  cases bytes with
  | nil => exact Or.inl rfl
  | cons byte bytes =>
      rw [line, List.cons_prefix_cons] at isPrefix
      obtain ⟨rfl, isPrefix⟩ := isPrefix
      right
      rcases List.prefix_or_prefix_of_prefix isPrefix
        (List.prefix_append text _) with inText | ⟨front, rfl⟩
      · exact Or.inl ⟨bytes, inText, rfl⟩
      · rw [List.prefix_append_right_inj] at isPrefix
        cases front with
        | nil => exact Or.inl ⟨text, List.prefix_rfl, by simp⟩
        | cons first front =>
            rw [List.cons_prefix_cons] at isPrefix
            obtain ⟨rfl, isPrefix⟩ := isPrefix
            cases front with
            | nil => exact Or.inr (Or.inl rfl)
            | cons second front =>
                rw [List.cons_prefix_cons] at isPrefix
                obtain ⟨rfl, isPrefix⟩ := isPrefix
                exact Or.inr (Or.inr ⟨front, isPrefix, rfl⟩)

/-- A line that is cut off behind its CR is not taken for a line that is cut
off before it. -/
private theorem lineFrame_nil (marker : Marker) (text : Bytes) :
    ∃ halt, lineFrame marker text [] = .halts halt ∧
      ∀ inside, halt ≠ .stops ParseErrorCode.eof.toErrorCode inside := by
  cases marker with
  | simpleString => exact ⟨.overruns, rfl, by simp⟩
  | error => exact ⟨_, rfl, by decide⟩
  | integer =>
      simp only [lineFrame]
      cases stol text with
      | ok number => exact ⟨.overruns, rfl, by simp⟩
      | error exception => exact ⟨_, rfl, by decide⟩
  | bulkString =>
      simp only [lineFrame]
      cases stol text with
      | ok size =>
          simp only
          split
          · exact ⟨.overruns, rfl, by simp⟩
          · split
            · exact ⟨.throws .lengthError, rfl, by simp⟩
            · exact ⟨.overruns, by simp, by simp⟩
      | error exception => exact ⟨_, rfl, by decide⟩
  | array =>
      simp only [lineFrame]
      cases stol text with
      | ok size => exact ⟨.overruns, rfl, by simp⟩
      | error exception => exact ⟨.throws exception, rfl, by simp⟩

/-- The parsers come to a halt, but do not take the end of the buffer for the
reason. -/
def HaltsOtherwise (bytes : Bytes) : Prop :=
  ∃ halt, Arrives 1 bytes halt ∧
    ∀ inside, halt ≠ .stops ParseErrorCode.eof.toErrorCode inside

private theorem cut_cases {reply : Resp} {bytes : Bytes}
    (isPrefix : bytes <+: reply.encode) (proper : bytes ≠ reply.encode) :
    CleanCut reply bytes ∨ HaltsOtherwise bytes ∨
      ∃ front, front <+: reply.body ∧ front ≠ reply.body ∧
        bytes = line reply.marker reply.header front := by
  rw [Resp.encode_eq_line] at isPrefix proper
  rcases prefix_line isPrefix with rfl | ⟨front, inHeader, rfl⟩ | rfl |
    ⟨front, inBody, rfl⟩
  · exact Or.inl (.nothing reply)
  · by_cases clean : reply.marker ≠ .simpleString ∨ front = []
    · exact Or.inl (.header inHeader clean)
    · simp only [ne_eq, not_or, not_not] at clean
      have noReturn : carriageReturn ∉ front :=
        fun member => reply.noReturn_header (inHeader.subset member)
      obtain ⟨byte, text, rfl⟩ := List.exists_cons_of_ne_nil clean.2
      have found : frame (reply.marker.byte :: byte :: text) =
          openFrame reply.marker (byte :: text) := frame_of_noReturn noReturn
      rw [clean.1] at found ⊢
      exact Or.inr (Or.inl ⟨.overruns, .here found, by simp⟩)
  · obtain ⟨halt, found, notEof⟩ := lineFrame_nil reply.marker reply.header
    exact Or.inr (Or.inl ⟨halt,
      .here ((frame_of_line reply.noReturn_header).trans found), notEof⟩)
  · exact Or.inr (Or.inr
      ⟨front, inBody, fun whole => proper (congrArg _ whole), rfl⟩)

theorem cleanCut_or_haltsOtherwise {reply : Resp} {bytes : Bytes}
    (fits : reply.encode.length ≤ maxSize)
    (isPrefix : bytes <+: reply.encode) (proper : bytes ≠ reply.encode) :
    CleanCut reply bytes ∨ HaltsOtherwise bytes := by
  induction reply generalizing bytes with
  | bulk content =>
      rcases cut_cases isPrefix proper with clean | otherwise |
        ⟨front, inBody, bodyProper, rfl⟩
      · exact Or.inl clean
      · exact Or.inr otherwise
      · have shorter : front.length < content.length + 2 := by
          have lengthLe := inBody.length_le
          have lengthNe : front.length ≠ (Resp.bulk content).body.length :=
            fun same => bodyProper (inBody.eq_of_length same)
          simp only [Resp.body, length_payload, List.length_nil]
            at lengthLe lengthNe
          omega
        have sizeFits : content.length ≤ maxSize := by
          simp only [Resp.encode, length_line, length_payload] at fits
          omega
        have natural := Decimal.isNatural_print content.length
        have noRoom : ¬content.length + 2 ≤ front.length := by omega
        exact Or.inr ⟨.overruns,
          .here ((frame_bulk natural sizeFits).trans (if_neg noRoom)), by simp⟩
  | array items induction =>
      rcases cut_cases isPrefix proper with clean | otherwise |
        ⟨front, inBody, bodyProper, rfl⟩
      · exact Or.inl clean
      · exact Or.inr otherwise
      · obtain ⟨done, item, behind, cut, rfl, rfl, cutPrefix, cutProper⟩ :=
          prefix_encodeAll inBody bodyProper
        obtain ⟨doneFits, itemFits, countFits⟩ := fits_of_array fits
        have natural := Decimal.isNatural_print (done ++ item :: behind).length
        have spelledDone := Resp.spellsAll_encodeAll doneFits
        cases failing : Resp.anyError done with
        | true =>
            have arrives := (spelledDone.arrives failing cut).more
              (item :: behind).length
            rw [← List.length_append] at arrives
            exact Or.inr ⟨_, .inside (frame_array natural countFits) arrives,
              by decide⟩
        | false =>
            rcases induction item (by simp) itemFits cutPrefix cutProper with
              clean | ⟨halt, arrives, notEof⟩
            · exact Or.inl (.element failing clean)
            · have later := (spelledDone.passes failing cut).arrives
                (arrives.more behind.length)
              rw [Nat.add_comm 1, ← List.length_cons, ← List.length_append]
                at later
              exact Or.inr ⟨halt, .inside (frame_array natural countFits) later,
                notEof⟩
  | _ =>
      rcases cut_cases isPrefix proper with clean | otherwise |
        ⟨front, inBody, bodyProper, rfl⟩
      · exact Or.inl clean
      · exact Or.inr otherwise
      · exact absurd (List.prefix_nil.mp inBody) bodyProper

/-- A proper prefix of an encoding is reported as truncated exactly when it
ends at a place where a parser tests for the end. -/
theorem reportedTruncated_iff {reply : Resp} {bytes : Bytes}
    (fits : reply.encode.length ≤ maxSize)
    (isPrefix : bytes <+: reply.encode) (proper : bytes ≠ reply.encode) :
    ReportedTruncated bytes ↔ CleanCut reply bytes := by
  constructor
  · rintro ⟨next, run⟩
    rcases cleanCut_or_haltsOtherwise fits isPrefix proper with clean |
      ⟨halt, arrives, notEof⟩
    · exact clean
    · have ends := arrives.parseReply (At.start bytes)
      rw [parseReply_of_loadData run] at ends
      cases ends with
      | stops failing shown within => exact absurd rfl (notEof _)
      | runsOver success outside => cases success
  · intro clean
    have ends := (clean.arrives fits).parseReply (At.start bytes)
    generalize run : parseReply bytes bytes.length 0 = outcome at ends
    generalize halted : Halt.stops ParseErrorCode.eof.toErrorCode true = halt
      at ends
    cases ends with
    | @stops inside response failing shown within =>
        obtain ⟨code, -⟩ := Halt.stops.inj halted
        refine ⟨response.it, ?_⟩
        rw [loadData_of_returns run, ← code]
        rcases shown with isNil | isClientError
        · rw [isNil]
        · rw [← code] at isClientError
          cases isClientError
    | _ => cases halted

private def integerAndNull : Resp := .array [.integer 1, .nullBulk]

theorem reportedTruncated_integerAndNull :
    ReportedTruncated [42, 50, 13, 10, 58, 49, 13, 10] :=
  (reportedTruncated_iff (by decide : integerAndNull.encode.length ≤ maxSize)
    (by decide) (by decide)).mpr
    (@CleanCut.element [.integer 1] [] .nullBulk [] rfl (.nothing _))

/-- `+OK` is not reported as the beginning of `+OK\r\n`. -/
theorem not_reportedTruncated_simpleString :
    [43, 79, 75] <+: (Resp.simple ⟨[79, 75], by decide⟩).encode ∧
      loadData [43, 79, 75] 3 0 =
        .returns (⟨.simpleString [79, 75], .success⟩, 5) ∧
      ¬ReportedTruncated [43, 79, 75] := by
  have run : loadData [43, 79, 75] 3 0 =
      .returns (⟨.simpleString [79, 75], .success⟩, 5) := rfl
  refine ⟨by decide, run, ?_⟩
  rintro ⟨next, truncated⟩
  have impossible := run.symm.trans truncated
  cases impossible

end RedisClient
