import RedisClient.ReplyStep

/-!
# The depth of the reply parser

An array costs its peer four bytes before the parser calls itself: the marker,
a digit, and a line ending.  The recursion is therefore at most about a quarter
as deep as the memory is long, and no smaller bound holds.
-/

namespace RedisClient

open Basis

section Parsers

variable {memory : Bytes} {stop it : Nat}

theorem readLine_header {header : Bytes} {next : Nat} {size : Int64}
    (run : readLine memory stop it = .returns (header, next))
    (notStop : next ≠ stop) (number : stol header = .ok size) :
    it + 1 ≤ next ∧ next < memory.length := by
  obtain ⟨_, counted, ends⟩ := readLine_returns run
  have nonempty : header ≠ [] := by
    rintro rfl
    cases number
  have positive := List.length_pos_iff.mpr nonempty
  rcases ends with atStop | inside
  · exact absurd atStop notStop
  · omega

theorem parseReplyBody_congr_header {parse other : Nat → Execution Response}
    (advances : Advances parse stop)
    (agree : it + 3 ≤ memory.length →
      ∀ later, it + 4 ≤ later → later ≠ stop → parse later = other later) :
    parseReplyBody parse memory stop it =
      parseReplyBody other memory stop it := by
  unfold parseReplyBody
  split
  · rfl
  · apply Outcome.bind_congr
    intro type _
    simp only
    split <;> try rfl
    unfold parseArray
    split
    · rfl
    · apply Outcome.bind_congr
      rintro ⟨header, next⟩ lineRun
      simp only
      split <;> rename_i notStop
      · rfl
      · cases number : stol header with
        | error exception => rfl
        | ok size =>
            obtain ⟨digit, inside⟩ := readLine_header lineRun notStop number
            have agreeLater := agree (by omega)
            exact parseElements_congr advances agreeLater (by omega) _ _

end Parsers

/-- With `n` bytes left, a depth of more than `(n + 1) / 4` is enough. -/
theorem parseReplyFuel_eq (memory : Bytes) (stop : Nat) {depth it : Nat}
    (enough : (memory.length - it + 1) / 4 < depth) :
    parseReplyFuel memory stop depth it = parseReply memory stop it := by
  induction depth generalizing it with
  | zero => omega
  | succ depth induction =>
      rw [parseReply_eq, parseReplyFuel]
      apply parseReplyBody_congr_header
        (parseReplyFuel_advances memory stop depth)
      intro inside later behind _
      exact induction (by omega)

/-! ## A memory that needs it -/

theorem parseReplyFuel_of_header {memory text tail : Bytes}
    {stop it depth : Nat}
    (found : memory.drop it =
      Marker.array.byte :: (text ++ carriageReturn :: tail))
    (noReturn : carriageReturn ∉ text) (number : stol text = .ok 1)
    (before : it + 1 + text.length < stop)
    (notStop : it + 1 + text.length + 2 ≠ stop)
    (deeper : parseReplyFuel memory stop depth (it + 1 + text.length + 2) =
      .exhausted) :
    parseReplyFuel memory stop (depth + 1) it = .exhausted := by
  have atByte : it ≠ stop := by omega
  have atText : it + 1 ≠ stop := by omega
  have atReturn : it + 1 + text.length ≠ stop := by omega
  have lineRun := readLine_of_return (drop_succ_of_cons found) noReturn before
  have one : (1 : Int64).toInt.toNat = 0 + 1 := rfl
  simp only [parseReplyFuel, parseReplyBody, atByte, if_false,
    dereference_of_drop found, Outcome.returns_bind, marker?_byte, parseArray,
    atText, lineRun, atReturn, number, Outcome.ofExcept_ok, one, parseElements,
    notStop, deeper]
  rfl

/-- `*1` for every level, and zeros before the last digit. -/
def nestedHeaders (zeros : Nat) : Nat → Bytes
  | 0 =>
      Marker.array.byte ::
        (List.replicate zeros 48 ++ [49] ++ [carriageReturn])
  | levels + 1 =>
      Marker.array.byte ::
        ([49] ++ carriageReturn :: lineFeed :: nestedHeaders zeros levels)

theorem length_nestedHeaders (zeros levels : Nat) :
    (nestedHeaders zeros levels).length = 4 * levels + zeros + 3 := by
  induction levels with
  | zero => simp [nestedHeaders]
  | succ levels induction =>
      simp only [nestedHeaders, List.cons_append, List.nil_append,
        List.length_cons, induction]
      omega

theorem stol_zeros {zeros : Nat} (few : zeros < 4) :
    stol (List.replicate zeros 48 ++ [49]) = .ok 1 := by
  interval_cases zeros <;> decide

/-- Every level needs a call of its own, and the last header one more. -/
theorem parseReplyFuel_nestedHeaders {memory : Bytes} {zeros : Nat}
    (few : zeros < 4) {levels it depth : Nat}
    (found : memory.drop it = nestedHeaders zeros levels)
    (shallow : depth ≤ levels + 1) :
    parseReplyFuel memory memory.length depth it = .exhausted := by
  induction levels generalizing it depth with
  | zero =>
      have length := length_of_drop found (by simp [nestedHeaders])
      rw [length_nestedHeaders] at length
      have noReturn :
          carriageReturn ∉ List.replicate zeros 48 ++ [(49 : UInt8)] := by
        simp [carriageReturn]
      have textLength :
          (List.replicate zeros 48 ++ [(49 : UInt8)]).length = zeros + 1 := by
        simp
      cases depth with
      | zero => rfl
      | succ depth =>
          obtain rfl : depth = 0 := by omega
          apply parseReplyFuel_of_header found noReturn (stol_zeros few)
          · omega
          · omega
          · rfl
  | succ levels induction =>
      have length := length_of_drop found (by simp [nestedHeaders])
      rw [length_nestedHeaders] at length
      have noReturn : carriageReturn ∉ [(49 : UInt8)] := by decide
      have number : stol [49] = .ok 1 := by decide
      have behind : memory.drop (it + 4) = nestedHeaders zeros levels :=
        drop_succ_of_cons (drop_succ_of_cons
          (drop_succ_of_cons (drop_succ_of_cons found)))
      cases depth with
      | zero => rfl
      | succ depth =>
          have notStop : it + 4 ≠ memory.length := by omega
          have before : it + 1 + 1 < memory.length := by omega
          exact parseReplyFuel_of_header found noReturn number before notStop
            (induction behind (by omega))

/-- With `n` bytes of memory `parse_reply` is never active more than
`(n + 1) / 4 + 1` times at once, whatever the memory contains, wherever `end`
is and wherever the cursor starts; and for every `n` there are bytes that bring
it there. -/
theorem recursion_depth :
    (∀ (memory : Bytes) (stop it depth : Nat),
      (memory.length - it + 1) / 4 < depth →
        parseReplyFuel memory stop depth it = parseReply memory stop it) ∧
    ∀ size : Nat, ∃ memory : Bytes, memory.length = size ∧
      ∀ depth, parseReplyFuel memory size depth 0 = .exhausted ↔
        depth ≤ (size + 1) / 4 := by
  refine ⟨fun memory stop it depth => parseReplyFuel_eq memory stop, ?_⟩
  intro size
  -- the other direction for all memories of this size
  have enough (memory : Bytes) (length : memory.length = size) {depth : Nat}
      (ends : parseReplyFuel memory size depth 0 = .exhausted) :
      depth ≤ (size + 1) / 4 := by
    by_contra deeper
    rw [parseReplyFuel_eq memory size (by omega)] at ends
    exact parseReply_ne_exhausted memory size 0 ends
  by_cases short : size < 3
  · refine ⟨List.replicate size 42, List.length_replicate, fun depth => ?_⟩
    refine ⟨enough _ List.length_replicate, fun shallow => ?_⟩
    obtain rfl : depth = 0 := by omega
    rfl
  · have few : (size - 3) % 4 < 4 := Nat.mod_lt _ (by decide)
    have length : (nestedHeaders ((size - 3) % 4) ((size - 3) / 4)).length =
        size := by
      rw [length_nestedHeaders]
      omega
    refine ⟨_, length, fun depth => ⟨enough _ length, fun shallow => ?_⟩⟩
    have run := @parseReplyFuel_nestedHeaders
      (nestedHeaders ((size - 3) % 4) ((size - 3) / 4)) _ few _ 0 depth rfl
      (by omega)
    rwa [length] at run

end RedisClient
