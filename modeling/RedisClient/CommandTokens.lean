import RedisClient.Basis.Loop
import RedisClient.Command
import RedisClient.ReplyStep

/-!
# Reading a command from a string

`command::command(string)` with its two nested loops over one iterator, which
may be dereferenced only before the end of the string and not be moved beyond
it.  `tokens` says what the loops collect from a string that is left to read,
inside or outside of quotes.
-/

namespace RedisClient

open Basis

/-- `char delim = ' '` -/
def space : UInt8 := 32

/-- `'"'` -/
def quote : UInt8 := 34

/-- `it++` -/
def advance (text : Bytes) (it : Nat) : Execution Nat :=
  if it < text.length then .returns (it + 1) else .faults it

/-- `if (!member.empty()) { commands_.push_back(member); }` -/
def pushMember (commands : List Bytes) (member : Bytes) : List Bytes :=
  if member.isEmpty then commands else commands ++ [member]

/-- One turn of the loop behind an opening quote, over the iterator and the
member. -/
def quotedTurn (text : Bytes) :
    Nat × Bytes → Execution (Turn (Nat × Bytes) (Nat × Bytes))
  | (it, member) => do
      -- there is no test for the end before this
      let byte ← dereference text it
      if byte = quote then .returns (.leave (it, member))
      else do
        let member := member ++ [byte]
        let it ← advance text it
        if it = text.length then .returns (.leave (it, member))
        else .returns (.again (it, member))

/-- The variables of the outer loop. -/
structure Scan where
  it : Nat
  member : Bytes
  commands : List Bytes

/-- One turn of `while (it != end)`. -/
def commandTurn (text : Bytes) (scan : Scan) : Execution (Turn Scan Scan) :=
  if scan.it = text.length then .returns (.leave scan)
  else do
    let byte ← dereference text scan.it
    if byte = space then
      let it ← advance text scan.it
      .returns (.again ⟨it, [], pushMember scan.commands scan.member⟩)
    else if byte = quote then
      let it ← advance text scan.it
      let (it, member) ←
        Outcome.loop (quotedTurn text) (text.length + 1) (it, scan.member)
      let it ← if it = text.length then .returns it else advance text it
      .returns (.again ⟨it, member, scan.commands⟩)
    else
      let it ← advance text scan.it
      .returns (.again ⟨it, scan.member ++ [byte], scan.commands⟩)

/-- What is done behind the outer loop. -/
def Scan.finish (scan : Scan) : Execution Command :=
  .returns ⟨pushMember scan.commands scan.member⟩

/-- `command::command(string)`.  Every turn of a loop moves the iterator, so
the bounds are never met. -/
def Command.ofString (text : Bytes) : Execution Command := do
  let scan ← Outcome.loop (commandTurn text) (text.length + 1) ⟨0, [], []⟩
  scan.finish

/-- What is pushed for a string that is left to read, behind a member that has
been begun. -/
def tokens (quoted : Bool) : Bytes → Bytes → List Bytes
  | [], member => pushMember [] member
  | byte :: rest, member =>
      if byte = quote then tokens (!quoted) rest member
      else if byte = space ∧ quoted = false then
        pushMember [] member ++ tokens quoted rest []
      else tokens quoted rest (member ++ [byte])

/-- The last character is a quote that opens. -/
def EndsInOpeningQuote (text : Bytes) : Prop :=
  text.getLast? = some quote ∧ text.count quote % 2 = 1

instance (text : Bytes) : Decidable (EndsInOpeningQuote text) :=
  inferInstanceAs (Decidable (_ ∧ _))

theorem pushMember_eq (commands : List Bytes) (member : Bytes) :
    pushMember commands member = commands ++ pushMember [] member := by
  unfold pushMember
  split <;> simp

theorem pushMember_nil (member : Bytes) :
    pushMember [] member = [member].filter (· ≠ []) := by
  cases member <;> rfl

/-! ## Members inside quotes -/

theorem tokens_quoted {body : Bytes} (noQuote : quote ∉ body)
    (rest member : Bytes) :
    tokens true (body ++ rest) member = tokens true rest (member ++ body) := by
  induction body generalizing member with
  | nil => simp
  | cons byte body induction =>
      obtain ⟨notQuote, bodyNoQuote⟩ :=
        List.ne_and_not_mem_of_not_mem_cons noQuote
      simp [tokens, notQuote.symm, induction bodyNoQuote]

theorem tokens_quoted_closed {body : Bytes} (noQuote : quote ∉ body)
    (rest member : Bytes) :
    tokens true (body ++ quote :: rest) member =
      tokens false rest (member ++ body) := by
  rw [tokens_quoted noQuote]
  simp [tokens]

theorem tokens_quoted_open {body : Bytes} (noQuote : quote ∉ body)
    (member : Bytes) :
    tokens true body member = pushMember [] (member ++ body) := by
  have read := tokens_quoted noQuote [] member
  rwa [List.append_nil] at read

section Loops

variable {text rest member : Bytes} {it : Nat}

theorem lt_length_of_drop {byte : UInt8}
    (found : text.drop it = byte :: rest) : it < text.length := by
  have length := length_of_drop found (List.cons_ne_nil byte rest)
  rw [List.length_cons] at length
  omega

theorem advance_of_drop {byte : UInt8}
    (found : text.drop it = byte :: rest) :
    advance text it = .returns (it + 1) := by
  rw [advance, if_pos (lt_length_of_drop found)]

theorem quotedLoop_closed {body : Bytes}
    (found : text.drop it = body ++ quote :: rest) (noQuote : quote ∉ body)
    {fuel : Nat} (enough : body.length < fuel) :
    Outcome.loop (quotedTurn text) fuel (it, member) =
      .returns (it + body.length, member ++ body) := by
  induction body generalizing it member fuel with
  | nil =>
      obtain ⟨fuel, rfl⟩ := Nat.exists_eq_succ_of_ne_zero
        (Nat.ne_of_gt enough)
      apply Outcome.loop_succ_of_leave
      simp [quotedTurn, dereference_of_drop found]
  | cons byte body induction =>
      obtain ⟨fuel, rfl⟩ := Nat.exists_eq_succ_of_ne_zero
        (Nat.ne_of_gt (Nat.zero_lt_of_lt enough))
      obtain ⟨notQuote, bodyNoQuote⟩ :=
        List.ne_and_not_mem_of_not_mem_cons noQuote
      have behind : text.drop (it + 1) = body ++ quote :: rest :=
        drop_succ_of_cons found
      have length := length_of_drop behind (by simp)
      rw [List.length_append, List.length_cons] at length
      have notEnd : it + 1 ≠ text.length := by omega
      have turn : quotedTurn text (it, member) =
          .returns (.again (it + 1, member ++ [byte])) := by
        simp [quotedTurn, dereference_of_drop found, notQuote.symm,
          advance_of_drop found, notEnd]
      rw [Outcome.loop_succ_of_again turn,
        induction behind bodyNoQuote (by simpa using enough)]
      simp only [List.length_cons, List.append_assoc, List.singleton_append]
      congr 2
      omega

/-- Without a closing quote the inner loop stops at the end, once it has
consumed something. -/
theorem quotedLoop_open (found : text.drop it = rest) (noQuote : quote ∉ rest)
    (nonempty : rest ≠ []) {fuel : Nat} (enough : rest.length < fuel) :
    Outcome.loop (quotedTurn text) fuel (it, member) =
      .returns (text.length, member ++ rest) := by
  induction rest generalizing it member fuel with
  | nil => exact absurd rfl nonempty
  | cons byte rest induction =>
      obtain ⟨fuel, rfl⟩ := Nat.exists_eq_succ_of_ne_zero
        (Nat.ne_of_gt (Nat.zero_lt_of_lt enough))
      obtain ⟨notQuote, restNoQuote⟩ :=
        List.ne_and_not_mem_of_not_mem_cons noQuote
      have behind := drop_succ_of_cons found
      have length := length_of_drop found nonempty
      rw [List.length_cons] at length
      by_cases last : rest = []
      · subst last
        have atEnd : it + 1 = text.length := by simpa using length.symm
        apply Outcome.loop_succ_of_leave
        simp [quotedTurn, dereference_of_drop found, notQuote.symm,
          advance_of_drop found, atEnd]
      · have positive := List.length_pos_iff.mpr last
        have notEnd : it + 1 ≠ text.length := by omega
        have turn : quotedTurn text (it, member) =
            .returns (.again (it + 1, member ++ [byte])) := by
          simp [quotedTurn, dereference_of_drop found, notQuote.symm,
            advance_of_drop found, notEnd]
        rw [Outcome.loop_succ_of_again turn,
          induction behind restNoQuote last (by simpa using enough)]
        simp

variable {commands : List Bytes}

theorem commandTurn_stop :
    commandTurn text ⟨text.length, member, commands⟩ =
      .returns (.leave ⟨text.length, member, commands⟩) := by
  simp [commandTurn]

theorem commandTurn_space (found : text.drop it = space :: rest) :
    commandTurn text ⟨it, member, commands⟩ =
      .returns (.again ⟨it + 1, [], pushMember commands member⟩) := by
  have notEnd : it ≠ text.length := Nat.ne_of_lt (lt_length_of_drop found)
  simp [commandTurn, notEnd, dereference_of_drop found, advance_of_drop found]

theorem commandTurn_other {byte : UInt8}
    (found : text.drop it = byte :: rest) (notSpace : byte ≠ space)
    (notQuote : byte ≠ quote) :
    commandTurn text ⟨it, member, commands⟩ =
      .returns (.again ⟨it + 1, member ++ [byte], commands⟩) := by
  have notEnd : it ≠ text.length := Nat.ne_of_lt (lt_length_of_drop found)
  simp [commandTurn, notEnd, dereference_of_drop found, notSpace, notQuote,
    advance_of_drop found]

/-- The turn at a quote is the inner loop and the step past the closing quote
if there is one. -/
private theorem commandTurn_quote (found : text.drop it = quote :: rest) :
    commandTurn text ⟨it, member, commands⟩ = (do
      let (it, member) ←
        Outcome.loop (quotedTurn text) (text.length + 1) (it + 1, member)
      let it ← if it = text.length then .returns it else advance text it
      .returns (.again ⟨it, member, commands⟩)) := by
  have notEnd : it ≠ text.length := Nat.ne_of_lt (lt_length_of_drop found)
  have notSpace : quote ≠ space := by decide
  simp [commandTurn, notEnd, dereference_of_drop found, notSpace,
    advance_of_drop found]

theorem commandTurn_quote_closed {body : Bytes}
    (found : text.drop it = quote :: (body ++ quote :: rest))
    (noQuote : quote ∉ body) :
    commandTurn text ⟨it, member, commands⟩ =
      .returns (.again
        ⟨it + 1 + body.length + 1, member ++ body, commands⟩) := by
  have behind := drop_succ_of_cons found
  have closing := drop_add_of_append behind
  have before := lt_length_of_drop closing
  have notEnd : it + 1 + body.length ≠ text.length := Nat.ne_of_lt before
  rw [commandTurn_quote found,
    quotedLoop_closed behind noQuote (by omega)]
  simp [notEnd, advance_of_drop closing]

theorem commandTurn_quote_open (found : text.drop it = quote :: rest)
    (noQuote : quote ∉ rest) (nonempty : rest ≠ []) :
    commandTurn text ⟨it, member, commands⟩ =
      .returns (.again ⟨text.length, member ++ rest, commands⟩) := by
  have behind := drop_succ_of_cons found
  have length := length_of_drop behind nonempty
  rw [commandTurn_quote found,
    quotedLoop_open behind noQuote nonempty (by omega)]
  simp

/-- Behind an opening quote at the end there is nothing to dereference. -/
theorem commandTurn_quote_last (found : text.drop it = [quote]) :
    commandTurn text ⟨it, member, commands⟩ = .faults text.length := by
  have length := length_of_drop found (by simp)
  rw [List.length_singleton] at length
  rw [commandTurn_quote found, Outcome.loop, ← length, quotedTurn,
    dereference_of_le (Nat.le_refl _)]
  rfl

end Loops

/-! ## The last quote -/

theorem not_endsInOpeningQuote_nil : ¬EndsInOpeningQuote [] := by decide

theorem endsInOpeningQuote_cons {byte : UInt8} (notQuote : byte ≠ quote)
    (rest : Bytes) :
    EndsInOpeningQuote (byte :: rest) ↔ EndsInOpeningQuote rest := by
  cases rest with
  | nil => simp [EndsInOpeningQuote, notQuote]
  | cons next rest =>
      rw [EndsInOpeningQuote, EndsInOpeningQuote, List.getLast?_cons_cons,
        List.count_cons_of_ne notQuote]

theorem endsInOpeningQuote_closed {body : Bytes} (noQuote : quote ∉ body)
    (rest : Bytes) :
    EndsInOpeningQuote (quote :: (body ++ quote :: rest)) ↔
      EndsInOpeningQuote rest := by
  have count : (quote :: (body ++ quote :: rest)).count quote =
      rest.count quote + 2 := by
    simp [List.count_eq_zero_of_not_mem noQuote]
  rw [EndsInOpeningQuote, EndsInOpeningQuote, count, Nat.add_mod_right]
  cases rest with
  | nil => simp
  | cons next rest => simp [List.getLast?_cons]

theorem not_endsInOpeningQuote_open {rest : Bytes} (noQuote : quote ∉ rest)
    (nonempty : rest ≠ []) : ¬EndsInOpeningQuote (quote :: rest) := by
  rintro ⟨last, -⟩
  rw [List.getLast?_cons_of_ne_nil nonempty] at last
  exact noQuote (List.mem_of_getLast? last)

/-! ## The whole string -/

/-- What the constructor does with what is left of the string: it faults behind
an opening quote at its end, and pushes its tokens otherwise. -/
def readRest (text rest member : Bytes) (commands : List Bytes) :
    Execution Command :=
  if EndsInOpeningQuote rest then .faults text.length
  else .returns ⟨commands ++ tokens false rest member⟩

section Rest

variable {text rest member : Bytes} {commands : List Bytes}

theorem readRest_nil :
    readRest text [] member commands =
      .returns ⟨pushMember commands member⟩ := by
  rw [readRest, if_neg not_endsInOpeningQuote_nil, tokens, ← pushMember_eq]

theorem readRest_space :
    readRest text (space :: rest) member commands =
      readRest text rest [] (pushMember commands member) := by
  have notQuote : space ≠ quote := by decide
  simp only [readRest, endsInOpeningQuote_cons notQuote, tokens, notQuote,
    if_false, and_self, if_true]
  rw [pushMember_eq commands, List.append_assoc]

theorem readRest_other {byte : UInt8} (notSpace : byte ≠ space)
    (notQuote : byte ≠ quote) :
    readRest text (byte :: rest) member commands =
      readRest text rest (member ++ [byte]) commands := by
  simp only [readRest, endsInOpeningQuote_cons notQuote, tokens, notQuote,
    notSpace, if_false, false_and]

theorem readRest_quote_closed {body : Bytes} (noQuote : quote ∉ body) :
    readRest text (quote :: (body ++ quote :: rest)) member commands =
      readRest text rest (member ++ body) commands := by
  simp only [readRest, endsInOpeningQuote_closed noQuote, tokens, if_true,
    Bool.not_false, tokens_quoted_closed noQuote]

theorem readRest_quote_open (noQuote : quote ∉ rest) (nonempty : rest ≠ []) :
    readRest text (quote :: rest) member commands =
      readRest text [] (member ++ rest) commands := by
  rw [readRest, readRest, if_neg not_endsInOpeningQuote_nil,
    if_neg (not_endsInOpeningQuote_open noQuote nonempty)]
  simp only [tokens, if_true, Bool.not_false, tokens_quoted_open noQuote]

theorem readRest_quote_last :
    readRest text [quote] member commands = .faults text.length :=
  if_pos (by decide)

end Rest

/-- The loops read what is left of the string; each turn takes some of it. -/
theorem commandLoop_eq {text rest member : Bytes} {it fuel : Nat}
    (found : text.drop it = rest) (within : it ≤ text.length)
    (enough : rest.length < fuel) (commands : List Bytes) :
    (Outcome.loop (commandTurn text) fuel ⟨it, member, commands⟩ >>=
        Scan.finish) = readRest text rest member commands := by
  induction fuel generalizing it rest member commands with
  | zero => omega
  | succ fuel induction =>
      cases rest with
      | nil =>
          have beyond := List.drop_eq_nil_iff.mp found
          obtain rfl : it = text.length := by omega
          rw [Outcome.loop_succ_of_leave commandTurn_stop, readRest_nil]
          rfl
      | cons byte rest =>
          have inside := lt_length_of_drop found
          have behind := drop_succ_of_cons found
          rw [List.length_cons] at enough
          by_cases isQuote : byte = quote
          · subst isQuote
            by_cases closed : quote ∈ rest
            · obtain ⟨body, after, rfl, noQuote⟩ :=
                List.eq_append_cons_of_mem closed
              have closing := drop_add_of_append behind
              have closingInside := lt_length_of_drop closing
              rw [List.length_append, List.length_cons] at enough
              rw [Outcome.loop_succ_of_again
                  (commandTurn_quote_closed found noQuote),
                readRest_quote_closed noQuote]
              apply induction
              · exact drop_succ_of_cons closing
              · omega
              · omega
            · by_cases last : rest = []
              · subst last
                rw [Outcome.loop, commandTurn_quote_last found,
                  readRest_quote_last]
                rfl
              · rw [Outcome.loop_succ_of_again
                    (commandTurn_quote_open found closed last),
                  readRest_quote_open closed last]
                apply induction
                · exact List.drop_length
                · exact Nat.le_refl _
                · simp only [List.length_nil]
                  omega
          · by_cases isSpace : byte = space
            · subst isSpace
              rw [Outcome.loop_succ_of_again (commandTurn_space found),
                readRest_space]
              apply induction behind <;> omega
            · rw [Outcome.loop_succ_of_again
                  (commandTurn_other found isSpace isQuote),
                readRest_other isSpace isQuote]
              apply induction behind <;> omega

/-- The constructor reads the tokens of its string, unless the string ends in
an opening quote. -/
theorem Command.ofString_eq (text : Bytes) :
    Command.ofString text =
      if EndsInOpeningQuote text then .faults text.length
      else .returns ⟨tokens false text []⟩ :=
  commandLoop_eq List.drop_zero (Nat.zero_le _) (Nat.lt_succ_self _) []

/-- The constructor keeps its iterator inside the string and comes to an end
exactly when the string does not end in an opening quote. -/
theorem ofString_returns_iff (text : Bytes) :
    (∃ command, Command.ofString text = .returns command) ↔
      ¬EndsInOpeningQuote text := by
  rw [Command.ofString_eq]
  split <;> rename_i opening <;> simp [opening]

/-- `GET "`: the iterator is dereferenced at the end. -/
theorem not_ofString_returns_openingQuote :
    Command.ofString [71, 69, 84, 32, 34] = .faults 5 ∧
      ¬∃ command, Command.ofString [71, 69, 84, 32, 34] = .returns command := by
  have run : Command.ofString [71, 69, 84, 32, 34] = .faults 5 := rfl
  refine ⟨run, ?_⟩
  rintro ⟨command, returns⟩
  cases run.symm.trans returns

end RedisClient
