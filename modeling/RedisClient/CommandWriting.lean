import RedisClient.CommandTokens

/-!
# Writing commands as strings

The arguments of a command are written between quotes, or bare, with spaces
between and around them.  Read back, such a string gives the arguments that are
not empty: the constructor decides by the text it has collected whether there is
an argument, so that a pair of quotes with nothing inside is none.
-/

namespace RedisClient

open Basis

/-- `command::operator==` -/
def Command.equals (left right : Command) : Bool :=
  left.commands == right.commands

/-- A string that is to stand for the argument. -/
inductive Writes : Bytes → Bytes → Prop where
  | quoted {argument : Bytes} : quote ∉ argument →
      Writes argument (quote :: (argument ++ [quote]))
  | bare {argument : Bytes} : quote ∉ argument → argument ≠ [] →
      space ∉ argument → Writes argument argument

def spaces (count : Nat) : Bytes := List.replicate count space

/-- A string that is to stand for the arguments: at least one space stands
between two of them, and any number before the first and after the last. -/
inductive Joins : List Bytes → Bytes → Prop where
  | none (count : Nat) : Joins [] (spaces count)
  | last {argument written : Bytes} (before after : Nat) :
      Writes argument written →
      Joins [argument] (spaces before ++ (written ++ spaces after))
  | next {argument following written rest : Bytes} {arguments : List Bytes}
      (before : Nat) :
      Writes argument written →
      Joins (following :: arguments) (space :: rest) →
      Joins (argument :: following :: arguments)
        (spaces before ++ (written ++ space :: rest))

/-- The arguments that are not empty. -/
def nonemptyArguments (arguments : List Bytes) : List Bytes :=
  arguments.filter (· ≠ [])

theorem tokens_space (rest member : Bytes) :
    tokens false (space :: rest) member =
      pushMember [] member ++ tokens false rest [] := by
  have notQuote : space ≠ quote := by decide
  simp [tokens, notQuote]

theorem tokens_spaces (count : Nat) (rest : Bytes) :
    tokens false (spaces count ++ rest) [] = tokens false rest [] := by
  induction count with
  | zero => rfl
  | succ count induction =>
      rw [spaces, List.replicate_succ, List.cons_append, tokens_space]
      exact induction

theorem tokens_spaces_end (count : Nat) (member : Bytes) :
    tokens false (spaces count) member = pushMember [] member := by
  cases count with
  | zero => rfl
  | succ count =>
      have rest := tokens_spaces count []
      rw [List.append_nil] at rest
      rw [spaces, List.replicate_succ, tokens_space]
      simp only [spaces] at rest
      rw [rest]
      simp [tokens, pushMember]

theorem tokens_bare {body : Bytes} (noQuote : quote ∉ body)
    (noSpace : space ∉ body) (rest member : Bytes) :
    tokens false (body ++ rest) member =
      tokens false rest (member ++ body) := by
  induction body generalizing member with
  | nil => simp
  | cons byte body induction =>
      obtain ⟨notQuote, bodyNoQuote⟩ :=
        List.ne_and_not_mem_of_not_mem_cons noQuote
      obtain ⟨notSpace, bodyNoSpace⟩ :=
        List.ne_and_not_mem_of_not_mem_cons noSpace
      simp [tokens, notQuote.symm, notSpace.symm,
        induction bodyNoQuote bodyNoSpace]

theorem Writes.tokens_eq {argument written : Bytes}
    (writes : Writes argument written) (rest : Bytes) :
    tokens false (written ++ rest) [] = tokens false rest argument := by
  cases writes with
  | quoted noQuote =>
      have read := tokens_quoted_closed noQuote rest []
      simpa [tokens] using read
  | bare noQuote nonempty noSpace =>
      have read := tokens_bare noQuote noSpace rest []
      simpa using read

theorem Writes.count_even {argument written : Bytes}
    (writes : Writes argument written) : written.count quote % 2 = 0 := by
  cases writes with
  | quoted noQuote => simp [List.count_eq_zero_of_not_mem noQuote]
  | bare noQuote => simp [List.count_eq_zero_of_not_mem noQuote]

theorem count_quote_spaces (count : Nat) : (spaces count).count quote = 0 := by
  apply List.count_eq_zero_of_not_mem
  intro member
  exact absurd (List.eq_of_mem_replicate member) (by decide)

theorem Joins.count_even {arguments : List Bytes} {text : Bytes}
    (joins : Joins arguments text) : text.count quote % 2 = 0 := by
  induction joins with
  | none count => rw [count_quote_spaces]
  | last before after writes =>
      simp only [List.count_append, count_quote_spaces]
      have even := writes.count_even
      omega
  | next before writes following induction =>
      simp only [List.count_append, count_quote_spaces]
      have even := writes.count_even
      omega

/-- The tokens of a written command are its arguments without the empty
ones. -/
theorem Joins.tokens_eq {arguments : List Bytes} {text : Bytes}
    (joins : Joins arguments text) :
    tokens false text [] = nonemptyArguments arguments := by
  induction joins with
  | none count => exact tokens_spaces_end count []
  | last before after writes =>
      rw [tokens_spaces, writes.tokens_eq, tokens_spaces_end, pushMember_nil]
      rfl
  | next before writes following induction =>
      rw [tokens_space, pushMember_nil, List.filter_singleton] at induction
      rw [tokens_spaces, writes.tokens_eq, tokens_space, pushMember_nil]
      simp only [ne_eq, not_true_eq_false, decide_false, cond_false,
        List.nil_append] at induction
      rw [induction, nonemptyArguments, nonemptyArguments,
        ← List.filter_append, List.singleton_append]

theorem nonemptyArguments_eq_self_iff {arguments : List Bytes} :
    nonemptyArguments arguments = arguments ↔
      ∀ argument ∈ arguments, argument ≠ [] := by
  simp [nonemptyArguments]

/-- A written command is read as the command without its empty arguments, which
is equal to it exactly when none is empty. -/
theorem ofString_joins {arguments : List Bytes} {text : Bytes}
    (joins : Joins arguments text) :
    Command.ofString text = .returns ⟨nonemptyArguments arguments⟩ ∧
      ((Command.mk (nonemptyArguments arguments)).equals ⟨arguments⟩ = true ↔
        ∀ argument ∈ arguments, argument ≠ []) := by
  have closed : ¬EndsInOpeningQuote text := by
    rintro ⟨-, odd⟩
    have even := joins.count_even
    omega
  constructor
  · rw [Command.ofString_eq, if_neg closed, joins.tokens_eq]
  · rw [Command.equals, beq_iff_eq, nonemptyArguments_eq_self_iff]

/-- `SET "a b"` with spaces around it. -/
theorem ofString_joins_quoted :
    Command.ofString [32, 83, 69, 84, 32, 32, 34, 97, 32, 98, 34, 32] =
      .returns ⟨[[83, 69, 84], [97, 32, 98]]⟩ := by
  have set : Writes [83, 69, 84] [83, 69, 84] :=
    .bare (by decide) (by decide) (by decide)
  have value : Writes [97, 32, 98] [34, 97, 32, 98, 34] :=
    .quoted (by decide)
  exact (ofString_joins (.next 1 set (.last 2 1 value))).1

/-- `S ""`: the empty argument is dropped. -/
theorem not_ofString_joins_empty :
    ¬∀ arguments text, Joins arguments text →
      ∃ command, Command.ofString text = .returns command ∧
        command.equals ⟨arguments⟩ = true := by
  intro agree
  have written : Joins [[83], []] [83, 32, 34, 34] :=
    .next 0 (.bare (by decide) (by decide) (by decide))
      (.last 1 0 (.quoted (by decide)))
  obtain ⟨command, run, equal⟩ := agree _ _ written
  have dropped : Command.ofString [83, 32, 34, 34] = .returns ⟨[[83]]⟩ := rfl
  cases dropped.symm.trans run
  cases equal

end RedisClient
