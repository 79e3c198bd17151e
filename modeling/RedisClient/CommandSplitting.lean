import Mathlib.Data.List.Infix
import RedisClient.CommandTokens

/-!
# Commands as split strings

The arguments of a command that is read from a string, without loops: the string
is cut at the spaces before which the number of quotes is even, the quotes are
deleted, and the empty pieces are dropped.
-/

namespace RedisClient

open Basis

/-- Every byte of the string with what stands before it, behind `front`. -/
def situated (front text : Bytes) : List (UInt8 × Bytes) :=
  text.zip (text.inits.map (front ++ ·))

/-- A space with an even number of quotes before it. -/
def separates : UInt8 × Bytes → Bool
  | (byte, before) => byte == space && before.count quote % 2 == 0

/-- The bytes of a piece that are not quotes. -/
def unquote (piece : List (UInt8 × Bytes)) : Bytes :=
  (piece.map Prod.fst).filter (· != quote)

/-- The pieces between the separating spaces, without their quotes. -/
def pieces (front text : Bytes) : List Bytes :=
  ((situated front text).splitOnP separates).map unquote

/-- Cut at the spaces outside of quotes, delete the quotes, and drop the empty
pieces. -/
def paritySplit (text : Bytes) : List Bytes :=
  (((text.zip text.inits).splitOnP separates).map unquote).filter (· ≠ [])

theorem situated_cons (front : Bytes) (byte : UInt8) (rest : Bytes) :
    situated front (byte :: rest) =
      (byte, front) :: situated (front ++ [byte]) rest := by
  simp [situated, Function.comp_def]

theorem pieces_separator {front : Bytes} (outside : front.count quote % 2 = 0)
    (rest : Bytes) :
    pieces front (space :: rest) = [] :: pieces (front ++ [space]) rest := by
  simp [pieces, situated_cons, List.splitOnP_cons_eq_if_modifyHead, separates,
    outside, unquote]

private theorem map_modifyHead {α β : Type} {into : α → β} {before : α → α}
    {after : β → β} (commute : ∀ item, into (before item) = after (into item))
    (items : List α) :
    (items.modifyHead before).map into = (items.map into).modifyHead after := by
  cases items with
  | nil => rfl
  | cons item items => simp [commute]

theorem pieces_quote (front rest : Bytes) :
    pieces front (quote :: rest) = pieces (front ++ [quote]) rest := by
  have joined : separates (quote, front) = false := by
    simp [separates, quote, space]
  have commute (piece : List (UInt8 × Bytes)) :
      unquote ((quote, front) :: piece) = id (unquote piece) := by
    simp [unquote]
  rw [pieces, situated_cons, List.splitOnP_cons_eq_if_modifyHead,
    if_neg (by simp [joined]), map_modifyHead commute, List.modifyHead_id]
  rfl

theorem pieces_other {front : Bytes} {byte : UInt8} (notQuote : byte ≠ quote)
    (joined : separates (byte, front) = false) (rest : Bytes) :
    pieces front (byte :: rest) =
      (pieces (front ++ [byte]) rest).modifyHead (byte :: ·) := by
  have commute (piece : List (UInt8 × Bytes)) :
      unquote ((byte, front) :: piece) = byte :: unquote piece := by
    simp [unquote, notQuote]
  rw [pieces, situated_cons, List.splitOnP_cons_eq_if_modifyHead,
    if_neg (by simp [joined]), map_modifyHead commute]
  rfl

private theorem modifyHead_nil_append (items : List Bytes) :
    items.modifyHead ([] ++ ·) = items := by
  cases items <;> rfl

/-- The tokens of a string that is left to read are the pieces that are left,
the first of them behind the member that has been begun. -/
theorem tokens_eq_pieces {quoted : Bool} {front : Bytes}
    (parity : front.count quote % 2 = quoted.toNat) (rest member : Bytes) :
    tokens quoted rest member =
      ((pieces front rest).modifyHead (member ++ ·)).filter (· ≠ []) := by
  induction rest generalizing quoted front member with
  | nil => simp [tokens, pushMember_nil, pieces, situated, unquote]
  | cons byte rest induction =>
      rw [tokens]
      split
      · rename_i isQuote
        subst isQuote
        have flipped : (front ++ [quote]).count quote % 2 =
            (!quoted).toNat := by
          rw [List.count_append, List.count_singleton_self, Nat.add_mod, parity]
          cases quoted <;> rfl
        rw [pieces_quote, induction flipped]
      · rename_i notQuote
        have kept : (front ++ [byte]).count quote % 2 = quoted.toNat := by
          rwa [List.count_append, List.count_singleton, if_neg (by simpa),
            Nat.add_zero]
        split
        · rename_i separator
          obtain ⟨rfl, rfl⟩ := separator
          rw [pieces_separator parity, induction kept, modifyHead_nil_append,
            List.modifyHead_cons, List.append_nil, pushMember_nil,
            ← List.filter_append, List.singleton_append]
        · rename_i inside
          have joined : separates (byte, front) = false := by
            cases quoted with
            | false =>
                have notSpace : byte ≠ space := fun same => inside ⟨same, rfl⟩
                simp [separates, notSpace]
            | true => simp [separates, parity]
          rw [pieces_other notQuote joined, induction kept,
            List.modifyHead_modifyHead]
          congr 2
          funext piece
          simp

/-- A string that does not end in an opening quote is read as its parity
split. -/
theorem ofString_eq_paritySplit {text : Bytes}
    (closed : ¬EndsInOpeningQuote text) :
    Command.ofString text = .returns ⟨paritySplit text⟩ := by
  have whole : situated [] text = text.zip text.inits := by
    simp [situated]
  have outside : ([] : Bytes).count quote % 2 = false.toNat := rfl
  have read := tokens_eq_pieces outside text []
  rw [modifyHead_nil_append, pieces, whole] at read
  rw [Command.ofString_eq, if_neg closed, read]
  rfl

/-- `a"b c"`, with a quote that starts in the middle of a word. -/
theorem ofString_eq_paritySplit_quoted :
    Command.ofString [97, 34, 98, 32, 99, 34] =
      .returns ⟨paritySplit [97, 34, 98, 32, 99, 34]⟩ :=
  ofString_eq_paritySplit (by decide)

end RedisClient
