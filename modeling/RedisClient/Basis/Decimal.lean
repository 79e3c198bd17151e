import Mathlib.Data.Nat.Digits.Lemmas

/-!
# Decimal numerals as bytes

Printing and reading of decimal numbers over ASCII bytes.  `print` and
`printInt` write the canonical numeral; `IsNatural` also admits leading zeros,
and `IsNumeral` a sign, so that a reader may be specified on everything it has
to understand and not only on what the printer writes.
-/

namespace Basis.Decimal

def isDigit (byte : UInt8) : Bool :=
  decide (48 ≤ byte.toNat) && decide (byte.toNat ≤ 57)

def digitByte (digit : Nat) : UInt8 := UInt8.ofNat (48 + digit)

def digitValue (byte : UInt8) : Nat := byte.toNat - 48

def plusSign : UInt8 := 43

def minusSign : UInt8 := 45

/-- The canonical decimal numeral of a natural number. -/
def print (number : Nat) : List UInt8 :=
  if number = 0 then [48]
  else (Nat.digits 10 number).reverse.map digitByte

/-- The canonical decimal numeral of an integer. -/
def printInt (number : Int) : List UInt8 :=
  if number < 0 then minusSign :: print number.natAbs
  else print number.natAbs

/-- Positional value of a digit string, most significant digit first. -/
def read (digits : List UInt8) : Nat :=
  digits.foldl (fun value byte => 10 * value + digitValue byte) 0

/-- At least one digit and no sign, with its value. -/
inductive IsNatural : List UInt8 → Nat → Prop where
  | intro {digits : List UInt8} :
      digits ≠ [] → (∀ byte ∈ digits, isDigit byte = true) →
      IsNatural digits (read digits)

/-- An optional sign followed by at least one digit, with its value. -/
inductive IsNumeral : List UInt8 → Int → Prop where
  | unsigned {digits : List UInt8} :
      digits ≠ [] → (∀ byte ∈ digits, isDigit byte = true) →
      IsNumeral digits (read digits)
  | plus {digits : List UInt8} :
      digits ≠ [] → (∀ byte ∈ digits, isDigit byte = true) →
      IsNumeral (plusSign :: digits) (read digits)
  | minus {digits : List UInt8} :
      digits ≠ [] → (∀ byte ∈ digits, isDigit byte = true) →
      IsNumeral (minusSign :: digits) (-(read digits : Int))

private theorem digitByte_toNat {digit : Nat} (small : digit < 10) :
    (digitByte digit).toNat = 48 + digit := by
  simp only [digitByte, UInt8.toNat_ofNat']
  omega

private theorem digitValue_digitByte {digit : Nat} (small : digit < 10) :
    digitValue (digitByte digit) = digit := by
  rw [digitValue, digitByte_toNat small]
  omega

private theorem isDigit_digitByte {digit : Nat} (small : digit < 10) :
    isDigit (digitByte digit) = true := by
  simp only [isDigit, digitByte_toNat small, Bool.and_eq_true,
    decide_eq_true_eq]
  omega

theorem read_eq_ofDigits (digits : List UInt8) :
    read digits = Nat.ofDigits 10 (digits.reverse.map digitValue) := by
  rw [Nat.ofDigits_eq_foldr, List.map_reverse, List.foldr_reverse,
    List.foldl_map, read]
  simp [Nat.add_comm]

theorem print_ne_nil (number : Nat) : print number ≠ [] := by
  unfold print
  split <;> rename_i isZero
  · simp
  · simpa [Nat.digits_ne_nil_iff_ne_zero] using isZero

theorem print_isDigit (number : Nat) :
    ∀ byte ∈ print number, isDigit byte = true := by
  intro byte member
  unfold print at member
  split at member
  · have equality : byte = 48 := by simpa using member
    subst byte
    rfl
  · obtain ⟨digit, digitMember, rfl⟩ := List.mem_map.mp member
    exact isDigit_digitByte
      (Nat.digits_lt_base (by omega) (List.mem_reverse.mp digitMember))

theorem read_print (number : Nat) : read (print number) = number := by
  unfold print
  split <;> rename_i isZero
  · subst number
    rfl
  · rw [read_eq_ofDigits, ← List.map_reverse, List.reverse_reverse,
      List.map_map]
    have restored : (Nat.digits 10 number).map (digitValue ∘ digitByte) =
        Nat.digits 10 number := by
      calc
        (Nat.digits 10 number).map (digitValue ∘ digitByte) =
            (Nat.digits 10 number).map id :=
          List.map_congr_left fun digit member =>
            digitValue_digitByte (Nat.digits_lt_base (by omega) member)
        _ = Nat.digits 10 number := List.map_id _
    rw [restored, Nat.ofDigits_digits]

theorem length_print_le {number count : Nat} (positive : 0 < count)
    (small : number < 10 ^ count) : (print number).length ≤ count := by
  unfold print
  split
  · exact positive
  · rw [List.length_map, List.length_reverse]
    exact (Nat.digits_length_le_iff (by omega) number).mpr small

theorem print_injective : Function.Injective print := by
  intro left right equality
  have values := congrArg read equality
  simpa only [read_print] using values

theorem isNumeral_printInt (number : Int) :
    IsNumeral (printInt number) number := by
  unfold printInt
  split <;> rename_i sign
  · have numeral := IsNumeral.minus (print_ne_nil number.natAbs)
      (print_isDigit number.natAbs)
    rw [read_print] at numeral
    have value : -(number.natAbs : Int) = number := by omega
    rwa [value] at numeral
  · have numeral := IsNumeral.unsigned (print_ne_nil number.natAbs)
      (print_isDigit number.natAbs)
    rw [read_print] at numeral
    have value : (number.natAbs : Int) = number := by omega
    rwa [value] at numeral

theorem isNatural_print (number : Nat) : IsNatural (print number) number := by
  have natural := IsNatural.intro (print_ne_nil number) (print_isDigit number)
  rwa [read_print] at natural

theorem IsNatural.isNumeral {text : List UInt8} {number : Nat}
    (natural : IsNatural text number) : IsNumeral text number := by
  cases natural with
  | intro nonempty digits => exact .unsigned nonempty digits

theorem IsNumeral.mem_cases
    {text : List UInt8} {number : Int} (numeral : IsNumeral text number)
    {byte : UInt8} (member : byte ∈ text) :
    isDigit byte = true ∨ byte = plusSign ∨ byte = minusSign := by
  cases numeral with
  | unsigned nonempty digits => exact Or.inl (digits byte member)
  | plus nonempty digits =>
      rcases List.mem_cons.mp member with head | tail
      · exact Or.inr (Or.inl head)
      · exact Or.inl (digits byte tail)
  | minus nonempty digits =>
      rcases List.mem_cons.mp member with head | tail
      · exact Or.inr (Or.inr head)
      · exact Or.inl (digits byte tail)

end Basis.Decimal
