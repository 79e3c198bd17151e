import Mathlib.Data.Rat.Floor
import Mathlib.Tactic.Linarith
import Mathlib.Tactic.Ring
import RedisClient.Basis.Decimal

/-!
# Numbers with a fixed number of decimal places

A number is rounded to a multiple of a power of ten, ties going to the even
neighbour, and written with all its places.  Rounding is off by half a unit at
most, and the digits are those of the multiple.
-/

namespace Basis.FixedPoint

open Decimal

/-- The nearest natural number; of two, the even one. -/
def roundEven (exact : ℚ) : Nat :=
  let lower := ⌊exact⌋₊
  if exact - lower < 1 / 2 then lower
  else if 1 / 2 < exact - lower then lower + 1
  else lower + lower % 2

section Rounding

variable {exact : ℚ}

theorem roundEven_near (nonnegative : 0 ≤ exact) :
    |(roundEven exact : ℚ) - exact| ≤ 1 / 2 := by
  have lower := Nat.floor_le nonnegative
  have upper := Nat.lt_floor_add_one exact
  have parity : ((⌊exact⌋₊ % 2 : Nat) : ℚ) ≤ 1 := by
    exact_mod_cast Nat.le_of_lt_succ (Nat.mod_lt _ (by norm_num))
  have parityNonnegative : (0 : ℚ) ≤ ((⌊exact⌋₊ % 2 : Nat) : ℚ) :=
    Nat.cast_nonneg _
  rw [abs_le]
  unfold roundEven
  dsimp only
  split_ifs with below above
  · constructor <;> linarith
  · rw [Nat.cast_add, Nat.cast_one]
    constructor <;> linarith
  · rw [Nat.cast_add]
    constructor <;> linarith

theorem roundEven_eq_of_near {natural : Nat} (nonnegative : 0 ≤ exact)
    (near : |exact - natural| < 1 / 2) : roundEven exact = natural := by
  have rounded := roundEven_near nonnegative
  have apart : |(roundEven exact : ℚ) - natural| < 1 :=
    calc
      |(roundEven exact : ℚ) - natural| ≤
          |(roundEven exact : ℚ) - exact| + |exact - natural| :=
        abs_sub_le _ _ _
      _ < 1 := by linarith
  have integers : |((roundEven exact : ℤ) - natural)| < 1 := by
    exact_mod_cast apart
  have same := Int.abs_lt_one_iff.mp integers
  omega

theorem le_roundEven {natural : Nat} (below : (natural : ℚ) ≤ exact) :
    natural ≤ roundEven exact := by
  have floor : natural ≤ ⌊exact⌋₊ := Nat.le_floor below
  unfold roundEven
  dsimp only
  split_ifs <;> omega

theorem roundEven_le {natural : Nat} (nonnegative : 0 ≤ exact)
    (above : exact ≤ natural) : roundEven exact ≤ natural := by
  have rounded := (abs_le.mp (roundEven_near nonnegative)).2
  have next : (roundEven exact : ℚ) < (natural + 1 : Nat) := by
    rw [Nat.cast_add, Nat.cast_one]
    linarith
  exact Nat.lt_succ_iff.mp (Nat.cast_lt.mp next)

@[simp] theorem roundEven_natCast (natural : Nat) :
    roundEven (natural : ℚ) = natural := by
  simp [roundEven]

/-- Rounding loses nothing only where there is nothing to lose. -/
theorem roundEven_eq_iff :
    (roundEven exact : ℚ) = exact ↔ ∃ natural : Nat, exact = natural := by
  constructor
  · intro same
    exact ⟨roundEven exact, same.symm⟩
  · rintro ⟨natural, rfl⟩
    rw [roundEven_natCast]

theorem roundEven_eq_zero (small : exact < 1 / 2) : roundEven exact = 0 := by
  have floor : ⌊exact⌋₊ = 0 := by
    rw [Nat.floor_eq_zero]
    linarith
  rw [roundEven, floor, Nat.cast_zero, sub_zero]
  exact if_pos small

end Rounding

/-- A numeral with zeros in front of it. -/
def printPadded (places number : Nat) : List UInt8 :=
  List.replicate (places - (print number).length) 48 ++ print number

/-- So many units of the last place. -/
def printFixed (places units : Nat) : List UInt8 :=
  print (units / 10 ^ places) ++
    46 :: printPadded places (units % 10 ^ places)

theorem length_printPadded {places number : Nat} (positive : 0 < places)
    (small : number < 10 ^ places) :
    (printPadded places number).length = places := by
  have short := length_print_le positive small
  rw [printPadded, List.length_append, List.length_replicate]
  omega

theorem printPadded_isDigit (places number : Nat) :
    ∀ byte ∈ printPadded places number, isDigit byte = true := by
  intro byte member
  rcases List.mem_append.mp member with zero | digit
  · obtain rfl := List.eq_of_mem_replicate zero
    rfl
  · exact print_isDigit number byte digit

theorem read_append (left right : List UInt8) :
    read (left ++ right) = read left * 10 ^ right.length + read right := by
  rw [read_eq_ofDigits, read_eq_ofDigits left, read_eq_ofDigits right,
    List.reverse_append, List.map_append, Nat.ofDigits_append,
    List.length_map, List.length_reverse]
  ring

theorem read_zeros (count : Nat) : read (List.replicate count 48) = 0 := by
  induction count with
  | zero => rfl
  | succ count induction =>
      rw [List.replicate_succ', read_append, induction]
      rfl

@[simp] theorem read_printPadded (places number : Nat) :
    read (printPadded places number) = number := by
  rw [printPadded, read_append, read_zeros, read_print, Nat.zero_mul,
    Nat.zero_add]

/-- The digits on both sides of the point are those of the units. -/
theorem read_printFixed {places : Nat} (positive : 0 < places) (units : Nat) :
    read (print (units / 10 ^ places) ++
      printPadded places (units % 10 ^ places)) = units := by
  have small : units % 10 ^ places < 10 ^ places :=
    Nat.mod_lt _ (Nat.pow_pos (by norm_num))
  rw [read_append, read_print, read_printPadded,
    length_printPadded positive small, Nat.div_add_mod']

end Basis.FixedPoint
