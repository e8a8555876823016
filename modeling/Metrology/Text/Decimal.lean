import Metrology.Text.Basic

/-!
# Decimal integers

A numeral is a list of digits, most significant first. `digits` writes a natural number with no
leading zero, `value` reads any list of digits, and `value_digits` says that reading undoes writing.
`ofNat` and `ofInt` are the written texts.
-/

set_option autoImplicit false
set_option relaxedAutoImplicit false

namespace Metrology.Decimal

/-- The decimal digits of a number, most significant first; zero has one digit. -/
def digits (number : Nat) : List Nat :=
  if number < 10 then [number] else digits (number / 10) ++ [number % 10]

/-- The number that a list of digits stands for, leading zeros allowed; no digits stand for zero. -/
def value (digits : List Nat) : Nat :=
  digits.foldl (fun number digit ↦ 10 * number + digit) 0

theorem value_append_singleton (leading : List Nat) (digit : Nat) :
    value (leading ++ [digit]) = 10 * value leading + digit := by
  simp [value, List.foldl_append]

@[simp] theorem value_digits (number : Nat) : value (digits number) = number := by
  induction number using digits.induct with
  | case1 number hlt => simp [digits, hlt, value]
  | case2 number hle ih =>
    rw [digits, if_neg hle, value_append_singleton, ih]
    omega

theorem digits_ne_nil (number : Nat) : digits number ≠ [] := by
  rw [digits]
  split <;> simp

theorem lt_ten_of_mem_digits {number digit : Nat} (hdigit : digit ∈ digits number) :
    digit < 10 := by
  induction number using digits.induct with
  | case1 number hlt =>
    rw [digits, if_pos hlt, List.mem_singleton] at hdigit
    omega
  | case2 number hle ih =>
    rw [digits, if_neg hle, List.mem_append, List.mem_singleton] at hdigit
    rcases hdigit with hleading | rfl
    · exact ih hleading
    · omega

/-- The ASCII character of a digit. -/
def character (digit : Nat) : UInt8 :=
  (48 + digit).toUInt8

/-- A natural number in decimal. -/
def ofNat (number : Nat) : Text :=
  (digits number).map character

/-- An integer in decimal, with a minus sign when it is negative. -/
def ofInt : Int → Text
  | .ofNat number => ofNat number
  | .negSucc number => 45 :: ofNat (number + 1)

end Metrology.Decimal
