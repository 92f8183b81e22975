import Mathlib.Data.Nat.Digits.Lemmas

/-! # Decimal numerals in ASCII

The numeral of a natural number is its decimal digits as ASCII bytes, most
significant digit first and without leading zeros. Reading the longest run of
digits at the front of a text gives back the number of a numeral standing there
(`Decimal.takeWhile_numeral`, `Decimal.value_numeral`), so numerals of different numbers differ.
-/

namespace Decimal

/-- The bytes `0` to `9`. -/
def isDigit (byte : UInt8) : Bool :=
  decide (48 ≤ byte.toNat) && decide (byte.toNat ≤ 57)

/-- The number of a digit. -/
def digitValue (byte : UInt8) : Nat :=
  byte.toNat - 48

/-- The byte of a digit. -/
def digitByte (digit : Nat) : UInt8 :=
  UInt8.ofNat (48 + digit)

/-- The decimal numeral of a number. -/
def numeral (number : Nat) : List UInt8 :=
  if number = 0 then [digitByte 0] else ((Nat.digits 10 number).map digitByte).reverse

/-- The number a run of digits stands for. -/
def value (digits : List UInt8) : Nat :=
  digits.foldl (fun total byte => 10 * total + digitValue byte) 0

theorem toNat_digitByte {digit : Nat} (bound : digit < 10) :
    (digitByte digit).toNat = 48 + digit := by
  simp only [digitByte, UInt8.toNat_ofNat']
  omega

theorem isDigit_digitByte {digit : Nat} (bound : digit < 10) : isDigit (digitByte digit) := by
  simp only [isDigit, toNat_digitByte bound, Bool.and_eq_true, decide_eq_true_eq]
  omega

theorem digitValue_digitByte {digit : Nat} (bound : digit < 10) :
    digitValue (digitByte digit) = digit := by
  simp only [digitValue, toNat_digitByte bound]
  omega

/-- Every byte of a numeral is a digit. -/
theorem isDigit_of_mem_numeral {number : Nat} {byte : UInt8} (member : byte ∈ numeral number) :
    isDigit byte := by
  unfold numeral at member
  split at member
  · rw [List.mem_singleton] at member
    exact member ▸ isDigit_digitByte (by omega)
  · obtain ⟨digit, inside, rfl⟩ := List.mem_map.mp (List.mem_reverse.mp member)
    exact isDigit_digitByte (Nat.digits_lt_base (by omega) inside)

/-- A number has at least one digit. -/
theorem numeral_ne_nil (number : Nat) : numeral number ≠ [] := by
  unfold numeral
  split
  · exact List.cons_ne_nil _ _
  · next positive =>
      simp only [ne_eq, List.reverse_eq_nil_iff, List.map_eq_nil_iff, Nat.digits_eq_nil_iff_eq_zero]
      exact positive

/-- A number below a power of ten has at most as many digits as the exponent. -/
theorem length_numeral_le {number digits : Nat} (positive : 0 < digits)
    (small : number < 10 ^ digits) : (numeral number).length ≤ digits := by
  unfold numeral
  split
  · exact positive
  · rw [List.length_reverse, List.length_map]
    exact (Nat.digits_length_le_iff (by decide) number).mpr small

/-- Horner's rule, from the last digit on. -/
private theorem foldr_digitByte (digits : List Nat) (bounds : ∀ digit ∈ digits, digit < 10) :
    (digits.map digitByte).foldr (fun byte total => 10 * total + digitValue byte) 0 =
      Nat.ofDigits 10 digits := by
  induction digits with
  | nil => rfl
  | cons digit rest ih =>
      rw [List.map_cons, List.foldr_cons, ih fun other member =>
        bounds other (List.mem_cons_of_mem _ member), Nat.ofDigits_cons,
        digitValue_digitByte (bounds digit List.mem_cons_self)]
      exact Nat.add_comm _ _

/-- A numeral stands for its number. -/
theorem value_numeral (number : Nat) : value (numeral number) = number := by
  unfold value numeral
  split
  · next zero =>
      simp only [List.foldl_cons, List.foldl_nil, digitValue_digitByte (show 0 < 10 by omega), zero]
  · rw [List.foldl_reverse,
      foldr_digitByte _ fun digit member => Nat.digits_lt_base (by omega) member,
      Nat.ofDigits_digits]

theorem numeral_injective : Function.Injective numeral := by
  intro first second same
  rw [← value_numeral first, same, value_numeral]

/-- The digits at the front of a numeral followed by anything else are the numeral. -/
theorem takeWhile_numeral (number : Nat) (rest : List UInt8)
    (stops : ∀ byte ∈ rest.head?, isDigit byte = false) :
    (numeral number ++ rest).takeWhile isDigit = numeral number := by
  rw [List.takeWhile_append_of_pos fun byte member => isDigit_of_mem_numeral member]
  cases rest with
  | nil => rw [List.takeWhile_nil, List.append_nil]
  | cons byte tail =>
      have stop := stops byte rfl
      rw [List.takeWhile_cons, stop, if_neg Bool.false_ne_true, List.append_nil]

end Decimal
