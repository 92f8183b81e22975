import Bp2p.Lib.Decimal
import Bp2p.Lib.Separator
import Mathlib.Data.Int.Order.Basic
import Std.Data.TreeMap.Lemmas

/-! # Strings, numbers and maps

The utilities of the node (`Utils`) and the parts of the C++ standard library
the rest of the program is written with. A `std::string` or `vector<char>` is a
list of bytes, a `std::map` a tree map ordered by the keys' byte order, an `int`
an `Int32`. The random number `Utils::grnd` returns is an input of the function
that draws it.
-/

namespace Bp2p

/-- A `std::string` or `vector<char>`. -/
abbrev Bytes := List UInt8

/-- A string literal of the source. -/
def ascii (text : List Char) : Bytes := text.map Char.toUInt8

/-- `std::string::find(sep, pos)`: the leftmost occurrence from a position on. -/
def findFrom (text sep : Bytes) (pos : Nat) : Option Nat :=
  (Separator.find sep (text.drop pos)).map (· + pos)

/-- `std::string::substr(pos, len)` with an `int` length. A negative length becomes
a `size_t` beyond every string, so the rest of the text is returned. -/
def substr (text : Bytes) (pos : Nat) (len : Int32) : Bytes :=
  if len.toInt < 0 then text.drop pos else (text.drop pos).take len.toInt.toNat

/-- What `stoi` throws. -/
inductive StoiError
  | invalidArgument
  | outOfRange
  deriving DecidableEq, Repr

/-- White space as `isspace` in the C locale. -/
def isSpace (byte : UInt8) : Bool :=
  byte == 32 || (decide (9 ≤ byte) && decide (byte ≤ 13))

/-- The sign and the digits `strtol` reads in base ten. -/
def strtolParts (text : Bytes) : Bool × Bytes :=
  match text.dropWhile isSpace with
  | 43 :: rest => (false, rest.takeWhile Decimal.isDigit)
  | 45 :: rest => (true, rest.takeWhile Decimal.isDigit)
  | rest => (false, rest.takeWhile Decimal.isDigit)

/-- `std::stoi`: leading white space, an optional sign, the longest run of digits;
whatever follows is ignored. -/
def stoi (text : Bytes) : Except StoiError Int32 :=
  let (negative, digits) := strtolParts text
  if digits.isEmpty then .error .invalidArgument
  else
    let number : Int := if negative then -Decimal.value digits else Decimal.value digits
    if -2 ^ 31 ≤ number ∧ number < 2 ^ 31 then .ok (Int32.ofInt number) else .error .outOfRange

/-- `std::to_string(int)`. -/
def toString32 (number : Int32) : Bytes :=
  if number.toInt < 0 then 45 :: Decimal.numeral number.toInt.natAbs
  else Decimal.numeral number.toInt.natAbs

/-- The bytes up to the first NUL, as reading a `char*` stops there. -/
def cString (memory : Bytes) : Bytes := memory.takeWhile (· != 0)

namespace Utils

/-- A separator `tokenize` is called with. With an empty one its loop would never
end; every caller passes a non-empty literal. -/
abbrev Sep := {sep : Bytes // sep ≠ []}

/-- The loop of `tokenize`. The length of a token is computed in an `int`. -/
def tokenizeLoop (text : Bytes) (sep : Sep) (pos prevPos : Nat) (tokens : List Bytes) :
    List Bytes :=
  match _found : findFrom text sep pos with
  | some occurrence =>
      let len := Int32.ofNat (occurrence - prevPos)
      tokenizeLoop text sep (occurrence + sep.val.length) (occurrence + sep.val.length)
        (tokens ++ [substr text prevPos len])
  -- `pos` is `npos` here, so the last token is always pushed
  | none => tokens ++ [text.drop prevPos]
termination_by text.length + 1 - pos
decreasing_by
  obtain ⟨inner, inside, rfl⟩ := Option.map_eq_some_iff.mp _found
  have fits := Separator.find_add_length_le inside
  have positive := List.length_pos_of_ne_nil sep.property
  rw [List.length_drop] at fits
  omega

/-- `Utils::tokenize`, appending to the caller's vector. -/
def tokenize (text : Bytes) (sep : Sep) (tokens : List Bytes) : List Bytes :=
  tokenizeLoop text sep 0 0 tokens

/-- One turn of the inner loop of `swapKeyVal`. -/
def swapVal {κ ν : Type} [Ord ν] (dest : Std.TreeMap ν (List κ)) (key : κ) (val : ν) :
    Std.TreeMap ν (List κ) :=
  match dest[val]? with
  | none => dest.insert val [key]
  | some keys => dest.insert val (keys ++ [key])

/-- `Utils::swapKeyVal`. -/
def swapKeyVal {κ ν : Type} [Ord κ] [Ord ν] (dest : Std.TreeMap ν (List κ))
    (source : Std.TreeMap κ (List ν)) : Std.TreeMap ν (List κ) :=
  source.foldl (fun dest key vals => vals.foldl (fun dest val => swapVal dest key val) dest) dest

end Utils

theorem toInt_ofNat_neg_iff (number : Nat) :
    (Int32.ofNat number).toInt < 0 ↔ 2 ^ 31 ≤ number % 2 ^ 32 := by
  simp only [Int32.toInt_ofNat', Int.bmod_def, Int32.size]
  omega

theorem toNat_toInt_ofNat {number : Nat} (low : number % 2 ^ 32 < 2 ^ 31) :
    (Int32.ofNat number).toInt.toNat = number % 2 ^ 32 := by
  simp only [Int32.toInt_ofNat', Int.bmod_def, Int32.size]
  omega

/-- A digit is part of the number that `strtol` reads. -/
private theorem strtolParts_digit {first : UInt8} {rest : Bytes}
    (digit : Decimal.isDigit first = true) :
    strtolParts (first :: rest) = (false, (first :: rest).takeWhile Decimal.isDigit) := by
  have range : 48 ≤ first.toNat ∧ first.toNat ≤ 57 := by
    simpa only [Decimal.isDigit, Bool.and_eq_true, decide_eq_true_eq] using digit
  have solid : isSpace first = false := by
    have notSpace : first ≠ 32 := fun same => absurd range.1 (by subst same; decide)
    have high : ¬ first ≤ 13 := by
      rw [UInt8.le_iff_toNat_le]
      exact fun low => absurd (range.1.trans low) (by decide)
    simp only [isSpace, beq_eq_false_iff_ne.mpr notSpace, high, decide_false, Bool.and_false,
      Bool.or_self]
  unfold strtolParts
  rw [List.dropWhile_cons, solid, if_neg Bool.false_ne_true]
  split
  · exact absurd range.1 (by simp_all)
  · exact absurd range.1 (by simp_all)
  · rfl

/-- A numeral in front of anything that is not a digit is read as its number. -/
theorem stoi_numeral_append {number : Nat} (small : number < 2 ^ 31) (rest : Bytes)
    (stops : ∀ byte ∈ rest.head?, Decimal.isDigit byte = false) :
    stoi (Decimal.numeral number ++ rest) = .ok (Int32.ofNat number) := by
  cases shape : Decimal.numeral number with
  | nil => exact absurd shape (Decimal.numeral_ne_nil number)
  | cons first tail =>
      have digit : Decimal.isDigit first = true :=
        Decimal.isDigit_of_mem_numeral (shape ▸ List.mem_cons_self)
      have digits := Decimal.takeWhile_numeral number rest stops
      rw [shape, List.cons_append] at digits
      unfold stoi
      rw [List.cons_append, strtolParts_digit digit, digits, ← shape]
      simp only [List.isEmpty_iff, Decimal.numeral_ne_nil, ↓reduceIte, Bool.false_eq_true,
        Decimal.value_numeral]
      rw [if_pos (by omega), Int32.ofInt_eq_ofNat]

/-- Reading back what `to_string` prints. -/
theorem stoi_toString32 (number : Int32) : stoi (toString32 number) = .ok number := by
  have lower := number.le_toInt
  have upper := number.toInt_lt
  unfold toString32
  split
  · next negative =>
      have digits := Decimal.takeWhile_numeral number.toInt.natAbs []
        (by simp only [List.head?_nil, Option.not_mem_none, false_implies, implies_true])
      rw [List.append_nil] at digits
      have parts : strtolParts (45 :: Decimal.numeral number.toInt.natAbs) =
          (true, Decimal.numeral number.toInt.natAbs) := by
        simp only [strtolParts, List.dropWhile_cons, show isSpace 45 = false by decide,
          Bool.false_eq_true, ↓reduceIte, digits]
      unfold stoi
      rw [parts]
      simp only [List.isEmpty_iff, Decimal.numeral_ne_nil, ↓reduceIte, Decimal.value_numeral]
      have back : -(number.toInt.natAbs : Int) = number.toInt := by omega
      rw [back, if_pos ⟨lower, upper⟩, Int32.ofInt_toInt]
  · next nonnegative =>
      have back : Int32.ofNat number.toInt.natAbs = number := by
        rw [← Int32.ofInt_eq_ofNat, show (number.toInt.natAbs : Int) = number.toInt by omega,
          Int32.ofInt_toInt]
      have read := stoi_numeral_append (show number.toInt.natAbs < 2 ^ 31 by omega) []
        (by simp only [List.head?_nil, Option.not_mem_none, false_implies, implies_true])
      rw [List.append_nil, back] at read
      exact read

end Bp2p
