import Mathlib.Algebra.Group.Nat.Defs
import BoostAsio.Core.Stream.IStream

/-!
# Decimal numerals

`std::to_string` on unsigned values and `std::stoul` with a 64-bit `unsigned long`.
Reading skips blanks, takes an optional sign and the longest digit run, and ignores
whatever follows; both of its failures are `std::logic_error`s.
-/

namespace BoostAsio

/-- The decimal digits. -/
def isDigit (c : UInt8) : Bool := 48 ≤ c && c ≤ 57

/-- The natural number a digit run denotes, most significant digit first. -/
def decimalValue (digits : Bytes) : Nat :=
  digits.foldl (fun n c => 10 * n + (c.toNat - 48)) 0

/-- `std::to_string` of an unsigned value. -/
def decimal (n : Nat) : Bytes := (Nat.toDigits 10 n).map fun c => c.toNat.toUInt8

/-- The two `std::logic_error`s that `std::stoul` throws. -/
inductive LogicError
  | invalidArgument | outOfRange
  deriving DecidableEq, Repr

/-- `std::stoul` in base ten. A minus sign negates in the unsigned type, and the range
check is on the magnitude. -/
def stoul (s : Bytes) : Except LogicError UInt64 :=
  let s := s.dropWhile isSpace
  let negative := s.head? == some 45
  let s := if s.head? == some 45 || s.head? == some 43 then s.tail else s
  let digits := s.takeWhile isDigit
  if digits = [] then .error .invalidArgument
  else if 2 ^ 64 ≤ decimalValue digits then .error .outOfRange
  else if negative then .ok (-(decimalValue digits).toUInt64)
  else .ok (decimalValue digits).toUInt64

/-- A digit is neither blank nor a sign. -/
theorem isDigit_facts {c : UInt8} (h : isDigit c = true) :
    isSpace c = false ∧ c ≠ 45 ∧ c ≠ 43 := by
  simp only [isDigit, Bool.and_eq_true, decide_eq_true_eq, UInt8.le_iff_toNat_le] at h
  obtain ⟨hl, hu⟩ := h
  change 48 ≤ c.toNat at hl
  change c.toNat ≤ 57 at hu
  refine ⟨?_, ?_, ?_⟩
  · have h32 : c ≠ 32 := by rintro rfl; simp at hl
    have h13 : ¬ c ≤ 13 := by
      rw [UInt8.le_iff_toNat_le]
      change ¬ c.toNat ≤ 13
      omega
    simp [isSpace, h32, h13]
  · rintro rfl; simp at hl
  · rintro rfl; simp at hl

theorem decimal_ne_nil (n : Nat) : decimal n ≠ [] := by
  simp [decimal, Nat.toDigits_ne_nil]

private theorem toNat_lt_of_isDigit {c : Char} (h : c.isDigit) :
    48 ≤ c.toNat ∧ c.toNat ≤ 57 := by
  simp only [Char.isDigit, Bool.and_eq_true, decide_eq_true_eq, ge_iff_le,
    UInt32.le_iff_toNat_le] at h
  exact h

private theorem toNat_toUInt8 {c : Char} (h : c.isDigit) : c.toNat.toUInt8.toNat = c.toNat := by
  have hc := toNat_lt_of_isDigit h
  simp only [Nat.toUInt8, UInt8.toNat_ofNat']
  omega

/-- Every byte of a numeral is a digit. -/
theorem isDigit_of_mem_decimal {n : Nat} {d : UInt8} (h : d ∈ decimal n) : isDigit d = true := by
  obtain ⟨c, hc, rfl⟩ := List.mem_map.mp h
  have hd := Nat.isDigit_of_mem_toDigits (by decide) (by decide) hc
  have hb := toNat_lt_of_isDigit hd
  have he := toNat_toUInt8 hd
  simp only [isDigit, Bool.and_eq_true, decide_eq_true_eq, UInt8.le_iff_toNat_le]
  change 48 ≤ c.toNat.toUInt8.toNat ∧ c.toNat.toUInt8.toNat ≤ 57
  omega

/-- Reading a numeral back gives the number written. -/
theorem decimalValue_decimal (n : Nat) : decimalValue (decimal n) = n := by
  have hfold : ∀ (cs : List Char) (k : Nat), (∀ c ∈ cs, c.isDigit) →
      cs.foldl (fun m c => 10 * m + (c.toNat.toUInt8.toNat - 48)) k =
        cs.foldl (fun m c => 10 * m + (c.toNat - 48)) k := by
    intro cs
    induction cs with
    | nil => intro k _; rfl
    | cons c cs ih =>
      intro k hcs
      have hc := toNat_toUInt8 (hcs c (List.mem_cons_self ..))
      simp only [List.foldl_cons, hc]
      exact ih _ fun x hx => hcs x (List.mem_cons_of_mem _ hx)
  have hdigits : ∀ c ∈ Nat.toDigits 10 n, c.isDigit := fun c hc =>
    Nat.isDigit_of_mem_toDigits (by decide) (by decide) hc
  rw [decimalValue, decimal, List.foldl_map, hfold _ _ hdigits]
  simpa [Nat.ofDigitChars_eq_foldl] using Nat.ofDigitChars_ten_toDigits (n := n)

/-- A pure digit string reads as its value, unless it is too large. -/
theorem stoul_digits {digits : Bytes} (hne : digits ≠ [])
    (h : ∀ c ∈ digits, isDigit c = true) :
    stoul digits = if 2 ^ 64 ≤ decimalValue digits then .error .outOfRange
      else .ok (decimalValue digits).toUInt64 := by
  obtain ⟨d, ds, rfl⟩ := List.exists_cons_of_ne_nil hne
  obtain ⟨hs, hm, hp⟩ := isDigit_facts (h d (List.mem_cons_self ..))
  have hdrop : (d :: ds).dropWhile isSpace = d :: ds :=
    List.dropWhile_cons_of_neg (by simp [hs])
  have htake : (d :: ds).takeWhile isDigit = d :: ds := List.takeWhile_eq_self_iff.mpr h
  have hminus : ((d :: ds).head? == some 45) = false := by simp [hm]
  have hplus : ((d :: ds).head? == some 43) = false := by simp [hp]
  simp only [stoul, hdrop, hminus, hplus, Bool.or_false, Bool.false_eq_true, ite_false, htake,
    List.cons_ne_nil]

/-- `std::stoul` undoes `std::to_string` on every 64-bit value. -/
theorem stoul_decimal {n : Nat} (h : n < 2 ^ 64) : stoul (decimal n) = .ok n.toUInt64 := by
  rw [stoul_digits (decimal_ne_nil n) fun c hc => isDigit_of_mem_decimal hc,
    decimalValue_decimal, if_neg (by omega)]

end BoostAsio
