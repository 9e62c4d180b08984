import Mathlib.Data.List.TakeWhile
import TreeStore.StoragePublic

/-!
# Decimal numerals

How `isNumeric`, `strtol` and `atoi` read the digits of a number.
-/

namespace TreeStore

/-- A decimal numeral without sign. -/
structure Numeral (literal : List UInt8) : Prop where
  nonempty : literal ≠ []
  digits : ∀ char ∈ literal, 48 ≤ char ∧ char ≤ 57

instance (literal : List UInt8) : Decidable (Numeral literal) :=
  decidable_of_iff (literal ≠ [] ∧
      literal.all (fun char => 48 ≤ char ∧ char ≤ 57) = true)
    ⟨fun ⟨nonempty, digits⟩ => ⟨nonempty, by simpa using digits⟩,
    fun numeral => ⟨numeral.nonempty, by simpa using numeral.digits⟩⟩

/-- The number that the digits denote. -/
def numeralValue (literal : List UInt8) : Nat :=
  literal.foldl (fun number char => number * 10 + (char.toNat - 48)) 0

section Numerals

variable {literal : List UInt8} {str : CharPtr}

theorem Numeral.zero_notMem (numeral : Numeral literal) : 0 ∉ literal :=
  fun member => absurd (numeral.digits 0 member).1 (by decide)

theorem isNumeric_of_digits (text : textOf str = literal)
    (digits : ∀ char ∈ literal, 48 ≤ char ∧ char ≤ 57) :
    isNumeric str = true := by
  rw [isNumeric, text, List.all_eq_true]
  intro char member
  exact decide_eq_true
    (digits char ((List.takeWhile_sublist _).subset member))

theorem numeralValue_append (front back : List UInt8) :
    numeralValue (front ++ back) =
      numeralValue front * 10 ^ back.length + numeralValue back := by
  have shifted (start : Nat) :
      back.foldl (fun number char => number * 10 + (char.toNat - 48)) start =
        start * 10 ^ back.length + numeralValue back := by
    induction back generalizing start with
    | nil => exact (Nat.mul_one start).symm
    | cons char back ih =>
        rw [numeralValue, List.foldl_cons, List.foldl_cons, ih, ih (_ + _),
          List.length_cons, pow_succ]
        ring
  rw [numeralValue, List.foldl_append]
  exact shifted _

theorem numeralValue_le_of_infix {part : List UInt8} (inside : part <:+: literal) :
    numeralValue part ≤ numeralValue literal := by
  obtain ⟨front, back, rfl⟩ := inside
  rw [numeralValue_append, numeralValue_append]
  have positive : 1 ≤ 10 ^ back.length := Nat.one_le_pow _ _ (by decide)
  have := Nat.le_mul_of_pos_right (numeralValue part) positive
  rw [Nat.add_mul]
  omega

/-- `strtol` reads all the digits, and stops at the largest `long`. -/
theorem strtolDigits_of_digits (text : textOf str = literal)
    (digits : ∀ char ∈ literal, 48 ≤ char ∧ char ≤ 57) :
    strtolDigits str = min (numeralValue literal) (2 ^ 63 - 1) := by
  have started : literal.dropWhile isSpace = literal := by
    cases literal with
    | nil => rfl
    | cons char rest =>
        obtain ⟨low, -⟩ := digits char (List.mem_cons_self ..)
        have visible : isSpace char = false := by
          rw [UInt8.le_iff_toNat_le] at low
          have : (48 : UInt8).toNat = 48 := rfl
          rw [isSpace, decide_eq_false_iff_not, ← UInt8.toNat_inj,
            UInt8.le_iff_toNat_le, UInt8.le_iff_toNat_le]
          rw [this] at low
          have : (32 : UInt8).toNat = 32 := rfl
          have : (13 : UInt8).toNat = 13 := rfl
          omega
        rw [List.dropWhile_cons_of_neg (by rw [visible]; decide)]
  have whole : literal.takeWhile (fun char =>
      decide (48 ≤ char ∧ char ≤ 57)) = literal := by
    rw [List.takeWhile_eq_self_iff]
    intro char member
    exact decide_eq_true (digits char member)
  rw [strtolDigits, text, started, whole]
  rfl

theorem strtolDigits_numeral (text : textOf str = literal)
    (numeral : Numeral literal) (fits : numeralValue literal < 2 ^ 63) :
    strtolDigits str = numeralValue literal := by
  rw [strtolDigits_of_digits text numeral.digits]
  omega

/-- The low half of a number, extended by its sign. -/
theorem signExtended_toNat (number : Nat) :
    (Int32.ofNat number).toInt64.toUInt64.toNat =
      if number % 2 ^ 32 < 2 ^ 31 then number % 2 ^ 32
      else 2 ^ 64 - 2 ^ 32 + number % 2 ^ 32 := by
  have extended : (Int32.ofNat number).toInt64.toUInt64.toBitVec =
      (BitVec.ofNat 32 number).signExtend 64 := rfl
  rw [← UInt64.toNat_toBitVec, extended, BitVec.toNat_signExtend,
    BitVec.msb_eq_decide, BitVec.toNat_setWidth, BitVec.toNat_ofNat]
  by_cases small : number % 2 ^ 32 < 2 ^ 31
  · rw [if_pos small, decide_eq_false (by omega), if_neg Bool.false_ne_true]
    omega
  · rw [if_neg small, decide_eq_true (by omega), if_pos rfl]
    omega

/-- `atoi` is right for the numbers of an `int`. -/
theorem signExtended_eq_iff {number : Nat} (fits : number < 2 ^ 63) :
    (Int32.ofNat number).toInt64.toUInt64.toNat = number ↔
      number < 2 ^ 31 := by
  rw [signExtended_toNat]
  split_ifs <;> omega

theorem atoiDigits_eq_iff (text : textOf str = literal)
    (numeral : Numeral literal) (fits : numeralValue literal < 2 ^ 63) :
    atoiDigits str = numeralValue literal ↔ numeralValue literal < 2 ^ 31 := by
  rw [atoiDigits, strtolDigits_numeral text numeral fits]
  exact signExtended_eq_iff fits

end Numerals

end TreeStore
