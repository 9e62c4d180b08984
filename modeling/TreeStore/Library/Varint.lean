import Mathlib.Tactic

/-!
# Numerals to the base 128

A number is written in groups of seven bits, the lowest group first.  Every
group but the last has the eighth bit of its byte set.
-/

namespace Varint

/-- The bytes of a number. -/
def bytes (number : Nat) : List UInt8 :=
  if number < 128 then [.ofNat number]
  else .ofNat (number % 128 + 128) :: bytes (number / 128)

section Bytes

variable {number : Nat}

theorem bytes_of_lt (small : number < 128) : bytes number = [.ofNat number] := by
  rw [bytes, if_pos small]

theorem bytes_of_le (large : 128 ≤ number) :
    bytes number = .ofNat (number % 128 + 128) :: bytes (number / 128) := by
  rw [bytes, if_neg (by omega)]

theorem bytes_ne_nil (number : Nat) : bytes number ≠ [] := by
  rw [bytes]
  split_ifs <;> simp

theorem length_bytes_pos (number : Nat) : 0 < (bytes number).length :=
  List.length_pos_of_ne_nil (bytes_ne_nil number)

/-- A number of so many groups has no more bytes. -/
theorem length_bytes_le {groups : Nat} (fits : number < 128 ^ (groups + 1)) :
    (bytes number).length ≤ groups + 1 := by
  induction groups generalizing number with
  | zero =>
      rw [bytes_of_lt (by simpa using fits)]
      simp
  | succ groups ih =>
      by_cases small : number < 128
      · rw [bytes_of_lt small]
        simp
      · rw [bytes_of_le (by omega), List.length_cons]
        apply Nat.succ_le_succ
        apply ih
        rw [pow_succ] at fits
        omega

/-- A list of bytes with its length in front of it. -/
def framed (body : List UInt8) : List UInt8 :=
  bytes body.length ++ body

end Bytes

section Groups

theorem toNat_ofNat {number : Nat} (fits : number < 256) :
    (UInt8.ofNat number).toNat = number := by
  rw [UInt8.toNat_ofNat']
  exact Nat.mod_eq_of_lt fits

/-- The seven bits of a group. -/
theorem toNat_and_mask (byte : UInt8) : (byte &&& 0x7F).toNat = byte.toNat % 128 := by
  rw [UInt8.toNat_and]
  exact Nat.and_two_pow_sub_one_eq_mod byte.toNat 7

/-- The eighth bit says that another group follows. -/
theorem and_flag_eq_zero (byte : UInt8) : byte &&& 0x80 = 0 ↔ byte.toNat < 128 := by
  have every : ∀ number : Fin 256,
      UInt8.ofNat number.val &&& 0x80 = 0 ↔ number.val < 128 := by decide +kernel
  have small := byte.toNat_lt
  have same : UInt8.ofNat byte.toNat = byte := by simp
  have here := every ⟨byte.toNat, small⟩
  dsimp only at here
  rwa [same] at here

theorem or_flag {number : Nat} (fits : number < 128) :
    UInt8.ofNat number ||| 0x80 = UInt8.ofNat (number + 128) := by
  apply UInt8.toNat_inj.mp
  rw [UInt8.toNat_or, toNat_ofNat (by omega), toNat_ofNat (by omega)]
  have joined := Nat.two_pow_add_eq_or_of_lt (i := 7) (b := number) fits 1
  rw [Nat.or_comm]
  have flag : (0x80 : UInt8).toNat = 2 ^ 7 * 1 := rfl
  rw [flag, ← joined]
  omega

end Groups

end Varint
