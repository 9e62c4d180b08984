import TreeStore.Wire.Fields
import TreeStore.Wire.Varints

/-!
# What encoders write

`Writes encoder bytes`: the encoder succeeds wherever there is room for these
bytes, and sends them, or counts them on a stream without a callback.
-/

namespace TreeStore

namespace Wire

open Encoder

section Streams

variable (stream : Ostream) (bytes more : List UInt8)

def Ostream.put : Ostream :=
  { stream with
    state := if stream.callback then stream.state ++ bytes else stream.state
    bytesWritten := stream.bytesWritten + bytes.length }

/-- There is room for so many bytes; a stream that only counts has no limit. -/
def Ostream.HasRoom (count : Nat) : Prop :=
  stream.callback = true → stream.bytesWritten + count ≤ stream.maxSize

variable {stream bytes more}

@[simp]
theorem Ostream.put_errmsg : (stream.put bytes).errmsg = stream.errmsg :=
  rfl

@[simp]
theorem Ostream.put_nil : stream.put [] = stream := by
  rcases stream with ⟨callback, state, maxSize, bytesWritten, errmsg⟩
  simp [Ostream.put]

theorem Ostream.put_append :
    stream.put (bytes ++ more) = (stream.put bytes).put more := by
  unfold Ostream.put
  cases stream.callback <;> simp [Nat.add_assoc]

theorem Ostream.HasRoom.first
    (room : stream.HasRoom (bytes ++ more).length) :
    stream.HasRoom bytes.length := by
  intro sends
  have := room sends
  rw [List.length_append] at this
  omega

theorem Ostream.HasRoom.rest
    (room : stream.HasRoom (bytes ++ more).length) :
    (stream.put bytes).HasRoom more.length := by
  intro sends
  have := room sends
  rw [List.length_append] at this
  change stream.bytesWritten + bytes.length + more.length ≤ stream.maxSize
  omega

end Streams

def Writes (encoder : Encoder Unit) (bytes : List UInt8) : Prop :=
  ∀ stream, stream.errmsg = none → stream.HasRoom bytes.length →
    encoder.run stream = (some (), stream.put bytes)

/-- The encoder fails on every stream. -/
def Refuses (encoder : Encoder Unit) : Prop :=
  ∀ stream, (encoder.run stream).1 = none

section Rules

variable {encoder : Encoder Unit} {next : Unit → Encoder Unit}
  {bytes more : List UInt8}

theorem writes_pure : Writes (pure ()) [] := by
  intro stream clean room
  rw [Ostream.put_nil]
  rfl

theorem Writes.bind (writes : Writes encoder bytes)
    (rest : Writes (next ()) more) :
    Writes (encoder >>= next) (bytes ++ more) := by
  intro stream clean room
  rw [Fallible.run_bind_some (writes stream clean room.first),
    rest (stream.put bytes) clean room.rest, Ostream.put_append]

theorem Refuses.bind (refuses : Refuses encoder) : Refuses (encoder >>= next) := by
  intro stream
  have fails := refuses stream
  cases ran : encoder.run stream with
  | mk outcome stream' =>
      rw [ran] at fails
      obtain rfl : outcome = none := fails
      rw [Fallible.run_bind_none ran]

theorem Refuses.behind (refuses : Refuses (next ())) :
    Refuses (encoder >>= next) := by
  intro stream
  cases ran : encoder.run stream with
  | mk outcome stream' =>
      cases outcome with
      | none => rw [Fallible.run_bind_none ran]
      | some done =>
          rw [Fallible.run_bind_some ran]
          exact refuses stream'

theorem refuses_returnError (msg : String) :
    Refuses (Encoder.returnError msg) :=
  fun _ => rfl

theorem writes_pbWrite (buf : List UInt8) : Writes (pbWrite buf) buf := by
  intro stream clean room
  rcases stream with ⟨callback, state, maxSize, bytesWritten, errmsg⟩
  unfold pbWrite
  rw [Fallible.run_bind]
  unfold Fallible.continueWith
  dsimp only
  by_cases empty : buf = []
  · subst empty
    rw [if_neg fun both => both.1 rfl, Ostream.put_nil]
    rfl
  cases callback with
  | false =>
      rw [if_neg (by simp)]
      rfl
  | true =>
      have fits := room rfl
      dsimp only at fits
      rw [if_pos ⟨empty, rfl⟩, if_neg (by omega)]
      rfl

end Rules

section Varints

theorem toUInt8_and_mask (word : UInt32) :
    (word &&& 0x7F).toUInt8.toNat = word.toNat % 128 := by
  rw [UInt32.toNat_toUInt8, UInt32.toNat_and]
  change (word.toNat &&& (2 ^ 7 - 1)) % 256 = _
  rw [Nat.and_two_pow_sub_one_eq_mod]
  omega

theorem toNat_shiftRight_seven (word : UInt32) :
    (word >>> 7).toNat = word.toNat / 128 := by
  rw [UInt32.toNat_shiftRight, Nat.shiftRight_eq_div_pow]
  rfl

theorem eq_ofNat_of_toNat {byte : UInt8} {number : Nat}
    (same : byte.toNat = number) : byte = .ofNat number := by
  rw [← same, UInt8.ofNat_toNat]

theorem uint32_eq_zero_iff (word : UInt32) : word = 0 ↔ word.toNat = 0 :=
  ⟨fun zero => by rw [zero]; rfl, fun zero => UInt32.toNat_inj.mp zero⟩

theorem varintHigh_eq {number : Nat} {byte : UInt8} {high : UInt32}
    (low_part : byte.toNat = number % 128)
    (high_part : high.toNat = number / 128) :
    varintHigh byte high = Varint.bytes number := by
  induction number using Nat.strong_induction_on generalizing byte high with
  | _ number ih =>
      rw [varintHigh]
      by_cases small : number < 128
      · rw [if_neg (by rw [not_not, uint32_eq_zero_iff]; omega),
          Varint.bytes_of_lt small, eq_ofNat_of_toNat low_part,
          Nat.mod_eq_of_lt small]
      · rw [if_pos (by rw [Ne, uint32_eq_zero_iff]; omega),
          Varint.bytes_of_le (by omega), eq_ofNat_of_toNat low_part,
          Varint.or_flag (Nat.mod_lt _ (by decide)),
          ih (number / 128) (by omega)
            (by rw [toUInt8_and_mask, high_part])
            (by rw [toNat_shiftRight_seven, high_part])]

/-- What comes behind the buffer of the first loop. -/
def varintTail (byte : UInt8) (high : UInt32) : List UInt8 :=
  if high ≠ 0 then
    varintHigh (byte ||| ((high &&& 0x07) <<< 4).toUInt8) (high >>> 3)
  else [byte]

theorem varintTail_eq {number : Nat} {byte : UInt8} (high : UInt32)
    (same : byte.toNat = number) (small : number < 16) :
    varintTail byte high = Varint.bytes (number + 16 * high.toNat) := by
  unfold varintTail
  by_cases none_high : high = 0
  · subst none_high
    have total : number + 16 * (0 : UInt32).toNat = number := by simp
    rw [if_neg (not_not.mpr rfl), total, Varint.bytes_of_lt (by omega),
      eq_ofNat_of_toNat same]
  · rw [if_pos none_high]
    have three : (high &&& 0x07).toNat = high.toNat % 8 := by
      rw [UInt32.toNat_and]
      exact Nat.and_two_pow_sub_one_eq_mod high.toNat 3
    have shifted : ((high &&& 0x07) <<< 4).toUInt8.toNat =
        2 ^ 4 * (high.toNat % 8) := by
      rw [UInt32.toNat_toUInt8, UInt32.toNat_shiftLeft, three,
        Nat.shiftLeft_eq]
      change high.toNat % 8 * 2 ^ 4 % 2 ^ 32 % 256 = _
      omega
    apply varintHigh_eq
    · rw [UInt8.toNat_or, shifted, same, Nat.or_comm,
        ← Nat.two_pow_add_eq_or_of_lt (show number < 2 ^ 4 from small)]
      omega
    · rw [UInt32.toNat_shiftRight, Nat.shiftRight_eq_div_pow]
      change high.toNat / 8 = _
      omega

/-- The first loop, before a group of the low half. -/
theorem varintLow_eq (rounds : Nat) {number : Nat} {byte : UInt8}
    {low : UInt32} (high : UInt32) (low_part : byte.toNat = number % 128)
    (high_part : low.toNat = number / 128)
    (fits : number < 2 ^ (4 + 7 * rounds)) :
    (varintLow rounds byte low high).2 ++
        varintTail (varintLow rounds byte low high).1 high =
      Varint.bytes (number + 2 ^ (4 + 7 * rounds) * high.toNat) := by
  induction rounds generalizing number byte low with
  | zero =>
      have small : number < 16 := fits
      have same : byte.toNat = number := by omega
      exact varintTail_eq high same small
  | succ rounds ih =>
      have step : 2 ^ (4 + 7 * (rounds + 1)) = 2 ^ (4 + 7 * rounds) * 128 := by
        rw [Nat.mul_succ, ← Nat.add_assoc, pow_add]
        rfl
      have quotient : number / 128 < 2 ^ (4 + 7 * rounds) := by omega
      rw [step, varintLow]
      by_cases more : low ≠ 0 ∨ high ≠ 0
      · rw [if_pos more]
        have several : 128 ≤ number + 2 ^ (4 + 7 * rounds) * 128 * high.toNat := by
          rcases more with some_low | some_high
          · rw [Ne, uint32_eq_zero_iff] at some_low
            omega
          · rw [Ne, uint32_eq_zero_iff] at some_high
            have := Nat.two_pow_pos (4 + 7 * rounds)
            nlinarith [Nat.pos_of_ne_zero some_high]
        have rest := @ih (number / 128) (low &&& 0x7F).toUInt8 (low >>> 7)
          (by rw [toUInt8_and_mask, high_part])
          (by rw [toNat_shiftRight_seven, high_part]) quotient
        have regroup : number + 2 ^ (4 + 7 * rounds) * 128 * high.toNat =
            number + 128 * (2 ^ (4 + 7 * rounds) * high.toNat) := by ring
        rw [Varint.bytes_of_le several, regroup, Nat.add_mul_mod_self_left,
          Nat.add_mul_div_left _ _ (by decide), ← rest,
          eq_ofNat_of_toNat low_part,
          Varint.or_flag (Nat.mod_lt _ (by decide))]
        rfl
      · obtain ⟨none_low, none_high⟩ := not_or.mp more
        rw [not_not] at none_low none_high
        subst none_high
        rw [none_low] at high_part
        have zero : (0 : UInt32).toNat = 0 := rfl
        have small : number < 128 := by omega
        rw [if_neg more, zero, Nat.mul_zero, Nat.add_zero,
          Varint.bytes_of_lt small]
        unfold varintTail
        rw [if_neg (not_not.mpr rfl), eq_ofNat_of_toNat low_part,
          Nat.mod_eq_of_lt small]
        rfl

theorem varint32Buffer_eq (low high : UInt32) :
    varint32Buffer low high =
      Varint.bytes (low.toNat + 2 ^ 32 * high.toNat) := by
  have whole := @varintLow_eq 4 low.toNat (low &&& 0x7F).toUInt8 (low >>> 7)
    high (toUInt8_and_mask low) (toNat_shiftRight_seven low) low.toNat_lt
  rw [← whole]
  unfold varint32Buffer varintTail
  dsimp only
  split_ifs <;> rfl

theorem writes_pbEncodeVarint (value : UInt64) :
    Writes (pbEncodeVarint value) (Varint.bytes value.toNat) := by
  unfold pbEncodeVarint
  by_cases small : value ≤ 0x7F
  · have small' : value.toNat < 128 := by
      have := UInt64.le_iff_toNat_le.mp small
      change value.toNat ≤ 127 at this
      omega
    have byte : value.toUInt8 = .ofNat value.toNat := by
      apply eq_ofNat_of_toNat
      rw [UInt64.toNat_toUInt8]
      omega
    rw [if_pos small, Varint.bytes_of_lt small', byte]
    exact writes_pbWrite _
  · have halves : value.toUInt32.toNat +
        2 ^ 32 * (value >>> 32).toUInt32.toNat = value.toNat := by
      have := value.toNat_lt
      rw [UInt64.toNat_toUInt32, UInt64.toNat_toUInt32,
        UInt64.toNat_shiftRight, Nat.shiftRight_eq_div_pow]
      change value.toNat % 2 ^ 32 + 2 ^ 32 * (value.toNat / 2 ^ 32 % 2 ^ 32) = _
      omega
    rw [if_neg small]
    unfold pbEncodeVarint32
    rw [varint32Buffer_eq, halves]
    exact writes_pbWrite _

end Varints

end Wire

end TreeStore
