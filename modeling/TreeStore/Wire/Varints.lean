import TreeStore.Wire.Reading
import TreeStore.Library.Varint

/-!
# Varints on the wire

`pb_encode_varint` splits a number in two halves and so avoids shifts of 64 bits;
what it writes are the groups of the whole number.  Both decoders read them back.
-/

namespace TreeStore

namespace Wire

section Groups

/-- Seven more bits above those that are there. -/
theorem or_shift {low group bitpos : Nat} (below : low < 2 ^ bitpos) :
    low ||| group <<< bitpos = low + 2 ^ bitpos * group := by
  rw [Nat.shiftLeft_eq, Nat.mul_comm, Nat.or_comm,
    ← Nat.two_pow_add_eq_or_of_lt below, Nat.add_comm]

variable {bitpos : Nat} {byte : UInt8}

theorem toNat_joined64 {result : UInt64} (inside : bitpos < 64)
    (below : result.toNat < 2 ^ bitpos)
    (fits : 2 ^ bitpos * (byte.toNat % 128) < 2 ^ 64) :
    (result ||| (byte &&& 0x7F).toUInt64 <<< UInt64.ofNat bitpos).toNat =
      result.toNat + 2 ^ bitpos * (byte.toNat % 128) := by
  have position : (UInt64.ofNat bitpos).toNat % 64 = bitpos := by
    rw [UInt64.toNat_ofNat']
    omega
  have group : (byte.toNat % 128) <<< bitpos < 2 ^ 64 := by
    rwa [Nat.shiftLeft_eq, Nat.mul_comm]
  rw [UInt64.toNat_or, UInt64.toNat_shiftLeft, UInt8.toNat_toUInt64,
    Varint.toNat_and_mask, position, Nat.mod_eq_of_lt group, or_shift below]

theorem toNat_joined32 {result : UInt32} (inside : bitpos < 32)
    (below : result.toNat < 2 ^ bitpos)
    (fits : 2 ^ bitpos * (byte.toNat % 128) < 2 ^ 32) :
    (result ||| (byte &&& 0x7F).toUInt32 <<< UInt32.ofNat bitpos).toNat =
      result.toNat + 2 ^ bitpos * (byte.toNat % 128) := by
  have position : (UInt32.ofNat bitpos).toNat % 32 = bitpos := by
    rw [UInt32.toNat_ofNat']
    omega
  have group : (byte.toNat % 128) <<< bitpos < 2 ^ 32 := by
    rwa [Nat.shiftLeft_eq, Nat.mul_comm]
  rw [UInt32.toNat_or, UInt32.toNat_shiftLeft, UInt8.toNat_toUInt32,
    Varint.toNat_and_mask, position, Nat.mod_eq_of_lt group, or_shift below]

/-- The seventh group of a word of 64 bits has one bit only. -/
theorem and_0xFE_eq_zero (small : byte.toNat < 2) : byte &&& 0xFE = 0 := by
  have every : ∀ number : Fin 2, UInt8.ofNat number.val &&& 0xFE = 0 := by
    decide
  have here := every ⟨byte.toNat, small⟩
  dsimp only at here
  rwa [UInt8.ofNat_toNat] at here

/-- What the fifth group of a word of 32 bits keeps. -/
theorem toNat_and_0x0F (byte : UInt8) :
    (byte &&& 0x0F).toNat = byte.toNat % 128 % 16 := by
  rw [UInt8.toNat_and]
  have mask := Nat.and_two_pow_sub_one_eq_mod byte.toNat 4
  have sixteen : byte.toNat % 128 % 16 = byte.toNat % 2 ^ 4 := by omega
  rw [sixteen, ← mask]
  rfl

theorem and_0x70_eq_zero (small : byte.toNat % 128 < 16) :
    byte &&& 0x70 = 0 := by
  have every : ∀ number : Fin 256, number.val % 128 < 16 →
      UInt8.ofNat number.val &&& 0x70 = 0 := by
    decide +kernel
  have here := every ⟨byte.toNat, byte.toNat_lt⟩ small
  dsimp only at here
  rwa [UInt8.ofNat_toNat] at here

end Groups

section Decoding

/-- The rounds collect groups of seven bits in a word of this width, which they
put at `bitpos`. -/
def Collects {Word : Type} (width : Nat) (value : Word → Nat)
    (round : Nat × Word → Decoder ((Nat × Word) ⊕ Word)) : Prop :=
  ∀ bitpos (result : Word) (byte : UInt8), bitpos < width →
    value result < 2 ^ bitpos → 2 ^ bitpos * (byte.toNat % 128) < 2 ^ width →
    (128 ≤ byte.toNat → bitpos + 7 < width) →
      ∃ next, value next = value result + 2 ^ bitpos * (byte.toNat % 128) ∧
        Reads (round (bitpos, result)) [byte]
          (if byte &&& 0x80 ≠ 0 then .inl (bitpos + 7, next) else .inr next)
          Never

theorem collects_varintRound : Collects 64 UInt64.toNat varintRound := by
  intro bitpos result byte inside below fits continues
  have valid : ¬ (63 ≤ bitpos ∧ byte &&& 0xFE ≠ 0) := by
    rintro ⟨last, overflows⟩
    obtain rfl : bitpos = 63 := by omega
    exact overflows (and_0xFE_eq_zero (by omega))
  refine ⟨_, toNat_joined64 inside below fits, ?_⟩
  apply (reads_pbReadbyte byte).then_pure
  rw [if_neg valid]
  dsimp only
  split_ifs <;> rfl

theorem collects_varint32Round : Collects 32 UInt32.toNat varint32Round := by
  intro bitpos result byte inside below fits continues
  refine ⟨_, toNat_joined32 inside below fits, ?_⟩
  apply (reads_pbReadbyte byte).then_pure
  rw [if_neg (by omega)]
  by_cases last : bitpos = 28
  · subst last
    have plain := @and_0x70_eq_zero byte (by omega)
    have group : byte &&& 0x0F = byte &&& 0x7F := by
      apply UInt8.toNat_inj.mp
      rw [toNat_and_0x0F, Varint.toNat_and_mask]
      omega
    rw [if_pos rfl, if_neg fun overflows => overflows.1 plain, group]
  · rw [if_neg last]

theorem mul_two_pow_add_seven (bitpos number : Nat) :
    2 ^ bitpos * (number % 128) + 2 ^ (bitpos + 7) * (number / 128) =
      2 ^ bitpos * number := by
  have parts := Nat.mod_add_div number 128
  calc 2 ^ bitpos * (number % 128) + 2 ^ (bitpos + 7) * (number / 128)
      = 2 ^ bitpos * (number % 128 + 128 * (number / 128)) := by ring
    _ = 2 ^ bitpos * number := by rw [parts]

variable {Word : Type} {width : Nat} {value : Word → Nat}
  {round : Nat × Word → Decoder ((Nat × Word) ⊕ Word)}

/-- A number that fits into the word is read from its groups. -/
theorem Collects.reads (collects : Collects width value round)
    (progresses : Fallible.Progresses round) {bitpos number : Nat}
    {result : Word} (inside : bitpos < width)
    (below : value result < 2 ^ bitpos)
    (fits : 2 ^ bitpos * number < 2 ^ width) :
    ∃ word, value word = value result + 2 ^ bitpos * number ∧
      Reads (Fallible.loop progresses (bitpos, result)) (Varint.bytes number)
        word Never := by
  induction number using Nat.strong_induction_on generalizing bitpos result with
  | _ number ih =>
      by_cases small : number < 128
      · have byte := Varint.toNat_ofNat (show number < 256 by omega)
        have group : (UInt8.ofNat number).toNat % 128 = number := by
          rw [byte, Nat.mod_eq_of_lt small]
        obtain ⟨next, same, reads⟩ := collects bitpos result (.ofNat number)
          inside below (by rwa [group]) (by omega)
        have last : ¬ UInt8.ofNat number &&& 0x80 ≠ 0 := by
          rw [not_not, Varint.and_flag_eq_zero, byte]
          exact small
        rw [if_neg last] at reads
        rw [group] at same
        rw [Varint.bytes_of_lt small]
        exact ⟨next, same, reads.loop_inr⟩
      · have byte := Varint.toNat_ofNat (show number % 128 + 128 < 256 by omega)
        have group : (UInt8.ofNat (number % 128 + 128)).toNat % 128 =
            number % 128 := by
          rw [byte]
          omega
        have parts := mul_two_pow_add_seven bitpos number
        have room : bitpos + 7 < width := by
          by_contra far
          have wide : 2 ^ width ≤ 2 ^ (bitpos + 7) :=
            Nat.pow_le_pow_right (by omega) (by omega)
          have several : 2 ^ (bitpos + 7) * 1 ≤
              2 ^ (bitpos + 7) * (number / 128) :=
            Nat.mul_le_mul_left _ (by omega)
          omega
        obtain ⟨next, same, reads⟩ := collects bitpos result
          (.ofNat (number % 128 + 128)) inside below (by rw [group]; omega)
          fun _ => room
        have flag : UInt8.ofNat (number % 128 + 128) &&& 0x80 ≠ 0 := by
          rw [Ne, Varint.and_flag_eq_zero, byte]
          omega
        rw [if_pos flag] at reads
        rw [group] at same
        have above : 2 ^ bitpos * (number % 128) + 2 ^ bitpos ≤
            2 ^ (bitpos + 7) := by
          calc 2 ^ bitpos * (number % 128) + 2 ^ bitpos
              = 2 ^ bitpos * (number % 128 + 1) := by ring
            _ ≤ 2 ^ bitpos * 2 ^ 7 := Nat.mul_le_mul_left _ (by omega)
            _ = 2 ^ (bitpos + 7) := by rw [pow_add]
        obtain ⟨word, total, rest⟩ := @ih (number / 128) (by omega) (bitpos + 7)
          next room (by omega) (by omega)
        rw [Varint.bytes_of_le (by omega)]
        exact ⟨word, by omega, reads.loop_inl rest⟩

end Decoding

section Numbers

variable {number : Nat}

theorem reads_pbDecodeVarint (fits : number < 2 ^ 64) :
    Reads pbDecodeVarint (Varint.bytes number) (.ofNat number) Never := by
  obtain ⟨word, same, reads⟩ := @Collects.reads UInt64 64 UInt64.toNat _
    collects_varintRound varintRound_progresses 0 number 0 (by omega)
    (by decide) (by rwa [pow_zero, one_mul])
  have same' : word = .ofNat number := by
    apply UInt64.toNat_inj.mp
    rw [same, UInt64.toNat_ofNat', Nat.mod_eq_of_lt fits]
    simp
  rwa [same'] at reads

/-- The first byte of a tag or a length. -/
theorem run_first (byte : UInt8) (rest : List UInt8) {left : Nat}
    (some_left : 0 < left) (msg : Option String) :
    (orElse (some <$> pbReadbyte) (return none)).run ⟨byte :: rest, left, msg⟩ =
      (some (some byte), ⟨rest, left - 1, msg⟩) := by
  have read := (reads_pbReadbyte byte).whole rest left msg some_left
  have mapped : (some <$> pbReadbyte).run ⟨byte :: rest, left, msg⟩ =
      (some (some byte), ⟨rest, left - 1, msg⟩) :=
    Fallible.run_bind_some read _
  unfold orElse
  dsimp only
  rw [mapped]

/-- Where the connection has ended, this is noticed. -/
theorem run_first_nil {left : Nat} (some_left : 0 < left)
    (msg : Option String) : ∃ msg',
    (orElse (some <$> pbReadbyte) (return none)).run ⟨[], left, msg⟩ =
      (some none, ⟨[], 0, msg'⟩) := by
  have failed : pbReadbyte.run ⟨[], left, msg⟩ =
      (none, ⟨[], 0, some (msg.getD "io error")⟩) := by
    unfold pbReadbyte
    rw [Fallible.run_bind]
    unfold bytesLeft Fallible.continueWith
    dsimp only
    rw [if_neg (by omega)]
    rfl
  have mapped : (some <$> pbReadbyte).run ⟨[], left, msg⟩ =
      (none, ⟨[], 0, some (msg.getD "io error")⟩) :=
    Fallible.run_bind_none failed _
  refine ⟨some (msg.getD "io error"), ?_⟩
  unfold orElse
  dsimp only
  rw [mapped]
  rfl

theorem run_pbDecodeVarint32Eof_nil {left : Nat} (some_left : 0 < left)
    (msg : Option String) : ∃ msg',
    pbDecodeVarint32Eof.run ⟨[], left, msg⟩ = (some none, ⟨[], 0, msg'⟩) := by
  obtain ⟨msg', first⟩ := run_first_nil some_left msg
  refine ⟨msg', ?_⟩
  unfold pbDecodeVarint32Eof
  rw [Fallible.run_bind_some first]
  rfl

/-- The bytes behind the first one. -/
theorem reads_behind_first (fits : number < 2 ^ 32) : ∃ byte rest,
    Varint.bytes number = byte :: rest ∧
      Reads (if byte &&& 0x80 = 0 then return some byte.toUInt32
        else do
          let first := (byte &&& 0x7F).toUInt32
          return some (← Fallible.loop varint32Round_progresses (7, first)) :
            Decoder (Option UInt32)) rest (some (.ofNat number)) Never := by
  by_cases small : number < 128
  · have byte := Varint.toNat_ofNat (show number < 256 by omega)
    refine ⟨.ofNat number, [], Varint.bytes_of_lt small, ?_⟩
    rw [if_pos ((Varint.and_flag_eq_zero _).mpr (by rwa [byte]))]
    have same : (UInt8.ofNat number).toUInt32 = .ofNat number := by
      apply UInt32.toNat_inj.mp
      rw [UInt8.toNat_toUInt32, byte, UInt32.toNat_ofNat',
        Nat.mod_eq_of_lt fits]
    rw [same]
    exact reads_pure _
  · have byte := Varint.toNat_ofNat (show number % 128 + 128 < 256 by omega)
    refine ⟨_, _, Varint.bytes_of_le (by omega), ?_⟩
    rw [if_neg (by rw [Varint.and_flag_eq_zero, byte]; omega)]
    have first : ((UInt8.ofNat (number % 128 + 128) &&& 0x7F).toUInt32).toNat =
        number % 128 := by
      rw [UInt8.toNat_toUInt32, Varint.toNat_and_mask, byte]
      omega
    obtain ⟨word, same, reads⟩ := @Collects.reads UInt32 32 UInt32.toNat _
      collects_varint32Round varint32Round_progresses 7 (number / 128)
      (UInt8.ofNat (number % 128 + 128) &&& 0x7F).toUInt32 (by omega)
      (by rw [first]; omega) (by omega)
    have same' : word = .ofNat number := by
      apply UInt32.toNat_inj.mp
      rw [same, first, UInt32.toNat_ofNat', Nat.mod_eq_of_lt fits]
      omega
    rw [same'] at reads
    exact reads.then_pure rfl

/-- The number in the result of `pb_decode_varint32_eof`, and what it says of an
end before the number. -/
theorem reads_pbDecodeVarint32Eof (fits : number < 2 ^ 32) :
    Reads pbDecodeVarint32Eof (Varint.bytes number) (some (.ofNat number))
      (· = none) := by
  obtain ⟨byte, rest, parts, reads⟩ := reads_behind_first fits
  rw [parts]
  constructor
  · intro behind left msg enough
    rw [List.length_cons] at enough ⊢
    unfold pbDecodeVarint32Eof
    rw [List.cons_append, Fallible.run_bind_some
      (run_first byte _ (by omega) msg)]
    dsimp only
    rw [reads.whole behind (left - 1) msg (by omega), Nat.sub_sub,
      Nat.add_comm]
  · intro front back left msg here missing enough
    rw [List.length_cons] at enough
    cases front with
    | nil =>
        obtain ⟨msg', ended⟩ := @run_pbDecodeVarint32Eof_nil left (by omega) msg
        rw [ended]
        exact ⟨rfl, rfl⟩
    | cons head begun =>
        obtain rfl := (List.cons.inj here).1
        unfold pbDecodeVarint32Eof
        rw [Fallible.run_bind_some (run_first byte _ (by omega) msg)]
        dsimp only
        exact (reads.cut begun back (left - 1) msg (List.cons.inj here).2 missing
          (by omega)).mono fun _ never => never.elim

theorem reads_pbDecodeVarint32 (fits : number < 2 ^ 32) :
    Reads pbDecodeVarint32 (Varint.bytes number) (.ofNat number) Never := by
  have reads := reads_pbDecodeVarint32Eof fits
  constructor
  · intro behind left msg enough
    unfold pbDecodeVarint32
    rw [Fallible.run_bind_some (reads.whole behind left msg enough)]
    rfl
  · intro front back left msg parts missing enough
    have early := reads.cut front back left msg parts missing enough
    unfold pbDecodeVarint32
    rw [Fallible.run_bind]
    cases ran : pbDecodeVarint32Eof.run ⟨front, left, msg⟩ with
    | mk outcome stream' =>
        rw [ran] at early
        cases outcome with
        | none => trivial
        | some found =>
            obtain rfl : found = none := early.1
            trivial

/-- A tag, as `pb_encode_tag` writes it. -/
def tagNumber (tag wireType : UInt32) : Nat := 8 * tag.toNat + wireType.toNat

theorem reads_pbDecodeTag {tag wireType : UInt32} (small : tag.toNat < 2 ^ 29)
    (kind : wireType.toNat < 8) :
    Reads pbDecodeTag (Varint.bytes (tagNumber tag wireType))
      (some (tag, wireType)) (· = none) := by
  have fits : tagNumber tag wireType < 2 ^ 32 := by
    unfold tagNumber
    omega
  have whole : (UInt32.ofNat (tagNumber tag wireType)).toNat =
      tagNumber tag wireType := by
    rw [UInt32.toNat_ofNat', Nat.mod_eq_of_lt fits]
  have high : UInt32.ofNat (tagNumber tag wireType) >>> 3 = tag := by
    apply UInt32.toNat_inj.mp
    rw [UInt32.toNat_shiftRight, whole, Nat.shiftRight_eq_div_pow]
    change tagNumber tag wireType / 8 = tag.toNat
    unfold tagNumber
    omega
  have low : UInt32.ofNat (tagNumber tag wireType) &&& 7 = wireType := by
    apply UInt32.toNat_inj.mp
    rw [UInt32.toNat_and, whole]
    change tagNumber tag wireType &&& (2 ^ 3 - 1) = wireType.toNat
    rw [Nat.and_two_pow_sub_one_eq_mod]
    unfold tagNumber
    omega
  have reads := reads_pbDecodeVarint32Eof fits
  have converted : some (tag, wireType) =
      Option.map (fun temp : UInt32 => (temp >>> 3, temp &&& 7))
        (some (UInt32.ofNat (tagNumber tag wireType))) := by
    rw [Option.map_some, high, low]
  rw [converted]
  unfold pbDecodeTag
  apply reads.bind_pure
  · intro found
    cases found <;> rfl
  · rintro found rfl
    rfl

end Numbers

end Wire

end TreeStore
