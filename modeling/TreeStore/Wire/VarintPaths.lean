import TreeStore.Wire.Varints

/-!
# The two decoders of varints

`pb_decode_varint32` works with half of the bits.  It accepts what
`pb_decode_varint` accepts as a number of 32 bits, and whatever it accepts has
the lower half of what that makes of it.
-/

namespace TreeStore

namespace Wire

section Bytes

variable {byte : UInt8}

theorem and_0x7F_eq_zero (none_set : byte.toNat % 128 = 0) :
    byte &&& 0x7F = 0 := by
  apply UInt8.toNat_inj.mp
  rw [Varint.toNat_and_mask, none_set]
  rfl

theorem mod_128_eq_zero_of_and (none_set : byte &&& 0x7F = 0) :
    byte.toNat % 128 = 0 := by
  rw [← Varint.toNat_and_mask, none_set]
  rfl

end Bytes

section Rounds

variable {bitpos : Nat} {byte : UInt8} {low : UInt32} {whole : UInt64}
  {stream middle : Istream}

/-- The outcome of a round that goes on if the byte says so. -/
def carriesOn {Word : Type} (bitpos : Nat) (byte : UInt8) (next : Word) :
    (Nat × Word) ⊕ Word :=
  if byte &&& 0x80 ≠ 0 then .inl (bitpos + 7, next) else .inr next

theorem run_varintRound (inside : bitpos < 64)
    (below : whole.toNat < 2 ^ bitpos) (last : bitpos = 63 → byte.toNat < 2)
    (seven : 7 ∣ bitpos)
    (read : pbReadbyte.run stream = (some byte, middle)) : ∃ next : UInt64,
    (varintRound (bitpos, whole)).run stream =
        (some (carriesOn bitpos byte next), middle) ∧
      next.toNat = whole.toNat + 2 ^ bitpos * (byte.toNat % 128) := by
  have fits : 2 ^ bitpos * (byte.toNat % 128) < 2 ^ 64 := by
    by_cases here : bitpos = 63
    · have := last here
      subst here
      omega
    · have small : 2 ^ bitpos * (byte.toNat % 128) ≤ 2 ^ 56 * 127 :=
        Nat.mul_le_mul (Nat.pow_le_pow_right (by omega) (by omega)) (by omega)
      omega
  have valid : ¬ (63 ≤ bitpos ∧ byte &&& 0xFE ≠ 0) := by
    rintro ⟨end_reached, overflows⟩
    exact overflows (and_0xFE_eq_zero (last (by omega)))
  refine ⟨_, ?_, toNat_joined64 inside below fits⟩
  unfold varintRound carriesOn
  dsimp only
  rw [Fallible.run_bind_some read, if_neg valid]
  split_ifs <;> rfl

/-- A round of `pb_decode_varint` that does not fail. -/
theorem varintRound_eq_some {outcome : (Nat × UInt64) ⊕ UInt64}
    (inside : bitpos < 64) (seven : 7 ∣ bitpos)
    (below : whole.toNat < 2 ^ bitpos)
    (ran : (varintRound (bitpos, whole)).run stream = (some outcome, middle)) :
    ∃ byte next, pbReadbyte.run stream = (some byte, middle) ∧
      outcome = carriesOn bitpos byte next ∧
      (bitpos = 63 → byte.toNat < 2) ∧
      next.toNat = whole.toNat + 2 ^ bitpos * (byte.toNat % 128) := by
  obtain ⟨byte, there, read, rest⟩ := Fallible.bind_eq_some ran
  have last : bitpos = 63 → byte.toNat < 2 := by
    rintro rfl
    split_ifs at rest with overflows
    · cases rest
    all_goals
      have none_set : byte &&& 0xFE = 0 := by
        by_contra some_set
        exact overflows ⟨le_refl _, some_set⟩
      have every : ∀ number : Fin 256, UInt8.ofNat number.val &&& 0xFE = 0 →
          number.val < 2 := by
        decide +kernel
      have here := every ⟨byte.toNat, byte.toNat_lt⟩
      dsimp only at here
      rw [UInt8.ofNat_toNat] at here
      exact here none_set
  obtain ⟨next, ran', total⟩ := run_varintRound inside below last seven read
  rw [ran] at ran'
  injection ran' with same here
  obtain rfl : middle = there := here
  exact ⟨byte, next, read, Option.some.inj same, last, total⟩

/-- What a byte beyond the lower half may be. -/
abbrev ValidExtension (bitpos : Nat) (low : UInt32) (byte : UInt8) : Prop :=
  byte &&& 0x7F = 0 ∨
    low >>> 31 ≠ 0 ∧ byte = if bitpos < 63 then 0xFF else 0x01

theorem varint32Round_far (far : 32 ≤ bitpos)
    (read : pbReadbyte.run stream = (some byte, middle)) :
    (varint32Round (bitpos, low)).run stream =
      (if 64 ≤ bitpos ∨ ¬ ValidExtension bitpos low byte
        then returnError "varint overflow"
        else pure (carriesOn bitpos byte low)).run middle := by
  unfold varint32Round
  dsimp only
  rw [Fallible.run_bind_some read, if_pos far]
  rfl

theorem varint32Round_last
    (read : pbReadbyte.run stream = (some byte, middle)) :
    (varint32Round (28, low)).run stream =
      (if byte &&& 0x70 ≠ 0 ∧ byte &&& 0x78 ≠ 0x78
        then returnError "varint overflow"
        else pure (carriesOn 28 byte
          (low ||| (byte &&& 0x0F).toUInt32 <<< UInt32.ofNat 28))).run
            middle := by
  unfold varint32Round
  dsimp only
  rw [Fallible.run_bind_some read, if_neg (by decide), if_pos rfl]
  rfl

theorem varint32Round_near (near : bitpos < 28)
    (read : pbReadbyte.run stream = (some byte, middle)) :
    (varint32Round (bitpos, low)).run stream =
      (some (carriesOn bitpos byte
        (low ||| (byte &&& 0x7F).toUInt32 <<< UInt32.ofNat bitpos)),
          middle) := by
  unfold varint32Round
  dsimp only
  rw [Fallible.run_bind_some read, if_neg (by omega), if_neg (by omega)]
  rfl

/-- A round of `pb_decode_varint32` for a number that fits. -/
theorem run_varint32Round (inside : bitpos < 64) (seven : 7 ∣ bitpos)
    (below : low.toNat < 2 ^ bitpos)
    (fits : low.toNat + 2 ^ bitpos * (byte.toNat % 128) < 2 ^ 32)
    (read : pbReadbyte.run stream = (some byte, middle)) : ∃ next : UInt32,
    (varint32Round (bitpos, low)).run stream =
        (some (carriesOn bitpos byte next), middle) ∧
      next.toNat = low.toNat + 2 ^ bitpos * (byte.toNat % 128) := by
  by_cases far : 32 ≤ bitpos
  · have none_set : byte.toNat % 128 = 0 := by
      by_contra some_set
      have large : 2 ^ 32 * 1 ≤ 2 ^ bitpos * (byte.toNat % 128) :=
        Nat.mul_le_mul (Nat.pow_le_pow_right (by omega) far) (by omega)
      omega
    refine ⟨low, ?_, by rw [none_set, Nat.mul_zero, Nat.add_zero]⟩
    rw [varint32Round_far far read, if_neg]
    · rfl
    · rintro (beyond | invalid)
      · omega
      · exact invalid (Or.inl (and_0x7F_eq_zero none_set))
  have joined := @toNat_joined32 bitpos byte low (by omega) below (by omega)
  by_cases last : bitpos = 28
  · subst last
    have small : byte.toNat % 128 < 16 := by omega
    have group : byte &&& 0x0F = byte &&& 0x7F := by
      apply UInt8.toNat_inj.mp
      rw [toNat_and_0x0F, Varint.toNat_and_mask, Nat.mod_eq_of_lt small]
    refine ⟨_, ?_, joined⟩
    rw [varint32Round_last read, if_neg fun overflows =>
      overflows.1 (and_0x70_eq_zero small), group]
    rfl
  · exact ⟨_, varint32Round_near (by omega) read, joined⟩

/-- A round of `pb_decode_varint32` that does not fail keeps the lower half. -/
theorem varint32Round_eq_some {outcome : (Nat × UInt32) ⊕ UInt32}
    (seven : 7 ∣ bitpos) (below : low.toNat < 2 ^ bitpos)
    (ran : (varint32Round (bitpos, low)).run stream = (some outcome, middle)) :
    bitpos < 64 ∧ ∃ byte next, pbReadbyte.run stream = (some byte, middle) ∧
      outcome = carriesOn bitpos byte next ∧
      (bitpos = 63 → byte.toNat % 128 < 2) ∧
      next.toNat =
        (low.toNat + 2 ^ bitpos * (byte.toNat % 128)) % 2 ^ 32 := by
  obtain ⟨byte, there, read, -⟩ := Fallible.bind_eq_some ran
  by_cases far : 32 ≤ bitpos
  · rw [varint32Round_far far read] at ran
    split_ifs at ran with invalid
    · cases ran
    · cases ran
      push Not at invalid
      obtain ⟨within, valid⟩ := invalid
      refine ⟨within, byte, low, read, rfl, fun last => ?_, ?_⟩
      · rcases valid with none_set | ⟨-, extended⟩
        · rw [mod_128_eq_zero_of_and none_set]
          omega
        · rw [if_neg (by omega)] at extended
          rw [extended]
          decide
      · obtain ⟨more, rfl⟩ := Nat.exists_eq_add_of_le far
        rw [pow_add, Nat.mul_assoc, Nat.add_mul_mod_self_left,
          Nat.mod_eq_of_lt low.toNat_lt]
  by_cases last : bitpos = 28
  · subst last
    rw [varint32Round_last read] at ran
    split_ifs at ran
    · cases ran
    · cases ran
      refine ⟨by omega, byte, _, read, rfl, by omega, ?_⟩
      have group : (byte.toNat % 128 % 16) <<< 28 < 2 ^ 32 := by
        rw [Nat.shiftLeft_eq]
        omega
      rw [UInt32.toNat_or, UInt32.toNat_shiftLeft, UInt8.toNat_toUInt32,
        toNat_and_0x0F]
      change low.toNat ||| (byte.toNat % 128 % 16) <<< 28 % 2 ^ 32 = _
      rw [Nat.mod_eq_of_lt group, or_shift below]
      omega
  · rw [varint32Round_near (by omega) read] at ran
    cases ran
    have fits : 2 ^ bitpos * (byte.toNat % 128) ≤ 2 ^ 21 * 127 :=
      Nat.mul_le_mul (Nat.pow_le_pow_right (by omega) (by omega)) (by omega)
    have short : 2 ^ bitpos ≤ 2 ^ 21 :=
      Nat.pow_le_pow_right (by omega) (by omega)
    have small : low.toNat + 2 ^ bitpos * (byte.toNat % 128) < 2 ^ 32 := by
      omega
    refine ⟨by omega, byte, _, read, rfl, by omega, ?_⟩
    rw [toNat_joined32 (by omega) below (by omega), Nat.mod_eq_of_lt small]

end Rounds

section Loops

variable {bitpos : Nat} {low : UInt32} {whole : UInt64}
  {stream stream' : Istream}

theorem lt_two_pow_add_seven {part group : Nat} (below : part < 2 ^ bitpos)
    (small : group < 128) : part + 2 ^ bitpos * group < 2 ^ (bitpos + 7) := by
  have next : 2 ^ bitpos * (group + 1) ≤ 2 ^ bitpos * 2 ^ 7 :=
    Nat.mul_le_mul_left _ (by omega)
  rw [Nat.mul_add, Nat.mul_one, ← pow_add] at next
  omega

/-- From the other half of the bits, `pb_decode_varint` ends there too, with this
lower half. -/
def EndsWithLower (before : Nat × UInt32) (stream : Istream) (value : UInt32)
    (stream' : Istream) : Prop :=
  7 ∣ before.1 → before.2.toNat < 2 ^ before.1 → before.1 < 64 ∧
    ∀ whole : UInt64, before.2.toNat = whole.toNat % 2 ^ 32 →
      whole.toNat < 2 ^ before.1 →
        ∃ number, (Fallible.loop varintRound_progresses (before.1, whole)).run
            stream = (some number, stream') ∧
          value.toNat = number.toNat % 2 ^ 32

theorem endsWithLower {before : Nat × UInt32} {value : UInt32}
    (ran : (Fallible.loop varint32Round_progresses before).run stream =
      (some value, stream')) : EndsWithLower before stream value stream' := by
  apply Fallible.loop_induction varint32Round_progresses _ _ ran
  · rintro ⟨bitpos, low⟩ state result state' ended seven below
    obtain ⟨inside, byte, next, read, same, last, total⟩ :=
      varint32Round_eq_some seven below ended
    refine ⟨inside, fun whole half small => ?_⟩
    unfold carriesOn at same
    split_ifs at same with flag
    obtain rfl := Sum.inr.inj same
    have plain : byte.toNat < 128 := by
      rwa [not_not, Varint.and_flag_eq_zero] at flag
    obtain ⟨number, ran', total'⟩ := @run_varintRound bitpos byte whole state
      state' inside small (fun here => by have := last here; omega) seven read
    unfold carriesOn at ran'
    rw [if_neg flag] at ran'
    refine ⟨number, Fallible.run_loop_inr _ ran', ?_⟩
    dsimp only at half
    rw [total, total', half, Nat.mod_add_mod]
  · rintro ⟨bitpos, low⟩ state after middle result state' going ih seven below
    obtain ⟨inside, byte, next, read, same, last, total⟩ :=
      varint32Round_eq_some seven below going
    unfold carriesOn at same
    split_ifs at same with flag
    obtain rfl := Sum.inl.inj same
    have next_lt := next.toNat_lt
    have large : 128 ≤ byte.toNat := by
      by_contra plain
      exact flag ((Varint.and_flag_eq_zero byte).mpr (by omega))
    have more : next.toNat < 2 ^ (bitpos + 7) := by
      have wider := @lt_two_pow_add_seven bitpos low.toNat (byte.toNat % 128)
        below (Nat.mod_lt _ (by decide))
      exact lt_of_le_of_lt (total ▸ Nat.mod_le _ _) wider
    obtain ⟨inside', rest⟩ := ih (by dsimp only; omega) more
    dsimp only at inside' rest
    refine ⟨inside, fun whole half small => ?_⟩
    obtain ⟨number, ran', total'⟩ := @run_varintRound bitpos byte whole state
      middle inside small (fun here => by omega) seven read
    unfold carriesOn at ran'
    rw [if_pos flag] at ran'
    obtain ⟨final, ran'', half'⟩ := rest number
      (by
        dsimp only at half
        rw [total, total', half, Nat.mod_add_mod])
      (by
        rw [total']
        exact lt_two_pow_add_seven small (Nat.mod_lt _ (by decide)))
    exact ⟨final, (Fallible.run_loop_inl _ ran').trans ran'', half'⟩

/-- If the number fits, `pb_decode_varint32` ends with it from the same bits. -/
def EndsWithNumber (before : Nat × UInt64) (stream : Istream) (number : UInt64)
    (stream' : Istream) : Prop :=
  7 ∣ before.1 → before.1 < 64 → before.2.toNat < 2 ^ before.1 →
    before.2.toNat ≤ number.toNat ∧ (number.toNat < 2 ^ 32 →
      ∀ low : UInt32, low.toNat = before.2.toNat →
        ∃ value, (Fallible.loop varint32Round_progresses (before.1, low)).run
            stream = (some value, stream') ∧ value.toNat = number.toNat)

theorem endsWithNumber {before : Nat × UInt64} {number : UInt64}
    (ran : (Fallible.loop varintRound_progresses before).run stream =
      (some number, stream')) : EndsWithNumber before stream number stream' := by
  apply Fallible.loop_induction varintRound_progresses _ _ ran
  · rintro ⟨bitpos, whole⟩ state result state' ended seven inside below
    obtain ⟨byte, next, read, same, last, total⟩ :=
      varintRound_eq_some inside seven below ended
    dsimp only at total
    unfold carriesOn at same
    split_ifs at same with flag
    obtain rfl := Sum.inr.inj same
    refine ⟨by dsimp only; omega, fun fits low equal => ?_⟩
    dsimp only at equal
    obtain ⟨value, ran', total'⟩ := @run_varint32Round bitpos byte low state
      state' inside seven (by rwa [equal]) (by rwa [equal, ← total]) read
    unfold carriesOn at ran'
    rw [if_neg flag] at ran'
    exact ⟨value, Fallible.run_loop_inr _ ran', by rw [total', total, equal]⟩
  · rintro ⟨bitpos, whole⟩ state after middle result state' going ih seven
      inside below
    obtain ⟨byte, next, read, same, last, total⟩ :=
      varintRound_eq_some inside seven below going
    dsimp only at total
    unfold carriesOn at same
    split_ifs at same with flag
    obtain rfl := Sum.inl.inj same
    have large : 128 ≤ byte.toNat := by
      by_contra plain
      exact flag ((Varint.and_flag_eq_zero byte).mpr (by omega))
    have inside' : bitpos + 7 < 64 := by
      by_contra far
      have := last (by omega)
      omega
    have below' : next.toNat < 2 ^ (bitpos + 7) := by
      rw [total]
      exact lt_two_pow_add_seven below (Nat.mod_lt _ (by decide))
    obtain ⟨le, rest⟩ := ih (by dsimp only; omega) inside' below'
    dsimp only at le rest
    refine ⟨by dsimp only; omega, fun fits low equal => ?_⟩
    dsimp only at equal
    obtain ⟨value, ran', total'⟩ := @run_varint32Round bitpos byte low state
      middle inside seven (by rwa [equal]) (by rw [equal, ← total]; omega) read
    unfold carriesOn at ran'
    rw [if_pos flag] at ran'
    obtain ⟨final, ran'', same'⟩ :=
      rest fits value (by rw [total', total, equal])
    exact ⟨final, (Fallible.run_loop_inl _ ran').trans ran'', same'⟩

/-- `pb_decode_varint32` behind its first byte. -/
def behindFirst (byte : UInt8) : Decoder UInt32 :=
  if byte &&& 0x80 = 0 then return byte.toUInt32
  else Fallible.loop varint32Round_progresses (7, (byte &&& 0x7F).toUInt32)

theorem run_pbDecodeVarint32 {byte : UInt8} {middle : Istream}
    (read : pbReadbyte.run stream = (some byte, middle)) :
    pbDecodeVarint32.run stream = (behindFirst byte).run middle := by
  have first : (orElse (some <$> pbReadbyte) (return none)).run stream =
      (some (some byte), middle) := by
    have mapped : (some <$> pbReadbyte).run stream =
        (some (some byte), middle) :=
      Fallible.run_bind_some read _
    unfold orElse
    dsimp only
    rw [mapped]
  unfold pbDecodeVarint32 pbDecodeVarint32Eof behindFirst
  rw [Fallible.run_bind, Fallible.run_bind_some first]
  dsimp only
  split_ifs
  · rfl
  · change Fallible.continueWith _ (Fallible.continueWith _
      ((Fallible.loop _ (7, (byte &&& 0x7F).toUInt32)).run middle)) = _
    cases (Fallible.loop varint32Round_progresses
        (7, (byte &&& 0x7F).toUInt32)).run middle with
    | mk outcome stream' => cases outcome <;> rfl

theorem pbDecodeVarint32_eq_some {value : UInt32}
    (ran : pbDecodeVarint32.run stream = (some value, stream')) :
    ∃ byte middle, pbReadbyte.run stream = (some byte, middle) := by
  cases read : pbReadbyte.run stream with
  | mk outcome middle =>
      cases outcome with
      | some byte => exact ⟨byte, middle, rfl⟩
      | none =>
          have first : (orElse (some <$> pbReadbyte) (return none)).run
              stream = (some none, middle) := by
            have mapped : (some <$> pbReadbyte).run stream = (none, middle) :=
              Fallible.run_bind_none read _
            unfold orElse
            dsimp only
            rw [mapped]
            rfl
          unfold pbDecodeVarint32 pbDecodeVarint32Eof at ran
          rw [Fallible.run_bind, Fallible.run_bind_some first] at ran
          dsimp only at ran
          rw [Fallible.run_bind] at ran
          unfold bytesLeft Fallible.continueWith at ran
          dsimp only at ran
          split_ifs at ran <;> cases ran

/-- The first byte as the two decoders take it. -/
theorem toNat_first_group (byte : UInt8) :
    (byte &&& 0x7F).toUInt32.toNat = byte.toNat % 128 := by
  rw [UInt8.toNat_toUInt32, Varint.toNat_and_mask]

/-- The short decoder accepts nothing that the other one does not accept, and
has the lower half of it; and it accepts every number of 32 bits. -/
theorem pbDecodeVarint32_agrees (stream stream' : Istream) :
    (∀ value, pbDecodeVarint32.run stream = (some value, stream') →
      ∃ number, pbDecodeVarint.run stream = (some number, stream') ∧
        value = number.toUInt32) ∧
    ∀ number, pbDecodeVarint.run stream = (some number, stream') →
      number.toNat < 2 ^ 32 →
        pbDecodeVarint32.run stream = (some number.toUInt32, stream') := by
  have half {value : UInt32} {number : UInt64}
      (same : value.toNat = number.toNat % 2 ^ 32) :
      value = number.toUInt32 := by
    apply UInt32.toNat_inj.mp
    rw [same, UInt64.toNat_toUInt32]
  have zero : (0 : UInt64).toNat = 0 := rfl
  have start : (0 : UInt64).toNat < 2 ^ 0 := by decide
  constructor
  · intro value ran
    obtain ⟨byte, middle, read⟩ := pbDecodeVarint32_eq_some ran
    rw [run_pbDecodeVarint32 read] at ran
    obtain ⟨next, first, total⟩ := @run_varintRound 0 byte 0 stream middle
      (by omega) start (by omega) (by omega) read
    unfold carriesOn at first
    unfold behindFirst at ran
    rw [pow_zero, Nat.one_mul, zero, Nat.zero_add] at total
    split_ifs at ran with last
    · cases ran
      rw [if_neg (not_not.mpr last)] at first
      refine ⟨next, Fallible.run_loop_inr _ first, half ?_⟩
      have plain := (Varint.and_flag_eq_zero byte).mp last
      rw [UInt8.toNat_toUInt32, total]
      omega
    · rw [if_pos last] at first
      have below : byte.toNat % 128 < 2 ^ 7 := Nat.mod_lt _ (by decide)
      obtain ⟨-, rest⟩ := endsWithLower ran (dvd_refl 7)
        (by rw [toNat_first_group]; exact below)
      obtain ⟨number, ran', same⟩ := rest next
        (by rw [toNat_first_group, total]; omega) (by rw [total]; exact below)
      exact ⟨number, (Fallible.run_loop_inl _ first).trans ran', half same⟩
  · intro number ran fits
    have whole {value : UInt32} (same : value.toNat = number.toNat) :
        value = number.toUInt32 := half (by rw [same, Nat.mod_eq_of_lt fits])
    rcases Fallible.loop_eq_some _ ran with last | ⟨after, middle, going, rest⟩
    · obtain ⟨byte, next, read, same, -, total⟩ :=
        varintRound_eq_some (by omega) (by omega) start last
      unfold carriesOn at same
      split_ifs at same with flag
      obtain rfl := Sum.inr.inj same
      rw [not_not] at flag
      have plain := (Varint.and_flag_eq_zero byte).mp flag
      rw [run_pbDecodeVarint32 read]
      unfold behindFirst
      rw [if_pos flag, ← whole]
      · rfl
      · rw [UInt8.toNat_toUInt32, total, pow_zero, zero]
        omega
    · obtain ⟨byte, next, read, same, -, total⟩ :=
        varintRound_eq_some (by omega) (by omega) start going
      unfold carriesOn at same
      split_ifs at same with flag
      obtain rfl := Sum.inl.inj same
      rw [pow_zero, Nat.one_mul, zero, Nat.zero_add] at total
      have below : byte.toNat % 128 < 2 ^ 7 := Nat.mod_lt _ (by decide)
      obtain ⟨-, fitting⟩ := endsWithNumber rest (dvd_refl 7)
        (show 0 + 7 < 64 by decide)
        (by rw [total]; exact below)
      obtain ⟨value, ran', same'⟩ := fitting fits (byte &&& 0x7F).toUInt32
        (by rw [toNat_first_group, total])
      rw [run_pbDecodeVarint32 read, ← whole same']
      unfold behindFirst
      rw [if_neg flag]
      exact ran'

end Loops

end Wire

end TreeStore
