import TreeStore.Wire.Received

/-!
# Fields of later versions

A field with a tag that the message does not have is skipped.  So a sender may
add such fields anywhere between the others.
-/

namespace TreeStore

namespace Wire

section Payloads

/-- What `pb_skip_field` skips. -/
inductive Skippable : UInt32 → List UInt8 → Prop
  | varint (number : Nat) : Skippable PB_WT_VARINT (Varint.bytes number)
  | fixed64 {payload : List UInt8} (length : payload.length = 8) :
      Skippable PB_WT_64BIT payload
  | string {body : List UInt8} (fits : body.length < 2 ^ 32) :
      Skippable PB_WT_STRING (Varint.framed body)
  | fixed32 {payload : List UInt8} (length : payload.length = 4) :
      Skippable PB_WT_32BIT payload

theorem Skippable.kind {wireType : UInt32} {payload : List UInt8}
    (skippable : Skippable wireType payload) : wireType.toNat < 8 := by
  cases skippable <;> decide

/-- The bytes are read in blocks of sixteen. -/
theorem reads_pbSkip (payload : List UInt8) :
    Reads (pbSkip payload.length) payload () Never := by
  induction length : payload.length using Nat.strong_induction_on
    generalizing payload with
  | _ count ih =>
      rw [pbSkip]
      split_ifs with more
      · have front : (payload.take 16).length = 16 := by
          rw [List.length_take]
          omega
        have rest : (payload.drop 16).length = count - 16 := by
          rw [List.length_drop, length]
        have first := reads_pbRead (payload.take 16)
        rw [front] at first
        have both := @Reads.bind _ _ _ (fun _ => pbSkip (count - 16)) _ _ _ _ _
          first (ih (count - 16) (by omega) (payload.drop 16) rest)
        rwa [List.take_append_drop] at both
      · have whole := reads_pbRead payload
        rw [length] at whole
        exact whole.then_pure rfl

theorem reads_skipRound (byte : UInt8) :
    Reads (skipRound ()) [byte]
      (if byte &&& 0x80 ≠ 0 then .inl () else .inr ()) Never := by
  have read := reads_pbRead [byte]
  apply read.then_pure
  by_cases flag : byte &&& 0x80 ≠ 0
  · rw [if_pos flag]
    exact if_pos flag
  · rw [if_neg flag]
    exact if_neg flag

/-- A varint of any length. -/
theorem reads_pbSkipVarint (number : Nat) :
    Reads pbSkipVarint (Varint.bytes number) () Never := by
  induction number using Nat.strong_induction_on with
  | _ number ih =>
      by_cases small : number < 128
      · have last := reads_skipRound (.ofNat number)
        have flag : ¬ UInt8.ofNat number &&& 0x80 ≠ 0 := by
          rw [not_not, Varint.and_flag_eq_zero,
            Varint.toNat_ofNat (show number < 256 by omega)]
          exact small
        rw [if_neg flag] at last
        rw [Varint.bytes_of_lt small]
        exact last.loop_inr
      · have round := reads_skipRound (.ofNat (number % 128 + 128))
        have flag : UInt8.ofNat (number % 128 + 128) &&& 0x80 ≠ 0 := by
          rw [Ne, Varint.and_flag_eq_zero,
            Varint.toNat_ofNat (show number % 128 + 128 < 256 by omega)]
          omega
        rw [if_pos flag] at round
        rw [Varint.bytes_of_le (by omega)]
        exact round.loop_inl (ih (number / 128) (by omega))

theorem reads_pbSkipField {wireType : UInt32} {payload : List UInt8}
    (skippable : Skippable wireType payload) :
    Reads (pbSkipField wireType) payload () Never := by
  cases skippable with
  | varint number => exact reads_pbSkipVarint number
  | fixed64 length =>
      have reads := reads_pbSkip payload
      rwa [length] at reads
  | @string body fits =>
      have size : (UInt32.ofNat body.length).toNat = body.length := by
        rw [UInt32.toNat_ofNat', Nat.mod_eq_of_lt fits]
      apply (reads_pbDecodeVarint32 fits).bind
      rw [size]
      exact reads_pbSkip body
  | fixed32 length =>
      have reads := reads_pbSkip payload
      rwa [length] at reads

end Payloads

section Bodies

variable {σ : Type} {fields : List (Field σ)} {cuts : σ × Nat → Prop}
  {before after : σ × Nat} {segments : List (List UInt8)}
  {body bytes : List UInt8}

/-- A field with a tag that is not one of the message. -/
inductive Unknown (fields : List (Field σ)) : List UInt8 → Prop
  | field {tag wireType : UInt32} {payload : List UInt8} :
      tag ≠ 0 → tag.toNat < 2 ^ 29 → pbFieldIterFind tag fields 0 = none →
      Skippable wireType payload →
      Unknown fields (Varint.bytes (tagNumber tag wireType) ++ payload)

/-- Fields of a message in their order, with unknown ones between them. -/
inductive Extends (fields : List (Field σ)) :
    List (List UInt8) → List UInt8 → Prop
  | nil : Extends fields [] []
  | known {bytes body : List UInt8} {segments : List (List UInt8)} :
      Extends fields segments body →
      Extends fields (bytes :: segments) (bytes ++ body)
  | unknown {bytes body : List UInt8} {segments : List (List UInt8)} :
      Unknown fields bytes → Extends fields segments body →
      Extends fields segments (bytes ++ body)

theorem Unknown.run_decodeRound (unknown : Unknown fields bytes)
    (rest : List UInt8) {left : Nat} (msg : Option String)
    (enough : bytes.length ≤ left) :
    (decodeRound fields before).run ⟨bytes ++ rest, left, msg⟩ =
      (some (.inl before), ⟨rest, left - bytes.length, msg⟩) := by
  cases unknown with
  | @field tag wireType payload some_tag small none_such skippable =>
      have positive := Varint.length_bytes_pos (tagNumber tag wireType)
      rw [List.length_append] at enough
      have read := (reads_pbDecodeTag small skippable.kind).whole
        (payload ++ rest) left msg (by omega)
      have skipped := (reads_pbSkipField skippable).whole rest
        (left - (Varint.bytes (tagNumber tag wireType)).length) msg (by omega)
      unfold decodeRound
      rw [run_bytesLeft_bind, if_neg (by dsimp only; omega), List.append_assoc,
        Fallible.run_bind_some read]
      dsimp only
      rw [if_neg some_tag, none_such, Fallible.run_bind_some skipped,
        List.length_append, Nat.sub_sub]
      rfl

/-- The rounds for the unknown fields leave the message as it is. -/
theorem Decodes.run_loop_extended
    (decodes : Decodes fields cuts before segments after)
    (wider : Extends fields segments body) (rest : List UInt8)
    (msg : Option String) :
    (Fallible.loop (decodeRound_progresses fields) before).run
        ⟨body ++ rest, body.length, msg⟩ = (some after, ⟨rest, 0, msg⟩) := by
  induction wider generalizing before with
  | nil =>
      cases decodes with
      | nil =>
          exact Fallible.run_loop_inr _ (run_decodeRound_done rest msg)
  | @known bytes body segments _ ih =>
      cases decodes with
      | @cons _ middle _ _ _ _ round others =>
          have first := round.whole (body ++ rest) (bytes ++ body).length msg
            (by rw [List.length_append]; omega)
          rw [List.append_assoc, Fallible.run_loop_inl _ first,
            List.length_append, Nat.add_sub_cancel_left]
          exact ih others
  | @unknown bytes body segments unknown _ ih =>
      have first := @Unknown.run_decodeRound _ fields before bytes unknown
        (body ++ rest) (bytes ++ body).length msg
        (by rw [List.length_append]; omega)
      rw [List.append_assoc, Fallible.run_loop_inl _ first, List.length_append,
        Nat.add_sub_cancel_left]
      exact ih decodes

end Bodies

section Queries

variable {query : Query} {body : List UInt8}

/-- A query with fields that the server does not know is received like the
query without them. -/
theorem pbDecodeDelimited_extended (sendable : Query.Sendable query)
    (wider : Extends queryFields (querySegments query) body)
    (fits : body.length < 2 ^ 32) (rest : List UInt8) {left : Nat}
    (enough : (Varint.framed body).length ≤ left) (msg : Option String) :
    (pbDecodeDelimited queryFields queryZero).run
        ⟨Varint.framed body ++ rest, left, msg⟩ =
      (some (Query.received query),
        ⟨rest, left - (Varint.framed body).length, msg⟩) := by
  have inner : (pbDecodeInner queryFields false queryZero).run
      ⟨body ++ rest, body.length, msg⟩ =
        (some (Query.received query), ⟨rest, 0, msg⟩) := by
    exact Fallible.run_bind_some
      ((decodes_query sendable).run_loop_extended wider rest msg) _
  unfold Varint.framed at enough ⊢
  rw [List.length_append] at enough
  unfold pbDecodeDelimited
  rw [List.append_assoc, run_withSubstream fits _ msg enough,
    run_onSubstream inner rfl, List.length_append, Nat.sub_sub]

/-- The bytes of a query without filters, with a string behind them, which has a
tag of two bytes. -/
def laterBytes : List UInt8 :=
  int32Bytes 1 0 ++ ((Varint.bytes (tagNumber 20 PB_WT_STRING) ++
    Varint.framed [104, 105]) ++ [])

theorem extends_laterBytes :
    Extends queryFields (querySegments queryZero) laterBytes := by
  apply Extends.known
  apply Extends.unknown
  · exact .field (by decide) (by decide) rfl (.string (by decide))
  · exact .nil

theorem pbDecodeDelimited_extended_later :
    (pbDecodeDelimited queryFields queryZero).run
        ⟨Varint.framed laterBytes ++ [], 8, none⟩ =
      (some (Query.received queryZero),
        ⟨[], 8 - (Varint.framed laterBytes).length, none⟩) :=
  pbDecodeDelimited_extended (by decide) extends_laterBytes
    (by decide +kernel) [] (by decide +kernel) none

end Queries

end Wire

end TreeStore
