import TreeStore.Wire.Bodies
import TreeStore.Wire.Writing

/-!
# The bytes of a field

For each kind of field, what is written for a value, and that this is read again.
-/

namespace TreeStore

namespace Wire

open ByteFile

section Segments

/-- A tag with what belongs to it. -/
def segment (tag wireType : UInt32) (payload : List UInt8) : List UInt8 :=
  Varint.bytes (tagNumber tag wireType) ++ payload

def int32Bytes (tag : UInt32) (value : Int32) : List UInt8 :=
  segment tag PB_WT_VARINT (Varint.bytes value.toInt64.toUInt64.toNat)

def int64Bytes (tag : UInt32) (value : Int64) : List UInt8 :=
  segment tag PB_WT_VARINT (Varint.bytes value.toUInt64.toNat)

def floatBytes (tag : UInt32) (value : UInt32) : List UInt8 :=
  segment tag PB_WT_32BIT (leBytes 4 value.toNat)

/-- A string or the body of a submessage. -/
def framedBytes (tag : UInt32) (body : List UInt8) : List UInt8 :=
  segment tag PB_WT_STRING (Varint.framed body)

end Segments

section Encoding

variable {tag wireType : UInt32} {body : List UInt8}

theorem writes_pbEncodeTag (small : tag.toNat < 2 ^ 29)
    (kind : wireType.toNat < 8) :
    Writes (pbEncodeTag wireType tag)
      (Varint.bytes (tagNumber tag wireType)) := by
  have number : (tag.toUInt64 <<< 3 ||| wireType.toUInt64).toNat =
      tagNumber tag wireType := by
    have shifted : tag.toNat <<< 3 < 2 ^ 64 := by
      rw [Nat.shiftLeft_eq]
      omega
    rw [UInt64.toNat_or, UInt64.toNat_shiftLeft, UInt32.toNat_toUInt64,
      UInt32.toNat_toUInt64]
    change tag.toNat <<< 3 % 2 ^ 64 ||| wireType.toNat = _
    rw [Nat.mod_eq_of_lt shifted, Nat.shiftLeft_eq, Nat.mul_comm,
      ← Nat.two_pow_add_eq_or_of_lt kind]
    rfl
  rw [← number]
  exact writes_pbEncodeVarint _

theorem writes_pbEncodeFixed32 (value : UInt32) :
    Writes (pbEncodeFixed32 value) (leBytes 4 value.toNat) := by
  have byte (shift : UInt32) (amount : Nat) (small : shift.toNat % 32 = amount) :
      (value >>> shift &&& 0xFF).toUInt8 =
        .ofNat (value.toNat / 2 ^ amount % 256) := by
    apply eq_ofNat_of_toNat
    rw [UInt32.toNat_toUInt8, UInt32.toNat_and, UInt32.toNat_shiftRight, small,
      Nat.shiftRight_eq_div_pow]
    change (value.toNat / 2 ^ amount &&& (2 ^ 8 - 1)) % 256 = _
    rw [Nat.and_two_pow_sub_one_eq_mod]
    omega
  have same : leBytes 4 value.toNat = [(value &&& 0xFF).toUInt8,
      (value >>> 8 &&& 0xFF).toUInt8, (value >>> 16 &&& 0xFF).toUInt8,
      (value >>> 24 &&& 0xFF).toUInt8] := by
    have first := byte 0 0 rfl
    have zero : value >>> 0 = value := by
      apply UInt32.toNat_inj.mp
      rw [UInt32.toNat_shiftRight]
      rfl
    rw [zero] at first
    rw [first, byte 8 8 rfl, byte 16 16 rfl, byte 24 24 rfl]
    simp only [leBytes, Nat.div_div_eq_div_mul, pow_zero, Nat.div_one]
    norm_num
  rw [same]
  exact writes_pbWrite _

theorem writes_pbEncodeString (fits : body.length < 2 ^ 64) :
    Writes (pbEncodeString body) (Varint.framed body) := by
  have length := writes_pbEncodeVarint (.ofNat body.length)
  rw [UInt64.toNat_ofNat', Nat.mod_eq_of_lt fits] at length
  exact length.bind (writes_pbWrite body)

/-- The array holds a string that ends within it. -/
def Terminated (dataSize : Nat) (str : List UInt8) : Prop :=
  (textOf str).length < dataSize ∧ 0 ∈ str

instance (dataSize : Nat) (str : List UInt8) :
    Decidable (Terminated dataSize str) :=
  inferInstanceAs (Decidable (_ ∧ _))

variable {dataSize : Nat} {str : List UInt8}

theorem getElem?_textOf : str[(textOf str).length]? = some 0 ↔ 0 ∈ str := by
  constructor
  · intro here
    exact List.mem_of_getElem? here
  · intro terminated
    obtain ⟨behind, whole⟩ := exists_terminator terminated
    have last : (textOf str ++ 0 :: behind)[(textOf str).length]? = some 0 := by
      rw [List.getElem?_append_right (le_refl _), Nat.sub_self]
      rfl
    rwa [← whole] at last

theorem writes_pbEncString (terminated : Terminated dataSize str)
    (fits : dataSize ≤ 2 ^ 32) :
    Writes (pbEncString dataSize str) (Varint.framed (textOf str)) := by
  obtain ⟨short, there⟩ := terminated
  have text : (str.take (dataSize - 1)).takeWhile (· ≠ 0) = textOf str := by
    change textOf (str.take (dataSize - 1)) = _
    rw [textOf_take, List.take_of_length_le (by omega)]
  unfold pbEncString
  rw [if_neg (by omega)]
  dsimp only
  rw [text, if_neg (not_not.mpr (getElem?_textOf.mpr there))]
  exact writes_pbEncodeString (by omega)

theorem refuses_pbEncString (unterminated : ¬ Terminated dataSize str) :
    Refuses (pbEncString dataSize str) := by
  unfold pbEncString
  by_cases empty : dataSize = 0
  · rw [if_pos empty]
    exact refuses_returnError _
  rw [if_neg empty]
  dsimp only
  have text : (str.take (dataSize - 1)).takeWhile (· ≠ 0) =
      (textOf str).take (dataSize - 1) := textOf_take str (dataSize - 1)
  rw [text, if_pos]
  · exact refuses_returnError _
  intro ends
  apply unterminated
  by_cases short : (textOf str).length ≤ dataSize - 1
  · rw [List.take_of_length_le short, getElem?_textOf] at ends
    exact ⟨by omega, ends⟩
  · rw [List.length_take, Nat.min_eq_left (by omega)] at ends
    have inside : dataSize - 1 < (textOf str).length := by omega
    have begins : textOf str <+: str := List.takeWhile_prefix _
    have same := List.prefix_iff_getElem?.mp begins (dataSize - 1) inside
    rw [same, Option.some_inj] at ends
    exact absurd (ends ▸ List.getElem_mem inside) (zero_notMem_textOf str)

variable {encode : Encoder Unit}

/-- Both passes over a submessage agree. -/
theorem writes_pbEncodeSubmessage (writes : Writes encode body)
    (fits : body.length < 2 ^ 64) :
    Writes (pbEncodeSubmessage encode) (Varint.framed body) := by
  intro stream clean room
  have first := writes Ostream.sizing rfl fun sends => by cases sends
  have length := writes_pbEncodeVarint (.ofNat body.length)
  rw [UInt64.toNat_ofNat', Nat.mod_eq_of_lt fits] at length
  have size : (Ostream.sizing.put body).bytesWritten = body.length :=
    Nat.zero_add _
  unfold pbEncodeSubmessage
  dsimp only
  rw [first]
  dsimp only
  unfold writeSubmessage
  unfold Varint.framed at room ⊢
  rw [size, Fallible.run_bind_some (length stream clean room.first),
    Ostream.put_append]
  have room' := room.rest
  have clean' : (stream.put (Varint.bytes body.length)).errmsg = none := clean
  revert room' clean'
  generalize stream.put (Varint.bytes body.length) = stream'
  intro room' clean'
  rcases stream' with ⟨callback, state, maxSize, bytesWritten, errmsg⟩
  obtain rfl : errmsg = none := clean'
  rw [Fallible.run_bind]
  unfold Fallible.continueWith
  dsimp only
  cases callback with
  | false => rfl
  | true =>
      have fits' := room' rfl
      dsimp only at fits'
      rw [if_neg (by decide), if_neg (by omega)]
      have second := writes ⟨true, state, body.length, 0, none⟩ rfl
        fun _ => by dsimp only; omega
      unfold secondPass
      dsimp only
      rw [second]
      unfold joinSubstream Ostream.put
      dsimp only
      rw [if_neg (by simp), Nat.zero_add]

theorem refuses_pbEncodeSubmessage (refuses : Refuses encode) :
    Refuses (pbEncodeSubmessage encode) := by
  intro stream
  have fails := refuses Ostream.sizing
  unfold pbEncodeSubmessage
  dsimp only
  cases ran : encode.run Ostream.sizing with
  | mk outcome substream =>
      rw [ran] at fails
      obtain rfl : outcome = none := fails
      rfl

end Encoding

section Decoding

variable {σ τ : Type} {tag : UInt32} {message : σ}

theorem toInt32_toUInt32 (value : Int32) :
    (UInt64.ofNat value.toInt64.toUInt64.toNat).toUInt32.toInt32 = value := by
  rw [UInt64.ofNat_toNat]
  apply Int32.toBitVec_inj.mp
  change value.toInt64.toUInt64.toUInt32.toBitVec = value.toBitVec
  rw [UInt64.toBitVec_toUInt32]
  change (value.toBitVec.signExtend 64).setWidth 32 = value.toBitVec
  ext index inside
  rw [BitVec.getElem_setWidth, BitVec.getLsbD_signExtend, if_pos inside,
    decide_eq_true (by omega), Bool.true_and, BitVec.getLsbD_eq_getElem inside]

theorem toInt64_toUInt64 (value : Int64) :
    (UInt64.ofNat value.toUInt64.toNat).toInt64 = value := by
  rw [UInt64.ofNat_toNat]
  rfl

theorem reads_int32Field {get : σ → Int32} {set : σ → Int32 → σ}
    (value : Int32) :
    Reads ((int32Field tag get set).decodeField PB_WT_VARINT message)
      (Varint.bytes value.toInt64.toUInt64.toNat) (set message value) Never := by
  have reads := reads_pbDecodeVarint (UInt64.toNat_lt value.toInt64.toUInt64)
  have result := toInt32_toUInt32 value
  unfold int32Field checkWireType
  dsimp only
  rw [if_neg (not_not.mpr rfl)]
  apply reads.then_pure
  rw [result]

theorem reads_int64Field {get : σ → Int64} {set : σ → Int64 → σ}
    (value : Int64) :
    Reads ((int64Field tag get set).decodeField PB_WT_VARINT message)
      (Varint.bytes value.toUInt64.toNat) (set message value) Never := by
  have reads := reads_pbDecodeVarint (UInt64.toNat_lt value.toUInt64)
  have result := toInt64_toUInt64 value
  unfold int64Field checkWireType
  dsimp only
  rw [if_neg (not_not.mpr rfl)]
  apply reads.then_pure
  rw [result]

theorem reads_floatField {get : σ → UInt32} {set : σ → UInt32 → σ}
    (value : UInt32) :
    Reads ((floatField tag get set).decodeField PB_WT_32BIT message)
      (leBytes 4 value.toNat) (set message value) Never := by
  have reads := reads_pbRead (leBytes 4 value.toNat)
  rw [leBytes_length] at reads
  have fixed : Reads pbDecodeFixed32 (leBytes 4 value.toNat) value Never := by
    apply reads.then_pure
    rw [leValue_leBytes value.toNat_lt, UInt32.ofNat_toNat]
  unfold floatField checkWireType
  dsimp only
  rw [if_neg (not_not.mpr rfl)]
  exact fixed.then_pure rfl

/-- What `pb_dec_string` leaves in an array. -/
def filled (text dest : List UInt8) : List UInt8 :=
  text ++ 0 :: dest.drop (text.length + 1)

theorem reads_stringField {dataSize : Nat} {get : σ → List UInt8}
    {set : σ → List UInt8 → σ} {text : List UInt8}
    (short : text.length < dataSize) (fits : dataSize < 2 ^ 32) :
    Reads ((stringField tag dataSize get set).decodeField PB_WT_STRING message)
      (Varint.framed text) (set message (filled text (get message))) Never := by
  have size : (UInt32.ofNat text.length).toNat = text.length := by
    rw [UInt32.toNat_ofNat', Nat.mod_eq_of_lt (by omega)]
  have reads : Reads (pbDecString dataSize (get message)) (Varint.framed text)
      (filled text (get message)) Never := by
    apply (reads_pbDecodeVarint32 (show text.length < 2 ^ 32 by omega)).bind
    rw [if_neg, size, if_neg (by omega)]
    · exact (reads_pbRead text).then_pure rfl
    · intro largest
      have := congrArg UInt32.toNat largest
      rw [size] at this
      change text.length = 2 ^ 32 - 1 at this
      omega
  unfold stringField checkWireType
  dsimp only
  rw [if_neg (not_not.mpr rfl)]
  exact reads.then_pure rfl

variable {fields : List (Field τ)} {body : List UInt8}

theorem reads_messageField {get : σ → τ} {set : σ → τ → σ} {result : τ}
    (fills : Fills (pbDecodeInner fields true (get message)) body result Never)
    (fits : body.length < 2 ^ 32) :
    Reads ((messageField tag fields get set).decodeField PB_WT_STRING message)
      (Varint.framed body) (set message result) Never := by
  unfold messageField checkWireType
  dsimp only
  rw [if_neg (not_not.mpr rfl)]
  exact (fills.reads_framed fits).then_pure rfl

/-- An element of a repeated field goes behind the others. -/
theorem reads_repeatedField {blank element : τ} {get : σ → List τ}
    {clear : σ → σ} {push : σ → τ → Option σ} {message' : σ}
    {partials : τ → Prop}
    (fills : Fills (pbDecodeInner fields false blank) body element partials)
    (fits : body.length < 2 ^ 32) (room : (push message blank).isSome)
    (pushed : push message element = some message') :
    Reads ((repeatedField tag fields blank get clear push).decodeField
        PB_WT_STRING message) (Varint.framed body) message'
      fun result => ∃ other, partials other ∧
        push message other = some result := by
  obtain ⟨taken, fresh⟩ := Option.isSome_iff_exists.mp room
  have reads := fills.reads_framed fits
  unfold repeatedField checkWireType
  dsimp only
  rw [fresh]
  dsimp only
  rw [if_neg (not_not.mpr rfl)]
  constructor
  · intro rest left msg enough
    rw [Fallible.run_bind_some (reads.whole rest left msg enough), pushed]
    rfl
  · intro front back left msg parts missing enough
    have early := reads.cut front back left msg parts missing enough
    rw [Fallible.run_bind]
    cases ran : (withSubstream (pbDecodeInner fields false blank)).run
        ⟨front, left, msg⟩ with
    | mk outcome stream =>
        rw [ran] at early
        cases outcome with
        | none => trivial
        | some other =>
            unfold Fallible.continueWith
            dsimp only
            cases here : push message other with
            | none => trivial
            | some result => exact ⟨⟨other, early.1, here⟩, early.2⟩

end Decoding

end Wire

end TreeStore
