import TreeStore.Wire.Delivery

/-!
# What is accepted

Whatever bytes arrive: a message that is decoded has a string that ends in every
one of its arrays.  No reader of it gets behind an array, and it could be sent on.
-/

namespace TreeStore

namespace Wire

/-- All results of the decoder are of this kind. -/
structure Yields {α : Type} (decoder : Decoder α) (kind : α → Prop) : Prop where
  of_run : ∀ {stream stream' result},
    decoder.run stream = (some result, stream') → kind result

section Rules

variable {α β σ τ : Type} {decoder : Decoder α} {next : α → Decoder β}
  {first : α → Prop} {kind : β → Prop}

theorem yields_pure {result : β} (holds : kind result) :
    Yields (pure result) kind := by
  constructor
  intro stream stream' other ran
  cases ran
  exact holds

theorem yields_returnError (msg : String) : Yields (returnError msg) kind := by
  constructor
  intro stream stream' result ran
  cases ran

theorem Yields.bind (yields : Yields decoder first)
    (rest : ∀ result, first result → Yields (next result) kind) :
    Yields (decoder >>= next) kind := by
  constructor
  intro stream stream' result ran
  obtain ⟨between, middle, here, later⟩ := Fallible.bind_eq_some ran
  exact (rest between (yields.of_run here)).of_run later

/-- Nothing has to be known of the first result. -/
theorem yields_bind (rest : ∀ result, Yields (next result) kind) :
    Yields (decoder >>= next) kind := by
  constructor
  intro stream stream' result ran
  obtain ⟨between, middle, -, later⟩ := Fallible.bind_eq_some ran
  exact (rest between).of_run later

theorem yields_checkWireType {wireType expected : UInt32}
    {decoder : Decoder β} (yields : Yields decoder kind) :
    Yields (checkWireType wireType expected decoder) kind := by
  unfold checkWireType
  split_ifs
  · exact yields_returnError _
  · exact yields

theorem yields_pbRead (count : Nat) :
    Yields (pbRead count) fun buf => buf.length = count := by
  unfold pbRead
  split_ifs with empty
  · exact yields_pure empty.symm
  apply yields_bind
  intro left
  split_ifs
  · exact yields_returnError _
  have received : Yields
      (orElse (readCallback count) (returnError "io error"))
      fun buf => buf.length = count := by
    constructor
    intro stream stream' buf ran
    have got := orElse_error_eq_some ran
    unfold readCallback at got
    dsimp only at got
    rw [if_neg empty] at got
    obtain ⟨all, -⟩ := Prod.mk.inj got
    split_ifs at all with length
    cases all
    exact length
  apply received.bind
  intro buf length
  apply yields_bind
  intro _
  exact yields_pure length

/-- The status of a substream is the one of what was done with it. -/
theorem Yields.withSubstream (yields : Yields decoder first) :
    Yields (withSubstream decoder) first := by
  apply yields_bind
  intro size
  constructor
  intro stream stream' result ran
  change leaveSubstream stream
    (decoder.run { stream with bytesLeft := size }) = _ at ran
  cases inner : decoder.run { stream with bytesLeft := size } with
  | mk status substream =>
      rw [inner] at ran
      unfold leaveSubstream at ran
      dsimp only at ran
      cases closed : pbCloseStringSubstream.run substream with
      | mk finished rest =>
          rw [closed] at ran
          cases finished with
          | none => cases ran
          | some done =>
              cases ran
              exact yields.of_run inner

end Rules

section Fields

variable {σ τ : Type} {kind : σ → Prop} {sub : τ → Prop} {tag : UInt32}

/-- Neither the default of a field nor what is decoded for it changes the kind
of the message. -/
structure Field.Keeps (kind : σ → Prop) (field : Field σ) : Prop where
  default : ∀ message, kind message → kind (field.setToDefault message)
  decoded : ∀ wireType message, kind message →
    Yields (field.decodeField wireType message) kind

variable {fields : List (Field σ)}

theorem mem_of_pbFieldIterFind {field : Field σ} {index count : Nat}
    (found : pbFieldIterFind tag fields count = some (field, index)) :
    field ∈ fields := by
  induction fields generalizing count with
  | nil => cases found
  | cons first fields ih =>
      unfold pbFieldIterFind at found
      split_ifs at found
      · cases found
        exact List.mem_cons_self
      all_goals exact List.mem_cons_of_mem _ (ih found)

theorem kind_pbMessageSetToDefaults
    (keeps : ∀ field ∈ fields, field.Keeps kind) {message : σ}
    (holds : kind message) : kind (pbMessageSetToDefaults fields message) := by
  unfold pbMessageSetToDefaults
  induction fields generalizing message with
  | nil => exact holds
  | cons field fields ih =>
      rw [List.foldl_cons]
      apply ih fun other member => keeps other (List.mem_cons_of_mem _ member)
      exact (keeps field List.mem_cons_self).default message holds

/-- One round of `pb_decode_inner`. -/
theorem kind_decodeRound (keeps : ∀ field ∈ fields, field.Keeps kind)
    {before : σ × Nat} (holds : kind before.1) :
    Yields (decodeRound fields before) fun outcome =>
      kind (Sum.elim Prod.fst Prod.fst outcome) := by
  unfold decodeRound
  apply yields_bind
  intro left
  split_ifs
  · exact yields_pure holds
  apply yields_bind
  intro found
  cases found with
  | none => exact yields_pure holds
  | some found =>
      obtain ⟨tag, wireType⟩ := found
      dsimp only
      split_ifs
      · exact yields_returnError _
      cases known : pbFieldIterFind tag fields 0 with
      | none =>
          apply yields_bind
          intro _
          exact yields_pure holds
      | some known' =>
          obtain ⟨field, index⟩ := known'
          have member := mem_of_pbFieldIterFind known
          apply ((keeps field member).decoded wireType before.1 holds).bind
          intro message holds'
          exact yields_pure holds'

theorem yields_pbDecodeInner (keeps : ∀ field ∈ fields, field.Keeps kind)
    (noinit : Bool) {message : σ} (holds : kind message) :
    Yields (pbDecodeInner fields noinit message) kind := by
  have starts : kind (if noinit then message
      else pbMessageSetToDefaults fields message) := by
    cases noinit with
    | true => exact holds
    | false => exact kind_pbMessageSetToDefaults keeps holds
  have loop : Yields (Fallible.loop (decodeRound_progresses fields)
      (if noinit then message else pbMessageSetToDefaults fields message, 0))
      fun final => kind final.1 := by
    constructor
    intro stream stream' final ran
    obtain ⟨last, middle, holds', ran'⟩ := @Fallible.loop_invariant _ _ _ _ _
      (decodeRound_progresses fields) _ _ _ (fun state _ => kind state.1) final
      (fun before state after state' here there =>
        (kind_decodeRound keeps here).of_run there) starts ran
    exact (kind_decodeRound keeps holds').of_run ran'
  apply loop.bind
  intro final holds'
  unfold checkRequired
  split_ifs
  · exact yields_returnError _
  · exact yields_pure holds'

theorem keeps_int32Field {get : σ → Int32} {set : σ → Int32 → σ}
    (keeps : ∀ message value, kind message → kind (set message value)) :
    (int32Field tag get set).Keeps kind where
  default message holds := keeps message 0 holds
  decoded wireType message holds := by
    apply yields_checkWireType
    apply yields_bind
    intro value
    exact yields_pure (keeps message _ holds)

theorem keeps_int64Field {get : σ → Int64} {set : σ → Int64 → σ}
    (keeps : ∀ message value, kind message → kind (set message value)) :
    (int64Field tag get set).Keeps kind where
  default message holds := keeps message 0 holds
  decoded wireType message holds := by
    apply yields_checkWireType
    apply yields_bind
    intro value
    exact yields_pure (keeps message _ holds)

theorem keeps_floatField {get : σ → UInt32} {set : σ → UInt32 → σ}
    (keeps : ∀ message value, kind message → kind (set message value)) :
    (floatField tag get set).Keeps kind where
  default message holds := keeps message 0 holds
  decoded wireType message holds := by
    apply yields_checkWireType
    apply yields_bind
    intro value
    exact yields_pure (keeps message _ holds)

/-- An array of this size in which a string ends. -/
def Sized (dataSize : Nat) (array : List UInt8) : Prop :=
  array.length = dataSize ∧ 0 ∈ array

theorem Sized.terminated {dataSize : Nat} {array : List UInt8}
    (sized : Sized dataSize array) : Terminated dataSize array := by
  obtain ⟨length, ends⟩ := sized
  refine ⟨?_, ends⟩
  obtain ⟨behind, whole⟩ := exists_terminator ends
  rw [← length]
  conv_rhs => rw [whole]
  rw [List.length_append, List.length_cons]
  omega

theorem sized_replicate {dataSize : Nat} (positive : 0 < dataSize) :
    Sized dataSize (List.replicate dataSize 0) :=
  ⟨List.length_replicate, List.mem_replicate.mpr ⟨positive.ne', rfl⟩⟩

theorem yields_pbDecString {dataSize : Nat} {dest : List UInt8}
    (sized : Sized dataSize dest) :
    Yields (pbDecString dataSize dest) (Sized dataSize) := by
  apply yields_bind
  intro size
  split_ifs with _ overflow
  · exact yields_returnError _
  · exact yields_returnError _
  apply (yields_pbRead size.toNat).bind
  intro buf length
  apply yields_pure
  refine ⟨?_, by simp⟩
  rw [List.length_append, List.length_cons, List.length_drop, length, sized.1]
  omega

theorem keeps_stringField {dataSize : Nat} {get : σ → List UInt8}
    {set : σ → List UInt8 → σ} (positive : 0 < dataSize)
    (sized : ∀ message, kind message → Sized dataSize (get message))
    (keeps : ∀ message array, kind message → Sized dataSize array →
      kind (set message array)) :
    (stringField tag dataSize get set).Keeps kind where
  default message holds := keeps message _ holds (sized_replicate positive)
  decoded wireType message holds := by
    apply yields_checkWireType
    apply (yields_pbDecString (sized message holds)).bind
    intro array sized'
    exact yields_pure (keeps message array holds sized')

theorem keeps_messageField {subFields : List (Field τ)} {get : σ → τ}
    {set : σ → τ → σ} (fieldKeeps : ∀ field ∈ subFields, field.Keeps sub)
    (inside : ∀ message, kind message → sub (get message))
    (keeps : ∀ message part, kind message → sub part →
      kind (set message part)) :
    (messageField tag subFields get set).Keeps kind where
  default message holds := keeps message _ holds
    (kind_pbMessageSetToDefaults fieldKeeps (inside message holds))
  decoded wireType message holds := by
    apply yields_checkWireType
    apply (yields_pbDecodeInner fieldKeeps true
      (inside message holds)).withSubstream.bind
    intro part holds'
    exact yields_pure (keeps message part holds holds')

theorem keeps_repeatedField {subFields : List (Field τ)} {blank : τ}
    {get : σ → List τ} {clear : σ → σ} {push : σ → τ → Option σ}
    (fieldKeeps : ∀ field ∈ subFields, field.Keeps sub) (zero : sub blank)
    (cleared : ∀ message, kind message → kind (clear message))
    (keeps : ∀ message element message', kind message → sub element →
      push message element = some message' → kind message') :
    (repeatedField tag subFields blank get clear push).Keeps kind where
  default := cleared
  decoded wireType message holds := by
    unfold repeatedField
    dsimp only
    cases push message blank with
    | none => exact yields_returnError _
    | some taken =>
        apply yields_checkWireType
        apply (yields_pbDecodeInner fieldKeeps false zero).withSubstream.bind
        intro element holds'
        cases pushed : push message element with
        | none => exact yields_returnError _
        | some message' =>
            exact yields_pure (keeps message element message' holds holds'
              pushed)

end Fields

section Messages

def KeyValuePair.Sized (kv : KeyValuePair) : Prop :=
  Wire.Sized stringSize kv.key ∧ Wire.Sized stringSize kv.valueString

def Comparator.Sized (comp : Comparator) : Prop := KeyValuePair.Sized comp.kv

def Filter.Sized (filter : Filter) : Prop :=
  ∀ comp ∈ filter.compList, Comparator.Sized comp

/-- Every array of the query has its size, and a string that ends in it. -/
def Query.Sized (query : Query) : Prop :=
  (∀ filter ∈ query.filtersList, Filter.Sized filter) ∧
    ∀ kv ∈ query.settingsList, KeyValuePair.Sized kv

theorem sized_keyValuePairZero : KeyValuePair.Sized keyValuePairZero :=
  ⟨sized_replicate (by decide), sized_replicate (by decide)⟩

theorem sized_comparatorZero : Comparator.Sized comparatorZero :=
  sized_keyValuePairZero

theorem keeps_keyValuePairFields :
    ∀ field ∈ keyValuePairFields, field.Keeps KeyValuePair.Sized := by
  unfold keyValuePairFields
  simp only [List.forall_mem_cons]
  refine ⟨?_, ?_, ?_, ?_, ?_, by simp⟩
  · exact keeps_stringField (by decide) (fun _ sized => sized.1)
      fun _ _ sized sized' => ⟨sized', sized.2⟩
  · exact keeps_int32Field fun _ _ sized => sized
  · exact keeps_int64Field fun _ _ sized => sized
  · exact keeps_floatField fun _ _ sized => sized
  · exact keeps_stringField (by decide) (fun _ sized => sized.2)
      fun _ _ sized sized' => ⟨sized.1, sized'⟩

theorem keeps_valueSettingFields :
    ∀ field ∈ valueSettingFields, field.Keeps KeyValuePair.Sized := by
  unfold valueSettingFields
  simp only [List.forall_mem_cons]
  refine ⟨?_, by simp⟩
  exact keeps_messageField keeps_keyValuePairFields (fun _ sized => sized)
    fun _ _ _ sized => sized

theorem keeps_comparatorFields :
    ∀ field ∈ comparatorFields, field.Keeps Comparator.Sized := by
  unfold comparatorFields
  simp only [List.forall_mem_cons]
  refine ⟨?_, ?_, by simp⟩
  · exact keeps_int32Field fun _ _ sized => sized
  · exact keeps_messageField keeps_keyValuePairFields (fun _ sized => sized)
      fun _ _ _ sized => sized

theorem keeps_filterFields :
    ∀ field ∈ filterFields, field.Keeps Filter.Sized := by
  unfold filterFields
  simp only [List.forall_mem_cons]
  refine ⟨?_, by simp⟩
  apply keeps_repeatedField keeps_comparatorFields sized_comparatorZero
  · exact fun _ _ comp member => absurd member List.not_mem_nil
  · intro filter comp filter' sized sized' pushed other member
    rw [Filter.push_eq_some pushed] at member
    rcases List.mem_append.mp member with earlier | last
    · exact sized other earlier
    · rw [List.mem_singleton.mp last]
      exact sized'

theorem keeps_queryFields :
    ∀ field ∈ queryFields, field.Keeps Query.Sized := by
  unfold queryFields
  simp only [List.forall_mem_cons]
  refine ⟨?_, ?_, ?_, by simp⟩
  · exact keeps_int32Field fun _ _ sized => sized
  · apply keeps_repeatedField keeps_filterFields
    · exact fun comp member => absurd member List.not_mem_nil
    · exact fun _ sized =>
        ⟨fun filter member => absurd member List.not_mem_nil, sized.2⟩
    · intro query filter query' sized sized' pushed
      obtain ⟨-, filters, settings⟩ := Query.pushFilter_eq_some pushed
      constructor
      · intro other member
        rw [filters] at member
        rcases List.mem_append.mp member with earlier | last
        · exact sized.1 other earlier
        · rw [List.mem_singleton.mp last]
          exact sized'
      · rw [settings]
        exact sized.2
  · apply keeps_repeatedField keeps_valueSettingFields sized_keyValuePairZero
    · exact fun _ sized =>
        ⟨sized.1, fun kv member => absurd member List.not_mem_nil⟩
    · intro query kv query' sized sized' pushed
      obtain ⟨-, filters, settings⟩ := Query.pushSetting_eq_some pushed
      constructor
      · rw [filters]
        exact sized.1
      · intro other member
        rw [settings] at member
        rcases List.mem_append.mp member with earlier | last
        · exact sized.2 other earlier
        · rw [List.mem_singleton.mp last]
          exact sized'

theorem Query.Sized.sendable {query : Query} (sized : Query.Sized query) :
    Query.Sendable query := by
  constructor
  · intro filter member comp inside
    have pair := sized.1 filter member comp inside
    exact ⟨pair.1.terminated, pair.2.terminated⟩
  · intro kv member
    have pair := sized.2 kv member
    exact ⟨pair.1.terminated, pair.2.terminated⟩

theorem sized_queryZero : Query.Sized queryZero :=
  ⟨fun _ member => absurd member List.not_mem_nil,
    fun _ member => absurd member List.not_mem_nil⟩

/-- Every query that the server gets out of a stream, whatever was sent, has
strings that end within their arrays. -/
theorem receiveQueries_sized (stream : Istream) :
    ∀ query ∈ receiveQueries stream,
      Query.Sized query ∧ Query.Sendable query := by
  induction count : stream.undelivered using Nat.strong_induction_on
    generalizing stream with
  | _ count ih =>
      cases ran : (pbDecodeDelimited queryFields queryZero).run stream with
      | mk outcome stream' =>
          cases outcome with
          | none =>
              rw [receiveQueries_none ran]
              exact fun query member => absurd member List.not_mem_nil
          | some query =>
              have sized := (yields_pbDecodeInner keeps_queryFields false
                sized_queryZero).withSubstream.of_run ran
              have less := pbDecodeDelimited_consumes _ _ _ _ _ ran
              rw [receiveQueries_some ran, List.forall_mem_cons]
              subst count
              exact ⟨⟨sized, sized.sendable⟩, ih _ less stream' rfl⟩

/-- A removal with a filter, whose key and text are arrays. -/
theorem receiveQueries_sized_five :
    (Query.received removeFive).filtersList.map (·.compList.length) = [1] ∧
      Query.Sized (Query.received removeFive) ∧
      Query.Sendable (Query.received removeFive) := by
  have sendable : Query.Sendable removeFive := by decide
  have enough : (wire [removeFive]).length ≤ SIZE_MAX := by
    have alone : wire [removeFive] = Varint.framed (queryBytes removeFive) :=
      List.append_nil _
    rw [alone]
    exact (length_framed_query sendable).trans (by decide)
  refine ⟨rfl, ?_⟩
  apply receiveQueries_sized (pbIstreamFromSocket (wire [removeFive]))
  rw [receiveQueries_of_sendable (List.forall_mem_singleton.mpr sendable) enough]
  exact List.mem_singleton_self _

end Messages

end Wire

end TreeStore
