import TreeStore.Wire.Varints

/-!
# Bodies of messages

The body of a message is a sequence of fields, and the bytes of each make one
round of `pb_decode_inner`.  If the connection ends between two fields, the
message counts as complete; so the states between the fields have to be known.
-/

namespace TreeStore

namespace Wire

variable {σ α : Type}

/-- The outcome at the end of the connection, where nothing is waited for. -/
def EndsHere (partials : α → Prop) : Option α × Istream → Prop
  | (none, _) => True
  | (some result, stream) =>
      partials result ∧ stream.state = [] ∧ stream.bytesLeft = 0

/-- What a decoder reads from a substream of exactly these bytes. -/
structure Fills (decoder : Decoder α) (bytes : List UInt8) (result : α)
    (partials : α → Prop) : Prop where
  whole : ∀ rest msg, decoder.run ⟨bytes ++ rest, bytes.length, msg⟩ =
    (some result, ⟨rest, 0, msg⟩)
  cut : ∀ front back msg, bytes = front ++ back → back ≠ [] →
    EndsHere partials (decoder.run ⟨front, bytes.length, msg⟩)

section Substreams

variable {inner : Decoder α} {bytes : List UInt8} {result : α}
  {partials : α → Prop}

theorem EndsHere.mono {outcome : Option α × Istream} {other : α → Prop}
    (ends : EndsHere partials outcome)
    (wider : ∀ result, partials result → other result) :
    EndsHere other outcome := by
  rcases outcome with ⟨result, stream⟩
  cases result with
  | none => trivial
  | some result => exact ⟨wider result ends.1, ends.2⟩

theorem Fills.mono (fills : Fills inner bytes result partials)
    {other : α → Prop} (wider : ∀ result, partials result → other result) :
    Fills inner bytes result other where
  whole := fills.whole
  cut front back msg parts missing :=
    (fills.cut front back msg parts missing).mono wider

theorem run_onSubstream {stream substream : Istream} {size : Nat}
    {status : Option α}
    (ran : inner.run { stream with bytesLeft := size } = (status, substream))
    (consumed : substream.bytesLeft = 0) :
    (onSubstream inner size).run stream =
      (status, ⟨substream.state, stream.bytesLeft, substream.errmsg⟩) := by
  have closed : pbCloseStringSubstream.run substream =
      (some (), substream) := by
    unfold pbCloseStringSubstream
    rw [Fallible.run_bind]
    unfold bytesLeft Fallible.continueWith
    dsimp only
    rw [if_neg (not_not.mpr consumed)]
    rfl
  change leaveSubstream stream (inner.run { stream with bytesLeft := size }) = _
  rw [ran]
  unfold leaveSubstream
  dsimp only
  rw [closed]

theorem run_onSubstream_none {stream substream : Istream} {size : Nat}
    (ran : inner.run { stream with bytesLeft := size } = (none, substream)) :
    ∃ stream', (onSubstream inner size).run stream = (none, stream') := by
  change ∃ stream',
    leaveSubstream stream (inner.run { stream with bytesLeft := size }) = _
  rw [ran]
  unfold leaveSubstream
  dsimp only
  cases closed : pbCloseStringSubstream.run substream with
  | mk outcome rest => cases outcome <;> exact ⟨_, rfl⟩

/-- The substream gets as many bytes as the length in front of it says. -/
theorem run_withSubstream {size : Nat} (fits : size < 2 ^ 32)
    (rest : List UInt8) {left : Nat} (msg : Option String)
    (enough : (Varint.bytes size).length + size ≤ left) :
    (withSubstream inner).run ⟨Varint.bytes size ++ rest, left, msg⟩ =
      (onSubstream inner size).run
        ⟨rest, left - (Varint.bytes size).length - size, msg⟩ := by
  have whole : (UInt32.ofNat size).toNat = size := by
    rw [UInt32.toNat_ofNat', Nat.mod_eq_of_lt fits]
  have made : pbMakeStringSubstream.run
      ⟨Varint.bytes size ++ rest, left, msg⟩ =
        (some size, ⟨rest, left - (Varint.bytes size).length - size, msg⟩) := by
    unfold pbMakeStringSubstream
    rw [Fallible.run_bind_some
      ((reads_pbDecodeVarint32 fits).whole rest left msg (by omega)),
      Fallible.run_bind]
    unfold bytesLeft Fallible.continueWith
    dsimp only
    rw [whole, if_neg (by omega)]
    rfl
  exact Fallible.run_bind_some made _

/-- An end of the connection behind the length is one within the body. -/
theorem Fills.early (fills : Fills inner bytes result partials)
    (fits : bytes.length < 2 ^ 32) {begun back : List UInt8} {left : Nat}
    (msg : Option String) (parts : bytes = begun ++ back) (missing : back ≠ [])
    (enough : (Varint.bytes bytes.length).length + bytes.length ≤ left) :
    EndsEarly partials ((withSubstream inner).run
      ⟨Varint.bytes bytes.length ++ begun, left, msg⟩) := by
  rw [run_withSubstream fits _ msg enough]
  have early := fills.cut begun back msg parts missing
  cases ran : inner.run ⟨begun, bytes.length, msg⟩ with
  | mk outcome substream =>
      rw [ran] at early
      cases outcome with
      | none =>
          obtain ⟨stream', failed⟩ := @run_onSubstream_none _ inner
            ⟨begun, _, msg⟩ substream bytes.length ran
          rw [failed]
          trivial
      | some found =>
          rw [@run_onSubstream _ inner ⟨begun, _, msg⟩ substream
            bytes.length _ ran early.2.2]
          exact ⟨early.1, early.2.1⟩

theorem Fills.reads_framed (fills : Fills inner bytes result partials)
    (fits : bytes.length < 2 ^ 32) :
    Reads (withSubstream inner) (Varint.framed bytes) result partials := by
  unfold Varint.framed
  constructor
  · intro rest left msg enough
    rw [List.length_append] at enough
    rw [List.append_assoc, run_withSubstream fits _ msg enough,
      run_onSubstream (fills.whole rest msg) rfl, List.length_append,
      Nat.sub_sub]
  · intro front back left msg parts missing enough
    rw [List.length_append] at enough
    rcases List.append_eq_append_iff.mp parts with
      ⟨begun, rfl, there⟩ | ⟨missed, here, rfl⟩
    · exact fills.early fits msg there missing enough
    · by_cases exactly : missed = []
      · subst exactly
        rw [List.append_nil] at here
        have early := @Fills.early _ _ _ _ _ fills fits [] bytes left msg rfl
          (by simpa using missing) enough
        rwa [List.append_nil, here] at early
      · have early := (reads_pbDecodeVarint32 fits).cut front missed left msg
          here exactly (by omega)
        unfold withSubstream pbMakeStringSubstream
        rw [Fallible.run_bind, Fallible.run_bind]
        cases ran : pbDecodeVarint32.run ⟨front, left, msg⟩ with
        | mk outcome stream' =>
            rw [ran] at early
            cases outcome with
            | none => trivial
            | some found => exact early.1.elim

end Substreams

section Rounds

variable {fields : List (Field σ)} {cuts : σ × Nat → Prop}
  {before after : σ × Nat} {bytes : List UInt8}

/-- The bytes of a field, for a round of `pb_decode_inner`. -/
structure RoundReads (fields : List (Field σ)) (cuts : σ × Nat → Prop)
    (before : σ × Nat) (bytes : List UInt8) (after : σ × Nat) : Prop where
  nonempty : bytes ≠ []
  whole : ∀ rest left msg, bytes.length ≤ left →
    (decodeRound fields before).run ⟨bytes ++ rest, left, msg⟩ =
      (some (.inl after), ⟨rest, left - bytes.length, msg⟩)
  cut : ∀ front back left msg, bytes = front ++ back → front ≠ [] →
    back ≠ [] → bytes.length ≤ left →
      EndsEarly (fun result => ∃ state, result = .inl state ∧ cuts state)
        ((decodeRound fields before).run ⟨front, left, msg⟩)

theorem run_bytesLeft_bind {β : Type} (next : Nat → Decoder β)
    (stream : Istream) :
    (bytesLeft >>= next).run stream = (next stream.bytesLeft).run stream :=
  rfl

theorem run_decodeRound_done (rest : List UInt8) (msg : Option String) :
    (decodeRound fields before).run ⟨rest, 0, msg⟩ =
      (some (.inr before), ⟨rest, 0, msg⟩) :=
  rfl

theorem run_decodeRound_nil (left : Nat) (msg : Option String) : ∃ msg',
    (decodeRound fields before).run ⟨[], left, msg⟩ =
      (some (.inr before), ⟨[], 0, msg'⟩) := by
  by_cases none_left : left = 0
  · subst none_left
    exact ⟨msg, rfl⟩
  · obtain ⟨msg', ended⟩ := @run_pbDecodeVarint32Eof_nil left (by omega) msg
    refine ⟨msg', ?_⟩
    unfold decodeRound
    rw [run_bytesLeft_bind, if_neg none_left]
    have tag : pbDecodeTag.run ⟨[], left, msg⟩ = (some none, ⟨[], 0, msg'⟩) :=
      Fallible.run_bind_some ended _
    rw [Fallible.run_bind_some tag]
    rfl

/-- Once the connection has ended, so does the loop. -/
theorem run_loop_ended {stream : Istream} (ended : stream.state = [])
    (state : σ × Nat) : ∃ stream',
    (Fallible.loop (decodeRound_progresses fields) state).run stream =
        (some state, stream') ∧
      stream'.state = [] ∧ stream'.bytesLeft = 0 := by
  rcases stream with ⟨rest, left, msg⟩
  obtain rfl : rest = [] := ended
  obtain ⟨msg', last⟩ := @run_decodeRound_nil _ fields state left msg
  exact ⟨_, Fallible.run_loop_inr _ last, rfl, rfl⟩

/-- The round of a field whose tag has one byte. -/
theorem roundReads_field {field : Field σ} {index : Nat} {wireType : UInt32}
    {payload : List UInt8} {message : σ} {partials : σ → Prop}
    (found : pbFieldIterFind field.tag fields 0 = some (field, index))
    (some_tag : field.tag ≠ 0) (short : tagNumber field.tag wireType < 128)
    (kind : wireType.toNat < 8)
    (reads : Reads (field.decodeField wireType before.1) payload message
      partials)
    (known : ∀ state, partials state.1 →
      state.2 = markSeen field index before.2 → cuts state) :
    RoundReads fields cuts before
      (Varint.bytes (tagNumber field.tag wireType) ++ payload)
      (message, markSeen field index before.2) := by
  have one : Varint.bytes (tagNumber field.tag wireType) =
      [.ofNat (tagNumber field.tag wireType)] := Varint.bytes_of_lt short
  have small : field.tag.toNat < 2 ^ 29 := by
    unfold tagNumber at short
    omega
  have tag (rest : List UInt8) (left : Nat) (msg : Option String)
      (enough : 0 < left) : (decodeRound fields before).run
        ⟨Varint.bytes (tagNumber field.tag wireType) ++ rest, left, msg⟩ =
      (do
        let message ← field.decodeField wireType before.1
        return .inl (message, markSeen field index before.2) :
          Decoder ((σ × Nat) ⊕ (σ × Nat))).run ⟨rest, left - 1, msg⟩ := by
    have read := (reads_pbDecodeTag small kind).whole rest left msg
      (by rw [one]; exact enough)
    unfold decodeRound
    rw [run_bytesLeft_bind, if_neg (by dsimp only; omega),
      Fallible.run_bind_some read]
    dsimp only
    rw [if_neg some_tag, found, one]
    rfl
  have rest := @Reads.bind_pure _ ((σ × Nat) ⊕ (σ × Nat)) _
    (fun message => return .inl (message, markSeen field index before.2))
    payload message partials
    (fun result => ∃ state, result = .inl state ∧ cuts state)
    (fun message => .inl (message, markSeen field index before.2)) reads
    (fun _ => rfl)
    fun result within => ⟨(result, _), rfl, known (result, _) within rfl⟩
  constructor
  · rw [one]
    simp
  · intro behind left msg enough
    rw [List.length_append, one, List.length_singleton] at enough
    rw [List.append_assoc, tag _ left msg (by omega),
      rest.whole behind (left - 1) msg (by omega), one, List.length_append,
      List.length_singleton, Nat.sub_sub]
  · intro front back left msg parts begun missing enough
    rw [List.length_append, one, List.length_singleton] at enough
    rcases List.append_eq_append_iff.mp parts with
      ⟨more, rfl, there⟩ | ⟨missed, here, rfl⟩
    · rw [tag more left msg (by omega)]
      exact rest.cut more back (left - 1) msg there missing (by omega)
    · -- the only byte of the tag is there
      rw [one] at here
      have nothing : missed = [] := by
        cases front with
        | nil => exact absurd rfl begun
        | cons head tail =>
            exact (List.append_eq_nil_iff.mp (List.cons.inj here).2.symm).2
      subst nothing
      rw [List.append_nil, ← one] at here
      have ran := tag [] left msg (by omega)
      rw [List.append_nil, here] at ran
      rw [ran]
      exact rest.cut [] payload (left - 1) msg rfl (by simpa using missing)
        (by omega)

end Rounds

section Chains

variable {fields : List (Field σ)} {cuts : σ × Nat → Prop}
  {before after : σ × Nat} {segments : List (List UInt8)}

/-- The rounds for the fields of a body.  `cuts` holds of what a message can be
when the connection ends before the last of them. -/
inductive Decodes (fields : List (Field σ)) (cuts : σ × Nat → Prop) :
    σ × Nat → List (List UInt8) → σ × Nat → Prop
  | nil (state : σ × Nat) : Decodes fields cuts state [] state
  | cons {before middle after : σ × Nat} {bytes : List UInt8}
      {more : List (List UInt8)} :
      cuts before → RoundReads fields cuts before bytes middle →
        Decodes fields cuts middle more after →
          Decodes fields cuts before (bytes :: more) after

theorem Decodes.append {middle : σ × Nat} {more : List (List UInt8)}
    (first : Decodes fields cuts before segments middle)
    (rest : Decodes fields cuts middle more after) :
    Decodes fields cuts before (segments ++ more) after := by
  induction first with
  | nil state => exact rest
  | cons known round _ ih => exact .cons known round (ih rest)

/-- A substream with the whole body. -/
theorem Decodes.run_loop (decodes : Decodes fields cuts before segments after)
    (rest : List UInt8) (msg : Option String) :
    (Fallible.loop (decodeRound_progresses fields) before).run
        ⟨segments.flatten ++ rest, segments.flatten.length, msg⟩ =
      (some after, ⟨rest, 0, msg⟩) := by
  induction decodes with
  | nil state => exact Fallible.run_loop_inr _ (run_decodeRound_done rest msg)
  | @cons before middle after bytes more _ round _ ih =>
      have first := round.whole (more.flatten ++ rest)
        (bytes ++ more.flatten).length msg
        (by rw [List.length_append]; omega)
      rw [List.flatten_cons, List.append_assoc, Fallible.run_loop_inl _ first,
        List.length_append, Nat.add_sub_cancel_left]
      exact ih

/-- If the connection ends behind the body, a longer substream does not matter. -/
theorem Decodes.run_loop_front
    (decodes : Decodes fields cuts before segments after) {left : Nat}
    (enough : segments.flatten.length ≤ left) (msg : Option String) :
    ∃ stream', (Fallible.loop (decodeRound_progresses fields) before).run
        ⟨segments.flatten, left, msg⟩ = (some after, stream') ∧
      stream'.state = [] ∧ stream'.bytesLeft = 0 := by
  induction decodes generalizing left with
  | nil state => exact run_loop_ended rfl state
  | @cons before middle after bytes more _ round _ ih =>
      rw [List.flatten_cons, List.length_append] at enough
      rw [List.flatten_cons, Fallible.run_loop_inl _
        (round.whole more.flatten left msg (by omega))]
      exact ih (by omega)

/-- A substream with a part of the body. -/
theorem Decodes.run_loop_cut
    (decodes : Decodes fields cuts before segments after)
    {front back : List UInt8} (msg : Option String)
    (parts : segments.flatten = front ++ back) (missing : back ≠ []) :
    EndsHere cuts ((Fallible.loop (decodeRound_progresses fields) before).run
      ⟨front, segments.flatten.length, msg⟩) := by
  induction decodes generalizing front with
  | nil state =>
      exact absurd (List.append_eq_nil_iff.mp parts.symm).2 missing
  | @cons before middle after bytes more known round _ ih =>
      have ended (left : Nat) : EndsHere cuts
          ((Fallible.loop (decodeRound_progresses fields) before).run
            ⟨[], left, msg⟩) := by
        obtain ⟨stream', ran, empty, none_left⟩ :=
          @run_loop_ended _ fields ⟨[], left, msg⟩ rfl before
        rw [ran]
        exact ⟨known, empty, none_left⟩
      rw [List.flatten_cons] at parts
      rw [List.flatten_cons, List.length_append]
      rcases List.append_eq_append_iff.mp parts with
        ⟨begun, rfl, there⟩ | ⟨missed, here, rfl⟩
      · rw [Fallible.run_loop_inl _
          (round.whole begun _ msg (Nat.le_add_right _ _)),
          Nat.add_sub_cancel_left]
        exact ih there
      · by_cases begun : front = []
        · subst begun
          exact ended _
        by_cases exactly : missed = []
        · subst exactly
          rw [List.append_nil] at here
          subst here
          have first := round.whole []
            (bytes.length + more.flatten.length) msg (Nat.le_add_right _ _)
          rw [List.append_nil] at first
          rw [Fallible.run_loop_inl _ first, Nat.add_sub_cancel_left]
          exact ih rfl
        · have early := round.cut front missed
            (bytes.length + more.flatten.length) msg here begun exactly
            (Nat.le_add_right _ _)
          cases ran : (decodeRound fields before).run
              ⟨front, bytes.length + more.flatten.length, msg⟩ with
          | mk outcome stream =>
              rw [ran] at early
              cases outcome with
              | none =>
                  rw [Fallible.run_loop_none _ ran]
                  trivial
              | some result =>
                  obtain ⟨⟨state, rfl, known'⟩, empty⟩ := early
                  obtain ⟨stream', ran', empty', none_left⟩ :=
                    @run_loop_ended _ fields stream empty state
                  rw [Fallible.run_loop_inl _ ran, ran']
                  exact ⟨known', empty', none_left⟩

variable {message message' : σ} {seen : Nat}

/-- A required field before the rest of a body. -/
theorem Decodes.required {field : Field σ} {index : Nat} {wireType : UInt32}
    {payload : List UInt8} {more : List (List UInt8)} {partials : σ → Prop}
    (seen' : Nat)
    (known : cuts (message, seen))
    (found : pbFieldIterFind field.tag fields 0 = some (field, index))
    (required : field.required = true) (some_tag : field.tag ≠ 0)
    (short : tagNumber field.tag wireType < 128) (kind : wireType.toNat < 8)
    (marked : seen ||| 1 <<< index = seen')
    (reads : Reads (field.decodeField wireType message) payload message'
      partials)
    (within : ∀ state, partials state → cuts (state, seen'))
    (rest : Decodes fields cuts (message', seen') more after) :
    Decodes fields cuts (message, seen)
      ((Varint.bytes (tagNumber field.tag wireType) ++ payload) :: more)
      after := by
  have marks : markSeen field index seen = seen' := by
    unfold markSeen
    rw [if_pos required, marked]
  have round := @roundReads_field _ fields cuts (message, seen) _ _ _ _ _ _
    found some_tag short kind reads
    fun state partially same => by
      rcases state with ⟨state, number⟩
      obtain rfl : number = markSeen field index seen := same
      rw [marks]
      exact within state partially
  dsimp only at round
  rw [marks] at round
  exact .cons known round rest

variable {noinit : Bool} {start final : σ}

theorem fills_pbDecodeInner
    (starts : (if noinit then message else pbMessageSetToDefaults fields message)
      = start)
    (decodes : Decodes fields cuts (start, 0) segments
      (final, allSeen fields)) :
    Fills (pbDecodeInner fields noinit message) segments.flatten final
      fun result => cuts (result, allSeen fields) := by
  have inner (stream : Istream) :
      (pbDecodeInner fields noinit message).run stream =
        (Fallible.loop (decodeRound_progresses fields) (start, 0) >>=
          checkRequired fields).run stream := by
    unfold pbDecodeInner
    rw [starts]
  constructor
  · intro rest msg
    rw [inner, Fallible.run_bind_some (decodes.run_loop rest msg)]
    unfold checkRequired
    dsimp only
    rw [if_neg (not_not.mpr rfl)]
    rfl
  · intro front back msg parts missing
    have early := decodes.run_loop_cut msg parts missing
    rw [inner, Fallible.run_bind]
    cases ran : (Fallible.loop (decodeRound_progresses fields) (start, 0)).run
        ⟨front, segments.flatten.length, msg⟩ with
    | mk outcome stream =>
        rw [ran] at early
        cases outcome with
        | none => trivial
        | some state =>
            obtain ⟨known, empty, none_left⟩ := early
            unfold Fallible.continueWith checkRequired
            dsimp only
            by_cases all : state.2 = allSeen fields
            · rw [if_neg (not_not.mpr all), ← all]
              exact ⟨known, empty, none_left⟩
            · rw [if_pos all]
              trivial

/-- A message whose length counts more than there is before the connection
ends. -/
theorem run_pbDecodeDelimited_ended {size left : Nat}
    (starts : pbMessageSetToDefaults fields message = start)
    (decodes : Decodes fields cuts (start, 0) segments (final, allSeen fields))
    (inside : segments.flatten.length ≤ size) (fits : size < 2 ^ 32)
    (enough : (Varint.bytes size).length + size ≤ left) (msg : Option String) :
    ∃ left' msg', (pbDecodeDelimited fields message).run
        ⟨Varint.bytes size ++ segments.flatten, left, msg⟩ =
      (some final, ⟨[], left', msg'⟩) := by
  obtain ⟨⟨rest, left', msg'⟩, ran, ended, none_left⟩ :=
    decodes.run_loop_front inside msg
  obtain rfl : rest = [] := ended
  have inner : (pbDecodeInner fields false message).run
      ⟨segments.flatten, size, msg⟩ = (some final, ⟨[], left', msg'⟩) := by
    unfold pbDecodeInner
    dsimp only
    rw [if_neg (by decide), starts, Fallible.run_bind_some ran]
    unfold checkRequired
    dsimp only
    rw [if_neg (not_not.mpr rfl)]
    rfl
  unfold pbDecodeDelimited
  rw [run_withSubstream fits _ msg enough, run_onSubstream inner none_left]
  exact ⟨_, _, rfl⟩

end Chains

end Wire

end TreeStore
