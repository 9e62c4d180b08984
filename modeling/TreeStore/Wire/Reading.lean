import TreeStore.Wire.Fields

/-!
# What decoders read

`Reads decoder bytes result partials`: the decoder makes the result of these bytes
and stops behind them.  If the connection ends within the bytes, it fails, or has
a result in `partials`, and then knows that the connection has ended.
-/

namespace TreeStore

namespace Wire

/-- No result is had of a part of the bytes. -/
abbrev Never {α : Type} : α → Prop := fun _ => False

/-- The outcome at the end of the connection. -/
def EndsEarly {α : Type} (partials : α → Prop) : Option α × Istream → Prop
  | (none, _) => True
  | (some result, stream) => partials result ∧ stream.state = []

structure Reads {α : Type} (decoder : Decoder α) (bytes : List UInt8)
    (result : α) (partials : α → Prop) : Prop where
  whole : ∀ rest left msg, bytes.length ≤ left →
    decoder.run ⟨bytes ++ rest, left, msg⟩ =
      (some result, ⟨rest, left - bytes.length, msg⟩)
  cut : ∀ front back left msg, bytes = front ++ back → back ≠ [] →
    bytes.length ≤ left →
      EndsEarly partials (decoder.run ⟨front, left, msg⟩)

section Rules

variable {α β : Type} {decoder : Decoder α} {next : α → Decoder β}
  {bytes more : List UInt8} {first : α} {result : β}
  {partials : α → Prop} {partials' : β → Prop}

theorem reads_pure (result : α) : Reads (pure result) [] result Never where
  whole rest left msg fits := rfl
  cut front back left msg parts missing := by
    have empty := (List.append_eq_nil_iff.mp parts.symm).2
    exact absurd empty missing

theorem EndsEarly.mono {outcome : Option α × Istream} {other : α → Prop}
    (early : EndsEarly partials outcome)
    (wider : ∀ result, partials result → other result) :
    EndsEarly other outcome := by
  rcases outcome with ⟨result, stream⟩
  cases result with
  | none => trivial
  | some result => exact ⟨wider result early.1, early.2⟩

/-- A cut in the first part shows, as no part of it has a result. -/
theorem Reads.bind (reads : Reads decoder bytes first Never)
    (rest : Reads (next first) more result partials') :
    Reads (decoder >>= next) (bytes ++ more) result partials' where
  whole after left msg fits := by
    rw [List.length_append] at fits
    rw [List.append_assoc, Fallible.run_bind_some
      (reads.whole (more ++ after) left msg (by omega)),
      rest.whole after _ msg (by omega), List.length_append, Nat.sub_sub]
  cut front back left msg parts missing fits := by
    rw [List.length_append] at fits
    rcases List.append_eq_append_iff.mp parts with
      ⟨begun, rfl, there⟩ | ⟨missed, here, rfl⟩
    · rw [Fallible.run_bind_some (reads.whole begun left msg (by omega))]
      exact rest.cut begun back _ msg there missing (by omega)
    · by_cases exactly : missed = []
      · subst exactly
        rw [List.append_nil] at here
        have all := reads.whole [] left msg (by omega)
        rw [List.append_nil] at all
        rw [← here, Fallible.run_bind_some all]
        exact rest.cut [] more _ msg rfl (by simpa using missing) (by omega)
      · have early := reads.cut front missed left msg here exactly (by omega)
        rw [Fallible.run_bind]
        cases ran : decoder.run ⟨front, left, msg⟩ with
        | mk outcome stream' =>
            rw [ran] at early
            cases outcome with
            | none => trivial
            | some other => exact early.1.elim

theorem Reads.then_pure (reads : Reads decoder bytes first Never)
    (same : next first = pure result) :
    Reads (decoder >>= next) bytes result Never := by
  have rest : Reads (next first) [] result Never := by
    rw [same]
    exact reads_pure result
  have both := reads.bind rest
  rwa [List.append_nil] at both

/-- A last step that reads nothing, whatever it is given. -/
theorem Reads.bind_pure {convert : α → β}
    (reads : Reads decoder bytes first partials)
    (converts : ∀ result, next result = pure (convert result))
    (within : ∀ result, partials result → partials' (convert result)) :
    Reads (decoder >>= next) bytes (convert first) partials' where
  whole after left msg fits := by
    rw [Fallible.run_bind_some (reads.whole after left msg fits), converts]
    rfl
  cut front back left msg parts missing fits := by
    have early := reads.cut front back left msg parts missing fits
    rw [Fallible.run_bind]
    cases ran : decoder.run ⟨front, left, msg⟩ with
    | mk outcome stream' =>
        rw [ran] at early
        cases outcome with
        | none => trivial
        | some other =>
            unfold Fallible.continueWith
            dsimp only
            rw [converts]
            exact ⟨within other early.1, early.2⟩

/-- A choice that the number of bytes left decides, while there are enough. -/
theorem Reads.bytesLeft {next : Nat → Decoder β}
    (reads : ∀ left, bytes.length ≤ left →
      Reads (next left) bytes result partials') :
    Reads (bytesLeft >>= next) bytes result partials' where
  whole after left msg fits := (reads left fits).whole after left msg fits
  cut front back left msg parts missing fits :=
    (reads left fits).cut front back left msg parts missing fits

end Rules

section Loops

variable {β γ : Type} {round : β → Decoder (β ⊕ γ)}
  {progresses : Fallible.Progresses round} {before after : β} {result : γ}
  {bytes more : List UInt8}

theorem Reads.loop_inl (reads : Reads (round before) bytes (.inl after) Never)
    (rest : Reads (Fallible.loop progresses after) more result Never) :
    Reads (Fallible.loop progresses before) (bytes ++ more) result Never where
  whole behind left msg fits := by
    rw [List.length_append] at fits
    rw [List.append_assoc, Fallible.run_loop_inl progresses
      (reads.whole (more ++ behind) left msg (by omega)),
      rest.whole behind _ msg (by omega), List.length_append, Nat.sub_sub]
  cut front back left msg parts missing fits := by
    rw [List.length_append] at fits
    rcases List.append_eq_append_iff.mp parts with
      ⟨begun, rfl, there⟩ | ⟨missed, here, rfl⟩
    · rw [Fallible.run_loop_inl progresses
        (reads.whole begun left msg (by omega))]
      exact rest.cut begun back _ msg there missing (by omega)
    · by_cases exactly : missed = []
      · subst exactly
        rw [List.append_nil] at here
        have all := reads.whole [] left msg (by omega)
        rw [List.append_nil] at all
        rw [← here, Fallible.run_loop_inl progresses all]
        exact rest.cut [] more _ msg rfl (by simpa using missing) (by omega)
      · have early := reads.cut front missed left msg here exactly (by omega)
        cases ran : (round before).run ⟨front, left, msg⟩ with
        | mk outcome stream' =>
            rw [ran] at early
            cases outcome with
            | none =>
                rw [Fallible.run_loop_none progresses ran]
                trivial
            | some other => exact early.1.elim

theorem Reads.loop_inr (reads : Reads (round before) bytes (.inr result) Never) :
    Reads (Fallible.loop progresses before) bytes result Never where
  whole behind left msg fits := by
    rw [Fallible.run_loop_inr progresses (reads.whole behind left msg fits)]
  cut front back left msg parts missing fits := by
    have early := reads.cut front back left msg parts missing fits
    cases ran : (round before).run ⟨front, left, msg⟩ with
    | mk outcome stream' =>
        rw [ran] at early
        cases outcome with
        | none =>
            rw [Fallible.run_loop_none progresses ran]
            trivial
        | some other => exact early.1.elim

end Loops

section Primitives

variable {stream : Istream} {count : Nat}

theorem run_received (some_asked : count ≠ 0)
    (there : count ≤ stream.state.length) (error : String) :
    (orElse (readCallback count) (returnError error)).run stream =
      (some (stream.state.take count),
        { stream with state := stream.state.drop count }) := by
  have length : (stream.state.take count).length = count := by
    rw [List.length_take, Nat.min_eq_left there]
  unfold orElse readCallback
  dsimp only
  rw [if_neg some_asked, if_pos length, if_neg (by omega)]

theorem run_received_short (there : stream.state.length < count)
    (error : String) : ∃ stream',
      (orElse (readCallback count) (returnError error)).run stream =
        (none, stream') := by
  have length : (stream.state.take count).length ≠ count := by
    rw [List.length_take]
    omega
  unfold orElse readCallback
  dsimp only
  rw [if_neg (by omega), if_neg length]
  exact ⟨_, rfl⟩

/-- The bytes that `pb_read` is asked for. -/
theorem reads_pbRead (buf : List UInt8) :
    Reads (pbRead buf.length) buf buf Never := by
  unfold pbRead
  by_cases empty : buf = []
  · subst empty
    exact reads_pure []
  · have some_asked : buf.length ≠ 0 := by simpa using empty
    rw [if_neg some_asked]
    apply Reads.bytesLeft
    intro left enough
    rw [if_neg (by omega)]
    constructor
    · intro rest left msg fits
      rw [Fallible.run_bind_some (run_received some_asked (by simp) _)]
      dsimp only
      rw [List.take_left, List.drop_left]
      rfl
    · intro front back left msg parts missing fits
      have less : front.length < buf.length := by
        rw [parts, List.length_append]
        exact Nat.lt_add_of_pos_right (List.length_pos_of_ne_nil missing)
      obtain ⟨stream', failed⟩ := @run_received_short
        ⟨front, left, msg⟩ buf.length less "io error"
      rw [Fallible.run_bind_none failed]
      trivial

theorem reads_pbReadbyte (byte : UInt8) :
    Reads pbReadbyte [byte] byte Never := by
  unfold pbReadbyte
  apply Reads.bytesLeft
  intro left enough
  rw [List.length_singleton] at enough
  rw [if_neg (by omega)]
  constructor
  · intro rest left msg fits
    rw [Fallible.run_bind_some (run_received one_ne_zero (by simp) _)]
    rfl
  · intro front back left msg parts missing fits
    have less : front.length < 1 := by
      have length := congrArg List.length parts
      rw [List.length_singleton, List.length_append] at length
      have := List.length_pos_of_ne_nil missing
      omega
    obtain ⟨stream', failed⟩ := @run_received_short
      ⟨front, left, msg⟩ 1 less "io error"
    rw [Fallible.run_bind_none failed]
    trivial

end Primitives

end Wire

end TreeStore
