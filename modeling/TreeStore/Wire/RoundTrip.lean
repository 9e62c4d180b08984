import TreeStore.Wire.MessageBytes

/-!
# Messages are read back

Each encoder writes the bytes of its message, if all strings end within their
arrays, and each decoder makes the received message of them.  Of a message that
is cut off, the receiver has nothing, unless all required fields are there.
-/

namespace TreeStore

namespace Wire

section Encoding

variable {σ τ : Type} {message : σ} {bytes more : List UInt8}

theorem writes_pbEncode_cons {field : Field σ} {fields : List (Field σ)}
    (first : Writes (field.encodeField message) bytes)
    (rest : Writes (pbEncode fields message) more) :
    Writes (pbEncode (field :: fields) message) (bytes ++ more) :=
  first.bind rest

theorem writes_pbEncode_nil :
    Writes (pbEncode ([] : List (Field σ)) message) [] :=
  writes_pure

theorem writes_pbEncode_last {field : Field σ}
    (writes : Writes (field.encodeField message) bytes) :
    Writes (pbEncode [field] message) bytes := by
  have all := writes_pbEncode_cons writes writes_pbEncode_nil
  rwa [List.append_nil] at all

theorem refuses_pbEncode {field : Field σ} {fields : List (Field σ)}
    (member : field ∈ fields) (refuses : Refuses (field.encodeField message)) :
    Refuses (pbEncode fields message) := by
  induction fields with
  | nil => exact absurd member List.not_mem_nil
  | cons first fields ih =>
      unfold pbEncode
      rcases List.mem_cons.mp member with rfl | later
      · exact refuses.bind
      · exact Refuses.behind (ih later)

variable {tag : UInt32} {fields : List (Field τ)} {body : List UInt8}

theorem writes_framedBytes (small : tag.toNat < 2 ^ 29)
    {encoder : Encoder Unit} (writes : Writes encoder (Varint.framed body)) :
    Writes (do pbEncodeTag PB_WT_STRING tag; encoder) (framedBytes tag body) :=
  (writes_pbEncodeTag small (by decide)).bind writes

theorem writes_int32Field (small : tag.toNat < 2 ^ 29) (get : σ → Int32)
    (set : σ → Int32 → σ) :
    Writes ((int32Field tag get set).encodeField message)
      (int32Bytes tag (get message)) :=
  (writes_pbEncodeTag small (by decide)).bind (writes_pbEncodeVarint _)

theorem writes_int64Field (small : tag.toNat < 2 ^ 29) (get : σ → Int64)
    (set : σ → Int64 → σ) :
    Writes ((int64Field tag get set).encodeField message)
      (int64Bytes tag (get message)) :=
  (writes_pbEncodeTag small (by decide)).bind (writes_pbEncodeVarint _)

theorem writes_floatField (small : tag.toNat < 2 ^ 29) (get : σ → UInt32)
    (set : σ → UInt32 → σ) :
    Writes ((floatField tag get set).encodeField message)
      (floatBytes tag (get message)) :=
  (writes_pbEncodeTag small (by decide)).bind (writes_pbEncodeFixed32 _)

/-- The elements of an array one after the other. -/
theorem writes_encodeArray (small : tag.toNat < 2 ^ 29) {elements : List τ}
    {bytesOf : τ → List UInt8}
    (writes : ∀ element ∈ elements,
      Writes (pbEncode fields element) (bytesOf element) ∧
        (bytesOf element).length < 2 ^ 64) :
    Writes (encodeArray tag fields elements)
      (elements.flatMap fun element => framedBytes tag (bytesOf element)) := by
  induction elements with
  | nil => exact writes_pure
  | cons element elements ih =>
      obtain ⟨here, fits⟩ := writes element List.mem_cons_self
      have rest := ih fun other member =>
        writes other (List.mem_cons_of_mem element member)
      rw [List.flatMap_cons]
      unfold framedBytes segment
      rw [List.append_assoc]
      exact (writes_pbEncodeTag small (by decide)).bind
        ((writes_pbEncodeSubmessage here fits).bind rest)

theorem refuses_encodeArray {elements : List τ} {element : τ}
    (member : element ∈ elements)
    (refuses : Refuses (pbEncode fields element)) :
    Refuses (encodeArray tag fields elements) := by
  induction elements with
  | nil => exact absurd member List.not_mem_nil
  | cons first elements ih =>
      unfold encodeArray
      apply Refuses.behind
      rcases List.mem_cons.mp member with rfl | later
      · exact (refuses_pbEncodeSubmessage refuses).bind
      · exact Refuses.behind (ih later)

end Encoding

section Sending

theorem writes_keyValuePair {kv : KeyValuePair}
    (sendable : KeyValuePair.Sendable kv) :
    Writes (pbEncode keyValuePairFields kv) (keyValuePairBytes kv) := by
  apply writes_pbEncode_cons
  · exact writes_framedBytes (by decide)
      (writes_pbEncString sendable.1 (by norm_num))
  apply writes_pbEncode_cons (writes_int32Field (by decide) _ _)
  apply writes_pbEncode_cons (writes_int64Field (by decide) _ _)
  apply writes_pbEncode_cons (writes_floatField (by decide) _ _)
  apply writes_pbEncode_cons
  · exact writes_framedBytes (by decide)
      (writes_pbEncString sendable.2 (by norm_num))
  exact writes_pbEncode_nil

/-- A pair as the submessage of a message. -/
theorem writes_pair {tag : UInt32} {kv : KeyValuePair}
    (small : tag.toNat < 2 ^ 29) (sendable : KeyValuePair.Sendable kv) :
    Writes (do
        pbEncodeTag PB_WT_STRING tag
        pbEncodeSubmessage (pbEncode keyValuePairFields kv))
      (framedBytes tag (keyValuePairBytes kv)) := by
  have fits := length_keyValuePairBytes sendable
  exact writes_framedBytes small
    (writes_pbEncodeSubmessage (writes_keyValuePair sendable)
      (lt_of_le_of_lt fits (by norm_num)))

theorem writes_valueSetting {kv : KeyValuePair}
    (sendable : KeyValuePair.Sendable kv) :
    Writes (pbEncode valueSettingFields kv) (valueSettingBytes kv) := by
  apply writes_pbEncode_cons
  · exact writes_pair (by decide) sendable
  exact writes_pbEncode_nil

theorem writes_comparator {comp : Comparator}
    (sendable : KeyValuePair.Sendable comp.kv) :
    Writes (pbEncode comparatorFields comp) (comparatorBytes comp) := by
  apply writes_pbEncode_cons (writes_int32Field (by decide) _ _)
  apply writes_pbEncode_cons
  · exact writes_pair (by decide) sendable
  exact writes_pbEncode_nil

theorem writes_filter {filter : Filter}
    (sendable : ∀ comp ∈ filter.compList, KeyValuePair.Sendable comp.kv) :
    Writes (pbEncode filterFields filter) (filterBytes filter) := by
  have elements : Writes
      (encodeArray 1 comparatorFields filter.compList) (filterBytes filter) := by
    apply writes_encodeArray (by decide)
    intro comp member
    have fits := length_comparatorBytes (sendable comp member)
    exact ⟨writes_comparator (sendable comp member),
      lt_of_le_of_lt fits (by norm_num)⟩
  exact writes_pbEncode_last elements

theorem writes_query {query : Query} (sendable : Query.Sendable query) :
    Writes (pbEncode queryFields query) (queryBytes query) := by
  have filters : Writes (encodeArray 2 filterFields query.filtersList)
      (query.filtersList.flatMap fun filter =>
        framedBytes 2 (filterBytes filter)) := by
    apply writes_encodeArray (by decide)
    intro filter member
    have fits := length_filterBytes (sendable.1 filter member)
    exact ⟨writes_filter (sendable.1 filter member),
      lt_of_le_of_lt fits (by norm_num)⟩
  have settings : Writes (encodeArray 3 valueSettingFields query.settingsList)
      (query.settingsList.flatMap fun kv =>
        framedBytes 3 (valueSettingBytes kv)) := by
    apply writes_encodeArray (by decide)
    intro kv member
    have fits := length_valueSettingBytes (sendable.2 kv member)
    exact ⟨writes_valueSetting (sendable.2 kv member),
      lt_of_le_of_lt fits (by norm_num)⟩
  rw [queryBytes_eq]
  apply writes_pbEncode_cons (writes_int32Field (by decide) _ _)
  exact writes_pbEncode_cons filters (writes_pbEncode_last settings)

theorem writes_response {response : Response}
    (sendable : Terminated rStringSize response.rString) :
    Writes (pbEncode responseFields response) (responseBytes response) := by
  apply writes_pbEncode_cons
  · exact writes_framedBytes (by decide)
      (writes_pbEncString sendable (by norm_num))
  apply writes_pbEncode_cons (writes_int32Field (by decide) _ _)
  exact writes_pbEncode_nil

/-- What is on the wire for a query. -/
theorem writes_delimited_query {query : Query}
    (sendable : Query.Sendable query) :
    Writes (pbEncodeDelimited queryFields query)
      (Varint.framed (queryBytes query)) :=
  writes_pbEncodeSubmessage (writes_query sendable)
    (lt_of_le_of_lt (length_queryBytes sendable) (by norm_num))

end Sending

section Refusing

theorem refuses_keyValuePair {kv : KeyValuePair}
    (unsendable : ¬ KeyValuePair.Sendable kv) :
    Refuses (pbEncode keyValuePairFields kv) := by
  rcases not_and_or.mp unsendable with key | valueString
  · apply refuses_pbEncode (List.mem_cons_self ..)
    exact Refuses.behind (refuses_pbEncString key)
  · apply refuses_pbEncode
    · exact List.mem_of_mem_getLast? rfl
    · exact Refuses.behind (refuses_pbEncString valueString)

/-- One string that does not end within its array is enough. -/
theorem refuses_query {query : Query} (unsendable : ¬ Query.Sendable query) :
    Refuses (pbEncode queryFields query) := by
  rcases not_and_or.mp unsendable with filters | settings
  · push Not at filters
    obtain ⟨filter, member, comp, inside, pair⟩ := filters
    have here : Refuses (pbEncode comparatorFields comp) := by
      apply refuses_pbEncode (List.mem_cons_of_mem _ (List.mem_cons_self ..))
      exact Refuses.behind
        (refuses_pbEncodeSubmessage (refuses_keyValuePair pair))
    have there : Refuses (pbEncode filterFields filter) := by
      apply refuses_pbEncode (List.mem_cons_self ..)
      exact refuses_encodeArray inside here
    apply refuses_pbEncode (List.mem_cons_of_mem _ (List.mem_cons_self ..))
    exact refuses_encodeArray member there
  · push Not at settings
    obtain ⟨kv, member, pair⟩ := settings
    have here : Refuses (pbEncode valueSettingFields kv) := by
      apply refuses_pbEncode (List.mem_cons_self ..)
      exact Refuses.behind
        (refuses_pbEncodeSubmessage (refuses_keyValuePair pair))
    apply refuses_pbEncode
    · exact List.mem_of_mem_getLast? rfl
    · exact refuses_encodeArray member here

end Refusing

end Wire

end TreeStore
