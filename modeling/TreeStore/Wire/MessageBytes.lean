import TreeStore.Wire.Messages
import TreeStore.Wire.Kinds

/-!
# The bytes of the messages

The bytes of each message, how many they can be, and what the receiver has of
them: the numbers, and the texts in arrays that are zero behind them.
-/

namespace TreeStore

namespace Wire

section Bytes

def keyValuePairBytes (kv : KeyValuePair) : List UInt8 :=
  [framedBytes 1 (textOf kv.key), int32Bytes 2 kv.valueType,
    int64Bytes 3 kv.valueInt, floatBytes 4 kv.valueReal,
    framedBytes 5 (textOf kv.valueString)].flatten

def valueSettingBytes (kv : KeyValuePair) : List UInt8 :=
  [framedBytes 1 (keyValuePairBytes kv)].flatten

def comparatorBytes (comp : Comparator) : List UInt8 :=
  [int32Bytes 1 comp.operation,
    framedBytes 2 (keyValuePairBytes comp.kv)].flatten

def filterBytes (filter : Filter) : List UInt8 :=
  filter.compList.flatMap fun comp => framedBytes 1 (comparatorBytes comp)

/-- The fields of a query. -/
def querySegments (query : Query) : List (List UInt8) :=
  int32Bytes 1 query.command ::
    ((query.filtersList.map fun filter => framedBytes 2 (filterBytes filter)) ++
      query.settingsList.map fun kv => framedBytes 3 (valueSettingBytes kv))

def queryBytes (query : Query) : List UInt8 := (querySegments query).flatten

def responseBytes (response : Response) : List UInt8 :=
  [framedBytes 1 (textOf response.rString),
    int32Bytes 2 (.ofInt response.last)].flatten

theorem queryBytes_eq (query : Query) : queryBytes query =
    int32Bytes 1 query.command ++
      ((query.filtersList.flatMap fun filter =>
          framedBytes 2 (filterBytes filter)) ++
        query.settingsList.flatMap fun kv =>
          framedBytes 3 (valueSettingBytes kv)) := by
  unfold queryBytes querySegments
  rw [List.flatten_cons, List.flatten_append]
  rfl

end Bytes

section Received

/-- An array with this text, and zeros behind it. -/
def arrayOf (text : List UInt8) : List UInt8 := filled text zeroString

def KeyValuePair.received (kv : KeyValuePair) : KeyValuePair :=
  { kv with
    key := arrayOf (textOf kv.key)
    valueString := arrayOf (textOf kv.valueString) }

def Comparator.received (comp : Comparator) : Comparator :=
  { comp with kv := KeyValuePair.received comp.kv }

def Filter.received (filter : Filter) : Filter where
  compList := filter.compList.map Comparator.received
  count_le := by simpa using filter.count_le

/-- The query that the server has of a query. -/
def Query.received (query : Query) : Query where
  command := query.command
  filtersList := query.filtersList.map Filter.received
  settingsList := query.settingsList.map KeyValuePair.received
  filtersList_le := by simpa using query.filtersList_le
  settingsList_le := by simpa using query.settingsList_le

def Response.received (response : Response) : Response where
  rString := filled (textOf response.rString) (List.replicate rStringSize 0)
  last := (Int32.ofInt response.last).toInt

end Received

section Sendable

/-- The strings of a pair end within their arrays. -/
def KeyValuePair.Sendable (kv : KeyValuePair) : Prop :=
  Terminated stringSize kv.key ∧ Terminated stringSize kv.valueString

instance (kv : KeyValuePair) : Decidable (KeyValuePair.Sendable kv) :=
  inferInstanceAs (Decidable (_ ∧ _))

/-- All strings of a query end within their arrays. -/
def Query.Sendable (query : Query) : Prop :=
  (∀ filter ∈ query.filtersList, ∀ comp ∈ filter.compList,
    KeyValuePair.Sendable comp.kv) ∧
  ∀ kv ∈ query.settingsList, KeyValuePair.Sendable kv

instance (query : Query) : Decidable (Query.Sendable query) :=
  inferInstanceAs (Decidable (_ ∧ _))

end Sendable

section Sizes

theorem length_varint64 (value : UInt64) :
    (Varint.bytes value.toNat).length ≤ 10 :=
  Varint.length_bytes_le (value.toNat_lt.trans (by norm_num))

variable {tag wireType : UInt32} {payload : List UInt8}

theorem length_segment (short : tagNumber tag wireType < 128) :
    (segment tag wireType payload).length = 1 + payload.length := by
  unfold segment
  rw [Varint.bytes_of_lt short, List.length_append, List.length_singleton]

theorem length_int32Bytes (short : tagNumber tag PB_WT_VARINT < 128)
    (value : Int32) : (int32Bytes tag value).length ≤ 11 := by
  unfold int32Bytes
  rw [length_segment short]
  have := length_varint64 value.toInt64.toUInt64
  omega

theorem length_int64Bytes (short : tagNumber tag PB_WT_VARINT < 128)
    (value : Int64) : (int64Bytes tag value).length ≤ 11 := by
  unfold int64Bytes
  rw [length_segment short]
  have := length_varint64 value.toUInt64
  omega

theorem length_floatBytes (short : tagNumber tag PB_WT_32BIT < 128)
    (value : UInt32) : (floatBytes tag value).length = 5 := by
  unfold floatBytes
  rw [length_segment short, ByteFile.leBytes_length]

/-- A body of at most so many bytes, with the length and the tag. -/
theorem length_framedBytes {bound groups : Nat}
    (short : tagNumber tag PB_WT_STRING < 128) (bounded : payload.length ≤ bound)
    (fits : bound < 128 ^ (groups + 1)) :
    (framedBytes tag payload).length ≤ groups + 2 + bound := by
  have length : (Varint.bytes payload.length).length ≤ groups + 1 :=
    Varint.length_bytes_le (lt_of_le_of_lt bounded fits)
  unfold framedBytes Varint.framed
  rw [length_segment short, List.length_append]
  omega

theorem length_flatMap_le {α : Type} {elements : List α} {bound count : Nat}
    {bytesOf : α → List UInt8} (few : elements.length ≤ count)
    (bounded : ∀ element ∈ elements, (bytesOf element).length ≤ bound) :
    (elements.flatMap bytesOf).length ≤ count * bound := by
  have each : (elements.flatMap bytesOf).length ≤ elements.length * bound := by
    clear few
    induction elements with
    | nil => simp
    | cons element elements ih =>
        have here := bounded element List.mem_cons_self
        have rest := ih fun other member =>
          bounded other (List.mem_cons_of_mem element member)
        rw [List.flatMap_cons, List.length_append, List.length_cons,
          Nat.succ_mul]
        omega
  exact each.trans (Nat.mul_le_mul_right bound few)

/-- The generated constants. -/
abbrev queryKeyValuePairSize : Nat := 2079
abbrev queryValueSettingSize : Nat := 2082
abbrev queryComparatorSize : Nat := 2093
abbrev queryFilterSize : Nat := 41920
abbrev querySize : Nat := 880191
abbrev responseSize : Nat := 1037

theorem length_keyValuePairBytes {kv : KeyValuePair}
    (sendable : KeyValuePair.Sendable kv) :
    (keyValuePairBytes kv).length ≤ queryKeyValuePairSize := by
  have key := @length_framedBytes 1 (textOf kv.key) 1023 1 (by decide)
    (Nat.le_of_lt_succ sendable.1.1) (by norm_num)
  have valueType := @length_int32Bytes 2 (by decide) kv.valueType
  have valueInt := @length_int64Bytes 3 (by decide) kv.valueInt
  have valueReal := @length_floatBytes 4 (by decide) kv.valueReal
  have valueString := @length_framedBytes 5 (textOf kv.valueString) 1023 1
    (by decide) (Nat.le_of_lt_succ sendable.2.1) (by norm_num)
  unfold queryKeyValuePairSize
  simp only [keyValuePairBytes, List.flatten_cons, List.flatten_nil,
    List.length_append, List.length_nil]
  omega

theorem length_valueSettingBytes {kv : KeyValuePair}
    (sendable : KeyValuePair.Sendable kv) :
    (valueSettingBytes kv).length ≤ queryValueSettingSize := by
  have pair := @length_framedBytes 1 _ _ 1 (by decide)
    (length_keyValuePairBytes sendable) (by norm_num)
  unfold queryKeyValuePairSize at pair
  unfold queryValueSettingSize
  simp only [valueSettingBytes, List.flatten_cons, List.flatten_nil,
    List.length_append, List.length_nil]
  omega

theorem length_comparatorBytes {comp : Comparator}
    (sendable : KeyValuePair.Sendable comp.kv) :
    (comparatorBytes comp).length ≤ queryComparatorSize := by
  have operation := @length_int32Bytes 1 (by decide) comp.operation
  have pair := @length_framedBytes 2 _ _ 1 (by decide)
    (length_keyValuePairBytes sendable) (by norm_num)
  unfold queryKeyValuePairSize at pair
  unfold queryComparatorSize
  simp only [comparatorBytes, List.flatten_cons, List.flatten_nil,
    List.length_append, List.length_nil]
  omega

theorem length_filterBytes {filter : Filter}
    (sendable : ∀ comp ∈ filter.compList, KeyValuePair.Sendable comp.kv) :
    (filterBytes filter).length ≤ queryFilterSize := by
  have all := @length_flatMap_le _ filter.compList 2096 20
    (fun comp => framedBytes 1 (comparatorBytes comp)) filter.count_le
    fun comp member => @length_framedBytes 1 _ _ 1 (by decide)
      (length_comparatorBytes (sendable comp member)) (by norm_num)
  exact all

theorem length_queryBytes {query : Query} (sendable : Query.Sendable query) :
    (queryBytes query).length ≤ querySize := by
  have command := @length_int32Bytes 1 (by decide) query.command
  have filters := @length_flatMap_le _ query.filtersList 41924 20
    (fun filter => framedBytes 2 (filterBytes filter)) query.filtersList_le
    fun filter member => @length_framedBytes 2 _ _ 2 (by decide)
      (length_filterBytes (sendable.1 filter member)) (by norm_num)
  have settings := @length_flatMap_le _ query.settingsList 2085 20
    (fun kv => framedBytes 3 (valueSettingBytes kv)) query.settingsList_le
    fun kv member => @length_framedBytes 3 _ _ 1 (by decide)
      (length_valueSettingBytes (sendable.2 kv member)) (by norm_num)
  rw [queryBytes_eq, List.length_append, List.length_append]
  unfold querySize
  omega

end Sizes

end Wire

end TreeStore
