import TreeStore.Wire.Fields
import TreeStore.Client
import TreeStore.Responses

/-!
# The messages of the store

The descriptors of `message.pb.h`.  A `ValueSetting` holds nothing but its pair.
-/

namespace TreeStore

namespace Wire

/-- The size of `key` and `valueString`. -/
abbrev stringSize : Nat := 1024

/-- An array of zeros. -/
def zeroString : List UInt8 := List.replicate stringSize 0

/-- `Query_KeyValuePair_init_zero`, and so on. -/
def keyValuePairZero : KeyValuePair := ⟨zeroString, 0, 0, 0, zeroString⟩

def comparatorZero : Comparator := ⟨0, keyValuePairZero⟩

def filterZero : Filter := ⟨[], Nat.zero_le _⟩

def queryZero : Query := ⟨0, [], [], Nat.zero_le _, Nat.zero_le _⟩

def keyValuePairFields : List (Field KeyValuePair) :=
  [stringField 1 stringSize KeyValuePair.key
      fun kv key => { kv with key := key },
    int32Field 2 KeyValuePair.valueType
      fun kv valueType => { kv with valueType := valueType },
    int64Field 3 KeyValuePair.valueInt
      fun kv valueInt => { kv with valueInt := valueInt },
    floatField 4 KeyValuePair.valueReal
      fun kv valueReal => { kv with valueReal := valueReal },
    stringField 5 stringSize KeyValuePair.valueString
      fun kv valueString => { kv with valueString := valueString }]

def valueSettingFields : List (Field KeyValuePair) :=
  [messageField 1 keyValuePairFields id fun _ kv => kv]

def comparatorFields : List (Field Comparator) :=
  [int32Field 1 Comparator.operation
      fun comp operation => { comp with operation := operation },
    messageField 2 keyValuePairFields Comparator.kv
      fun comp kv => { comp with kv := kv }]

def Filter.push (filter : Filter) (comp : Comparator) : Option Filter :=
  if room : filter.compList.length < 20 then
    some ⟨filter.compList ++ [comp], by simpa using room⟩
  else none

def filterFields : List (Field Filter) :=
  [repeatedField 1 comparatorFields comparatorZero Filter.compList
    (fun _ => filterZero) Filter.push]

def Query.clearFilters (query : Query) : Query :=
  { query with filtersList := [], filtersList_le := Nat.zero_le _ }

def Query.clearSettings (query : Query) : Query :=
  { query with settingsList := [], settingsList_le := Nat.zero_le _ }

def Query.pushFilter (query : Query) (filter : Filter) : Option Query :=
  if room : query.filtersList.length < 20 then
    some { query with
      filtersList := query.filtersList ++ [filter]
      filtersList_le := by simpa using room }
  else none

def Query.pushSetting (query : Query) (kv : KeyValuePair) : Option Query :=
  if room : query.settingsList.length < 20 then
    some { query with
      settingsList := query.settingsList ++ [kv]
      settingsList_le := by simpa using room }
  else none

def queryFields : List (Field Query) :=
  [int32Field 1 Query.command
      fun query command => { query with command := command },
    repeatedField 2 filterFields filterZero Query.filtersList
      Query.clearFilters Query.pushFilter,
    repeatedField 3 valueSettingFields keyValuePairZero Query.settingsList
      Query.clearSettings Query.pushSetting]

def responseFields : List (Field Response) :=
  [stringField 1 rStringSize Response.rString
      fun response rString => { response with rString := rString },
    int32Field 2 (fun response => .ofInt response.last)
      fun response last => { response with last := last.toInt }]

end Wire

end TreeStore
