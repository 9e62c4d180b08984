import TreeStore.Wire.MessageBytes

/-!
# What is received

The decoders read the bytes of the messages.  If the connection ends within a
query whose command is there, what has been read of the filters and settings is
taken for all of them.
-/

namespace TreeStore

namespace Wire

section Pairs

variable {kv : KeyValuePair}

/-- A pair is there as a whole or not at all. -/
theorem fills_keyValuePair (sendable : KeyValuePair.Sendable kv)
    (noinit : Bool) :
    Fills (pbDecodeInner keyValuePairFields noinit keyValuePairZero)
      (keyValuePairBytes kv) (KeyValuePair.received kv) Never := by
  have decodes : Decodes keyValuePairFields (fun state => state.2 ≠ 31)
      (keyValuePairZero, 0)
      [framedBytes 1 (textOf kv.key), int32Bytes 2 kv.valueType,
        int64Bytes 3 kv.valueInt, floatBytes 4 kv.valueReal,
        framedBytes 5 (textOf kv.valueString)]
      (KeyValuePair.received kv, 31) := by
    apply Decodes.required 1 (by simp) rfl rfl (by decide) (by decide)
      (by decide) rfl (reads_stringField sendable.1.1 (by norm_num))
      fun _ => False.elim
    apply Decodes.required 3 (by simp) rfl rfl (by decide) (by decide)
      (by decide) rfl (reads_int32Field kv.valueType) fun _ => False.elim
    apply Decodes.required 7 (by simp) rfl rfl (by decide) (by decide)
      (by decide) rfl (reads_int64Field kv.valueInt) fun _ => False.elim
    apply Decodes.required 15 (by simp) rfl rfl (by decide) (by decide)
      (by decide) rfl (reads_floatField kv.valueReal) fun _ => False.elim
    apply Decodes.required 31 (by simp) rfl rfl (by decide) (by decide)
      (by decide) rfl (reads_stringField sendable.2.1 (by norm_num))
      fun _ => False.elim
    exact Decodes.nil _
  have starts : (if noinit then keyValuePairZero
      else pbMessageSetToDefaults keyValuePairFields keyValuePairZero) =
        keyValuePairZero := by
    cases noinit <;> rfl
  have fills := fills_pbDecodeInner starts decodes
  exact fills.mono fun _ incomplete => incomplete rfl

/-- A pair in a message that has none yet. -/
theorem reads_pair {σ : Type} {tag : UInt32} {message : σ}
    {get : σ → KeyValuePair} {set : σ → KeyValuePair → σ}
    (sendable : KeyValuePair.Sendable kv)
    (unset : get message = keyValuePairZero) :
    Reads ((messageField tag keyValuePairFields get set).decodeField
        PB_WT_STRING message) (Varint.framed (keyValuePairBytes kv))
      (set message (KeyValuePair.received kv)) Never := by
  have fits := length_keyValuePairBytes sendable
  apply reads_messageField
  · rw [unset]
    exact fills_keyValuePair sendable true
  · exact lt_of_le_of_lt fits (by norm_num)

theorem fills_valueSetting (sendable : KeyValuePair.Sendable kv) :
    Fills (pbDecodeInner valueSettingFields false keyValuePairZero)
      (valueSettingBytes kv) (KeyValuePair.received kv) Never := by
  have decodes : Decodes valueSettingFields (fun state => state.2 ≠ 1)
      (keyValuePairZero, 0) [framedBytes 1 (keyValuePairBytes kv)]
      (KeyValuePair.received kv, 1) := by
    apply Decodes.required 1 (by simp) rfl rfl (by decide) (by decide)
      (by decide) rfl (reads_pair sendable (by rfl)) fun _ => False.elim
    exact Decodes.nil _
  have fills := @fills_pbDecodeInner _ valueSettingFields _ _
    keyValuePairZero false _ _ rfl decodes
  exact fills.mono fun _ incomplete => incomplete rfl

theorem fills_comparator {comp : Comparator}
    (sendable : KeyValuePair.Sendable comp.kv) :
    Fills (pbDecodeInner comparatorFields false comparatorZero)
      (comparatorBytes comp) (Comparator.received comp) Never := by
  have decodes : Decodes comparatorFields (fun state => state.2 ≠ 3)
      (comparatorZero, 0)
      [int32Bytes 1 comp.operation,
        framedBytes 2 (keyValuePairBytes comp.kv)]
      (Comparator.received comp, 3) := by
    apply Decodes.required 1 (by simp) rfl rfl (by decide) (by decide)
      (by decide) rfl (reads_int32Field comp.operation) fun _ => False.elim
    apply Decodes.required 3 (by simp) rfl rfl (by decide) (by decide)
      (by decide) rfl (reads_pair sendable (by rfl)) fun _ => False.elim
    exact Decodes.nil _
  have fills := @fills_pbDecodeInner _ comparatorFields _ _ comparatorZero
    false _ _ rfl decodes
  exact fills.mono fun _ incomplete => incomplete rfl

end Pairs

section Repeated

variable {σ τ ι : Type} {fields : List (Field σ)} {sub : List (Field τ)}
  {cuts : σ × Nat → Prop} {tag : UInt32} {blank : τ} {get : σ → List τ}
  {clear : σ → σ} {push : σ → τ → Option σ} {index seen : Nat}
  {bodyOf : ι → List UInt8} {resultOf : ι → τ} {partialsOf : ι → τ → Prop}
  {known : σ → List ι → Prop}

/-- The elements of a repeated field.  `known` says how a message stands to the
elements that are still to come. -/
theorem decodes_repeated {message : σ} {elements : List ι}
    (found : pbFieldIterFind tag fields 0 =
      some (repeatedField tag sub blank get clear push, index))
    (some_tag : tag ≠ 0) (short : tagNumber tag PB_WT_STRING < 128)
    (fills : ∀ element ∈ elements,
      Fills (pbDecodeInner sub false blank) (bodyOf element) (resultOf element)
        (partialsOf element) ∧ (bodyOf element).length < 2 ^ 32)
    (next : ∀ state element rest, known state (element :: rest) →
      cuts (state, seen) ∧ (push state blank).isSome ∧
      (∃ state', push state (resultOf element) = some state' ∧
        known state' rest) ∧
      ∀ part state', partialsOf element part → push state part = some state' →
        cuts (state', seen))
    (holds : known message elements) :
    ∃ message', known message' [] ∧ Decodes fields cuts (message, seen)
      (elements.map fun element => framedBytes tag (bodyOf element))
      (message', seen) := by
  induction elements generalizing message with
  | nil => exact ⟨message, holds, Decodes.nil _⟩
  | cons element elements ih =>
      obtain ⟨here, fits⟩ := fills element List.mem_cons_self
      obtain ⟨cut, room, ⟨state', pushed, rest⟩, partially⟩ :=
        next message element elements holds
      obtain ⟨message', final, decodes⟩ :=
        ih (fun other member => fills other (List.mem_cons_of_mem _ member)) rest
      refine ⟨message', final, ?_⟩
      have round := @roundReads_field _ fields cuts (message, seen)
        (repeatedField tag sub blank get clear push) index PB_WT_STRING _ _ _
        found some_tag short (by decide)
        (reads_repeatedField here fits room pushed)
        fun state part same => by
          rcases state with ⟨state, number⟩
          obtain ⟨other, part, pushed⟩ := part
          obtain rfl : number = seen := same
          exact partially other state part pushed
      exact .cons cut round decodes

end Repeated

section Filters

/-- The filter has the first comparators of the other. -/
def Filter.Begins (part whole : Filter) : Prop :=
  part.compList <+: whole.compList

theorem filter_ext {first second : Filter}
    (same : first.compList = second.compList) : first = second := by
  cases first
  cases second
  congr

theorem Filter.push_eq_some {filter other : Filter} {comp : Comparator}
    (pushed : Filter.push filter comp = some other) :
    other.compList = filter.compList ++ [comp] := by
  unfold Filter.push at pushed
  split_ifs at pushed
  cases pushed
  rfl

theorem Filter.push_of_lt {filter : Filter} (comp : Comparator)
    (room : filter.compList.length < 20) :
    ∃ other, Filter.push filter comp = some other := by
  unfold Filter.push
  rw [dif_pos room]
  exact ⟨_, rfl⟩

theorem fills_filter {filter : Filter}
    (sendable : ∀ comp ∈ filter.compList, KeyValuePair.Sendable comp.kv) :
    Fills (pbDecodeInner filterFields false filterZero) (filterBytes filter)
      (Filter.received filter)
      fun part => Filter.Begins part (Filter.received filter) := by
  have fills (comp : Comparator) (member : comp ∈ filter.compList) :
      Fills (pbDecodeInner comparatorFields false comparatorZero)
        (comparatorBytes comp) (Comparator.received comp) Never ∧
      (comparatorBytes comp).length < 2 ^ 32 :=
    ⟨fills_comparator (sendable comp member),
      lt_of_le_of_lt (length_comparatorBytes (sendable comp member))
        (by norm_num)⟩
  obtain ⟨final, ⟨done, parts, all⟩, decodes⟩ := @decodes_repeated _ _ _
    filterFields comparatorFields
    (fun state => Filter.Begins state.1 (Filter.received filter)) 1
    comparatorZero Filter.compList (fun _ => filterZero) Filter.push 0 0
    comparatorBytes Comparator.received (fun _ => Never)
    (fun state rest => ∃ done, filter.compList = done ++ rest ∧
      state.compList = done.map Comparator.received)
    filterZero filter.compList rfl (by decide) (by decide) fills
    (by
      rintro state comp rest ⟨done, parts, same⟩
      have begun : state.compList <+: (Filter.received filter).compList := by
        rw [same]
        unfold Filter.received
        dsimp only
        rw [parts, List.map_append]
        exact List.prefix_append _ _
      have room : state.compList.length < 20 := by
        have few := filter.count_le
        rw [parts, List.length_append, List.length_cons] at few
        rw [same, List.length_map]
        omega
      obtain ⟨other, taken⟩ := Filter.push_of_lt comparatorZero room
      obtain ⟨state', pushed⟩ :=
        Filter.push_of_lt (Comparator.received comp) room
      refine ⟨begun, by rw [taken]; rfl, ⟨state', pushed, done ++ [comp], ?_, ?_⟩,
        fun _ _ never => never.elim⟩
      · rw [parts]
        simp
      · rw [Filter.push_eq_some pushed, same]
        simp)
    ⟨[], rfl, rfl⟩
  have same : final = Filter.received filter := by
    apply filter_ext
    change final.compList = filter.compList.map Comparator.received
    rw [all, parts, List.append_nil]
  rw [same] at decodes
  exact @fills_pbDecodeInner _ filterFields _ _ filterZero false _ _ rfl decodes

end Filters

section Queries

/-- The first filters of the others, the last of them perhaps without its last
comparators. -/
def FiltersBegin (part whole : List Filter) : Prop :=
  part <+: whole ∨ ∃ front begun filter, part = front ++ [begun] ∧
    front ++ [filter] <+: whole ∧ Filter.Begins begun filter

/-- The query has the command of the other and the first of its filters; settings
only behind all filters, and then the first of them. -/
structure Query.Begins (part whole : Query) : Prop where
  command : part.command = whole.command
  lists : FiltersBegin part.filtersList whole.filtersList ∧
      part.settingsList = [] ∨
    part.filtersList = whole.filtersList ∧
      part.settingsList <+: whole.settingsList

theorem query_ext {first second : Query} (command : first.command = second.command)
    (filters : first.filtersList = second.filtersList)
    (settings : first.settingsList = second.settingsList) : first = second := by
  cases first
  cases second
  congr

theorem Query.pushFilter_eq_some {query other : Query} {filter : Filter}
    (pushed : Query.pushFilter query filter = some other) :
    other.command = query.command ∧
      other.filtersList = query.filtersList ++ [filter] ∧
      other.settingsList = query.settingsList := by
  unfold Query.pushFilter at pushed
  split_ifs at pushed
  cases pushed
  exact ⟨rfl, rfl, rfl⟩

theorem Query.pushFilter_of_lt {query : Query} (filter : Filter)
    (room : query.filtersList.length < 20) :
    ∃ other, Query.pushFilter query filter = some other := by
  unfold Query.pushFilter
  rw [dif_pos room]
  exact ⟨_, rfl⟩

theorem Query.pushSetting_eq_some {query other : Query} {kv : KeyValuePair}
    (pushed : Query.pushSetting query kv = some other) :
    other.command = query.command ∧
      other.filtersList = query.filtersList ∧
      other.settingsList = query.settingsList ++ [kv] := by
  unfold Query.pushSetting at pushed
  split_ifs at pushed
  cases pushed
  exact ⟨rfl, rfl, rfl⟩

theorem Query.pushSetting_of_lt {query : Query} (kv : KeyValuePair)
    (room : query.settingsList.length < 20) :
    ∃ other, Query.pushSetting query kv = some other := by
  unfold Query.pushSetting
  rw [dif_pos room]
  exact ⟨_, rfl⟩

variable {query : Query}

/-- What is known while the filters come in. -/
def FiltersTo (query state : Query) (rest : List Filter) : Prop :=
  state.command = query.command ∧ state.settingsList = [] ∧
    ∃ done, query.filtersList = done ++ rest ∧
      state.filtersList = done.map Filter.received

/-- What is known while the settings come in. -/
def SettingsTo (query state : Query) (rest : List KeyValuePair) : Prop :=
  state.command = query.command ∧
    state.filtersList = query.filtersList.map Filter.received ∧
    ∃ done, query.settingsList = done ++ rest ∧
      state.settingsList = done.map KeyValuePair.received

theorem FiltersTo.begins {state : Query} {rest : List Filter}
    (known : FiltersTo query state rest) :
    Query.Begins state (Query.received query) := by
  obtain ⟨command, none_yet, done, parts, same⟩ := known
  refine ⟨command, Or.inl ⟨Or.inl ?_, none_yet⟩⟩
  change state.filtersList <+: query.filtersList.map Filter.received
  rw [same, parts, List.map_append]
  exact List.prefix_append _ _

theorem SettingsTo.begins {state : Query} {rest : List KeyValuePair}
    (known : SettingsTo query state rest) :
    Query.Begins state (Query.received query) := by
  obtain ⟨command, all, done, parts, same⟩ := known
  refine ⟨command, Or.inr ⟨all, ?_⟩⟩
  change state.settingsList <+: query.settingsList.map KeyValuePair.received
  rw [same, parts, List.map_append]
  exact List.prefix_append _ _

/-- What the loop has where the connection ends: without the command there will
be no query, and with it one that begins the query. -/
def QueryCuts (query : Query) (state : Query × Nat) : Prop :=
  state.2 = 1 → Query.Begins state.1 (Query.received query)

theorem decodes_filters {message : Query} (sendable : Query.Sendable query)
    (holds : FiltersTo query message query.filtersList) :
    ∃ message', FiltersTo query message' [] ∧
      Decodes queryFields (QueryCuts query) (message, 1)
        (query.filtersList.map fun filter =>
          framedBytes 2 (filterBytes filter)) (message', 1) := by
  apply @decodes_repeated _ _ _ queryFields filterFields (QueryCuts query) 2
    filterZero Query.filtersList Query.clearFilters Query.pushFilter 1 1
    filterBytes Filter.received
    (fun filter part => Filter.Begins part (Filter.received filter))
    (FiltersTo query) message query.filtersList rfl (by decide) (by decide)
    _ _ holds
  · intro filter member
    exact ⟨fills_filter (sendable.1 filter member),
      lt_of_le_of_lt (length_filterBytes (sendable.1 filter member))
        (by norm_num)⟩
  rintro state filter rest known
  have begun := known.begins
  obtain ⟨command, none_yet, done, parts, same⟩ := known
  have room : state.filtersList.length < 20 := by
    have few := query.filtersList_le
    rw [parts, List.length_append, List.length_cons] at few
    rw [same, List.length_map]
    omega
  obtain ⟨other, taken⟩ := Query.pushFilter_of_lt filterZero room
  obtain ⟨state', pushed⟩ :=
    Query.pushFilter_of_lt (Filter.received filter) room
  refine ⟨fun _ => begun, by rw [taken]; rfl, ⟨state', pushed, ?_⟩, ?_⟩
  · obtain ⟨command', filters', settings'⟩ := Query.pushFilter_eq_some pushed
    refine ⟨command'.trans command, settings'.trans none_yet, done ++ [filter],
      by rw [parts]; simp, ?_⟩
    rw [filters', same]
    simp
  · intro part next begins pushed' _
    obtain ⟨command', filters', settings'⟩ := Query.pushFilter_eq_some pushed'
    refine ⟨command'.trans command, Or.inl ⟨Or.inr ⟨done.map Filter.received,
      part, Filter.received filter, by rw [filters', same], ?_, begins⟩,
      settings'.trans none_yet⟩⟩
    change done.map Filter.received ++ [Filter.received filter] <+:
      query.filtersList.map Filter.received
    rw [parts, List.map_append, List.map_cons]
    exact ⟨rest.map Filter.received, by simp⟩

theorem decodes_settings {message : Query} (sendable : Query.Sendable query)
    (holds : SettingsTo query message query.settingsList) :
    ∃ message', SettingsTo query message' [] ∧
      Decodes queryFields (QueryCuts query) (message, 1)
        (query.settingsList.map fun kv =>
          framedBytes 3 (valueSettingBytes kv)) (message', 1) := by
  apply @decodes_repeated _ _ _ queryFields valueSettingFields (QueryCuts query)
    3 keyValuePairZero Query.settingsList Query.clearSettings Query.pushSetting
    1 1 valueSettingBytes KeyValuePair.received (fun _ => Never)
    (SettingsTo query) message query.settingsList rfl (by decide) (by decide)
    _ _ holds
  · intro kv member
    exact ⟨fills_valueSetting (sendable.2 kv member),
      lt_of_le_of_lt (length_valueSettingBytes (sendable.2 kv member))
        (by norm_num)⟩
  rintro state kv rest known
  have begun := known.begins
  obtain ⟨command, all, done, parts, same⟩ := known
  have room : state.settingsList.length < 20 := by
    have few := query.settingsList_le
    rw [parts, List.length_append, List.length_cons] at few
    rw [same, List.length_map]
    omega
  obtain ⟨other, taken⟩ := Query.pushSetting_of_lt keyValuePairZero room
  obtain ⟨state', pushed⟩ :=
    Query.pushSetting_of_lt (KeyValuePair.received kv) room
  refine ⟨fun _ => begun, by rw [taken]; rfl, ⟨state', pushed, ?_⟩,
    fun _ _ never => never.elim⟩
  obtain ⟨command', filters', settings'⟩ := Query.pushSetting_eq_some pushed
  refine ⟨command'.trans command, filters'.trans all, done ++ [kv],
    by rw [parts]; simp, ?_⟩
  rw [settings', same]
  simp

theorem decodes_query (sendable : Query.Sendable query) :
    Decodes queryFields (QueryCuts query) (queryZero, 0) (querySegments query)
      (Query.received query, 1) := by
  have commanded : FiltersTo query { queryZero with command := query.command }
      query.filtersList :=
    ⟨rfl, rfl, [], rfl, rfl⟩
  obtain ⟨filtered, there, filters⟩ := decodes_filters sendable commanded
  obtain ⟨command, none_yet, done, parts, same⟩ := there
  rw [List.append_nil] at parts
  have begun : SettingsTo query filtered query.settingsList :=
    ⟨command, by rw [same, parts], [], rfl, none_yet⟩
  obtain ⟨final, ⟨command', all, done', parts', same'⟩, settings⟩ :=
    decodes_settings sendable begun
  have whole : final = Query.received query := by
    apply @query_ext final (Query.received query) command' all
    change final.settingsList = query.settingsList.map KeyValuePair.received
    rw [same', parts', List.append_nil]
  rw [whole] at settings
  apply Decodes.required 1 (by rintro ⟨⟩) rfl rfl (by decide) (by decide)
    (by decide) rfl (reads_int32Field query.command) fun _ => False.elim
  exact filters.append settings

/-- A query is read from its bytes, and what is read of a part of them begins
the query. -/
theorem fills_query (sendable : Query.Sendable query) (before : Query) :
    Fills (pbDecodeInner queryFields false before) (queryBytes query)
      (Query.received query)
      fun part => Query.Begins part (Query.received query) := by
  have fills := @fills_pbDecodeInner _ queryFields (QueryCuts query) _ before
    false _ _ rfl (decodes_query sendable)
  exact fills.mono fun part known => known rfl

end Queries

section Responses

variable {response : Response}

theorem fills_response (sendable : Terminated rStringSize response.rString)
    (before : Response) :
    Fills (pbDecodeInner responseFields false before) (responseBytes response)
      (Response.received response) Never := by
  have decodes : Decodes responseFields (fun state => state.2 ≠ 3)
      (Response.empty, 0)
      [framedBytes 1 (textOf response.rString),
        int32Bytes 2 (.ofInt response.last)]
      (Response.received response, 3) := by
    apply Decodes.required 1 (by simp) rfl rfl (by decide) (by decide)
      (by decide) rfl (reads_stringField sendable.1 (by norm_num))
      fun _ => False.elim
    apply Decodes.required 3 (by simp) rfl rfl (by decide) (by decide)
      (by decide) rfl (reads_int32Field (.ofInt response.last))
      fun _ => False.elim
    exact Decodes.nil _
  have fills := @fills_pbDecodeInner _ responseFields _ _ before false _ _ rfl
    decodes
  exact fills.mono fun _ incomplete => incomplete rfl

end Responses

end Wire

end TreeStore
