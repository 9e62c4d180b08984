import TreeStore.Healthy

/-!
# What additions store and keep

In a run of additions that fit, each new node reads back, and the nodes that
are there already keep their values as long as growth loses none of them.
-/

namespace TreeStore

open ByteFile ProgramLogic LinkedRecords

section Texts

variable {realSize : Nat} {text : List UInt8} {payloads : List (List UInt8)}

theorem recordCount_eq_zero {length : Nat}
    (empty : recordCount length realSize = 0) : length = 0 := by
  by_contra positive
  have := @recordCount_pos length realSize (Nat.pos_of_ne_zero positive)
  omega

theorem recordCount_sub {length : Nat} (large : realSize < length)
    (positive : 0 < realSize) : recordCount length realSize =
      recordCount (length - realSize) realSize + 1 := by
  obtain ⟨rest, rfl⟩ := Nat.exists_eq_add_of_le large.le
  rw [Nat.add_sub_cancel_left]
  simp only [recordCount, Nat.add_mod_left, Nat.add_div_left _ positive]
  omega

theorem recordCount_one {length : Nat} (small : length ≤ realSize)
    (positive : 0 < length) : recordCount length realSize = 1 := by
  rcases Nat.lt_or_eq_of_le small with less | rfl
  · simp only [recordCount, Nat.div_eq_of_lt less, Nat.mod_eq_of_lt less]
    rw [if_pos (by omega)]
  · simp [recordCount, Nat.div_self positive]

/-- All but the first record of a text hold the rest of it. -/
theorem Spells.tail {payload : List UInt8}
    (spells : Spells realSize text (payload :: payloads))
    (large : realSize < text.length) (positive : 0 < realSize) :
    Spells realSize (text.drop realSize) payloads := by
  refine ⟨?_, fun other member => spells.sized other (by simp [member]), ?_⟩
  · have count := spells.count
    rw [recordCount_sub large positive, List.length_cons] at count
    rw [List.length_drop]
    omega
  · intro index other found
    have := spells.characters (index + 1) other (by simpa using found)
    rw [this, List.drop_drop, Nat.mul_succ, Nat.add_comm]

/-- The records of a text deliver the text and fill up the last record with
zeros. -/
theorem Spells.assembled (spells : Spells realSize text payloads)
    (plain : 0 ∉ text) (positive : 0 < realSize) :
    payloads.flatMap (strncpy · realSize) = text ++
      List.replicate (realSize * payloads.length - text.length) 0 := by
  induction payloads generalizing text with
  | nil =>
      have none : text = [] :=
        List.length_eq_zero_iff.mp (recordCount_eq_zero spells.count.symm)
      simp [none]
  | cons payload payloads ih =>
      have head : strncpy payload realSize = text.take realSize ++
          List.replicate (realSize - text.length) 0 := by
        rw [spells.characters 0 payload rfl, Nat.mul_zero, List.drop_zero,
          strncpy_eq, textOf_eq_self plain]
      rw [List.flatMap_cons, head]
      rcases Nat.lt_or_ge realSize text.length with large | small
      · have plainTail : 0 ∉ text.drop realSize := fun member =>
          plain (List.mem_of_mem_drop member)
        rw [ih (spells.tail large positive) plainTail,
          Nat.sub_eq_zero_of_le large.le, List.replicate_zero,
          List.append_nil, ← List.append_assoc, List.take_append_drop,
          List.length_drop, List.length_cons, Nat.mul_succ]
        congr 2
        omega
      · have nonempty : 0 < text.length := by
          by_contra empty
          have count := spells.count
          rw [Nat.eq_zero_of_not_pos empty] at count
          simp [recordCount] at count
        have last : payloads = [] := by
          have count := spells.count
          rw [recordCount_one small nonempty, List.length_cons] at count
          exact List.length_eq_zero_iff.mp (by omega)
        simp [last, List.take_of_length_le small]

theorem dvd_iff_filled {length : Nat} (positive : 0 < realSize) :
    realSize ∣ length ↔ length = realSize * recordCount length realSize := by
  constructor
  · rintro ⟨count, rfl⟩
    simp [recordCount, Nat.mul_div_cancel_left _ positive]
  · intro filled
    exact ⟨_, filled⟩

theorem recordCount_mono {length length' : Nat} (positive : 0 < realSize)
    (le : length ≤ length') :
    recordCount length realSize ≤ recordCount length' realSize := by
  apply le_of_forall_lt
  intro index inside
  rw [lt_recordCount_iff positive] at inside ⊢
  omega

theorem le_recordCount_mul {length : Nat} (positive : 0 < realSize) :
    length ≤ realSize * recordCount length realSize := by
  by_contra less
  exact absurd ((lt_recordCount_iff positive).mpr (Nat.lt_of_not_le less))
    (Nat.lt_irrefl _)

/-- A reader finds the text, unless it fills its records exactly. -/
theorem Spells.cString_eq {chain : List (Nat × List UInt8)}
    (spells : Spells realSize text (chain.map Prod.snd)) (plain : 0 ∉ text)
    (positive : 0 < realSize) :
    cString (assemble realSize chain) = some text ↔
      ¬ realSize ∣ text.length := by
  have assembled : assemble realSize chain = text ++
      List.replicate (realSize * chain.length - text.length) 0 := by
    have := spells.assembled plain positive
    rwa [List.flatMap_map, List.length_map] at this
  have count := spells.count
  rw [List.length_map] at count
  rw [assembled]
  rw [dvd_iff_filled positive, ← count]
  have enough := @le_recordCount_mul realSize text.length positive
  rw [← count] at enough
  cases room : realSize * chain.length - text.length with
  | zero =>
      have filled : text.length = realSize * chain.length := by omega
      simp [cString, plain, filled]
  | succ more =>
      have loose : text.length ≠ realSize * chain.length := by omega
      simp only [loose, not_false_eq_true, iff_true]
      rw [cString, List.replicate_succ, if_pos (by simp),
        textOf_append_zero plain]

end Texts

/-- Values that a caller may pass: one for each attribute, and a terminated
string for each STRING attribute. -/
structure ProperValues (schema : TreeSchema) (values : List Slot) : Prop where
  complete : schema.types.length ≤ values.length
  terminated : ∀ (position : Nat) (value : Slot),
    schema.types[position]? = some STRING → values[position]? = some value →
      0 ∈ value.deref

/-- A run may only add. -/
def AddsProper : Op → List UInt8 → Prop
  | .add values _, file =>
      ∃ schema, SchemaAt file schema ∧ ProperValues schema values
  | .update .., _ => False
  | .remove .., _ => False

/-- Id `id` is live, and its tuple lies at `offset`. -/
structure LiveAt (schema : TreeSchema) (id offset : Nat) : Prop where
  counted : id < schema.treeMeta.curId
  entry : schema.root[id]? = some offset
  nonzero : offset ≠ 0

instance (schema : TreeSchema) (id offset : Nat) :
    Decidable (LiveAt schema id offset) :=
  decidable_of_iff (id < schema.treeMeta.curId ∧
      schema.root[id]? = some offset ∧ offset ≠ 0)
    ⟨fun ⟨counted, entry, nonzero⟩ => ⟨counted, entry, nonzero⟩,
    fun ⟨counted, entry, nonzero⟩ => ⟨counted, entry, nonzero⟩⟩

/-- `getNode` delivers `fields`, whatever the memory holds and wherever the
stream stands. -/
def Delivers (file : List UInt8) (id : Nat) (fields : List FieldValue) : Prop :=
  ∀ world fuel, world.file = file → file.length ≤ fuel →
    wp (getNode fuel id) (fun result final =>
      result = some fields ∧ final.file = file) world

/-- A delivered field is the value that was given for it. -/
def FieldValue.Is (type : Nat) (value : Slot) : FieldValue → Prop
  | .word number => type ≠ STRING ∧ number = value.word.toNat
  | .text block => type = STRING ∧
      cString block = some (textOf value.deref)

/-- A live id, the parent in its record, and the fields it delivers. -/
def Shows (file : List UInt8) (id parent : Nat) (fields : List FieldValue) :
    Prop :=
  ∃ schema offset, SchemaAt file schema ∧ LiveAt schema id offset ∧
    At file offset (NodeHeader.mk parent id).bytes ∧ Delivers file id fields

/-- A live id with this parent, whose node reads back as `values`. -/
def ReadsBack (file : List UInt8) (id : Nat) (parent : UInt64)
    (values : List Slot) : Prop :=
  ∃ schema fields, SchemaAt file schema ∧ Shows file id parent.toNat fields ∧
    fields.length = schema.types.length ∧
    ∀ (position type : Nat) (value : Slot) (field : FieldValue),
      schema.types[position]? = some type → values[position]? = some value →
        fields[position]? = some field → field.Is type value

/-- No string of `values` fills its records exactly. -/
def LooseStrings (schema : TreeSchema) (values : List Slot) : Prop :=
  ∀ (position : Nat) (value : Slot), schema.types[position]? = some STRING →
    values[position]? = some value →
      ¬ schema.realSize ∣ (textOf value.deref).length

section Healthy

variable {img : Image} {nodes : List NodeImage} {file : List UInt8}
  {node : NodeImage} {id : Nat}

theorem StoreAt.liveAt (store : StoreAt img nodes file)
    (found : nodes[id]? = some node) :
    LiveAt img.schema id (img.slotOffset node.slot) where
  counted := by
    have inside := (List.getElem?_eq_some_iff.mp found).1
    rw [store.count] at inside
    exact inside
  entry := store.root id node found
  nonzero := Nat.ne_of_gt img.slotOffset_pos

theorem StoreAt.node_of_live {offset : Nat} (store : StoreAt img nodes file)
    (live : LiveAt img.schema id offset) :
    ∃ node, nodes[id]? = some node ∧ offset = img.slotOffset node.slot := by
  obtain ⟨node, found⟩ := store.exists_node live.counted
  refine ⟨node, found, ?_⟩
  have entry := live.entry
  rw [store.root id node found] at entry
  exact (Option.some.inj entry).symm

theorem LiveNode.delivers (live : LiveNode img id node file) :
    Delivers file id (node.values img.realSize) := by
  rintro world fuel rfl enough
  exact live.wp_getNode (live.holds.top_le_length.trans enough)
    fun _ _ => ⟨rfl, rfl⟩

theorem LiveNode.header (live : LiveNode img id node file) :
    At file (img.slotOffset node.slot)
      (NodeHeader.mk node.parent id).bytes := by
  obtain ⟨record, known, tupleAt⟩ := live.nodeAt.tuple
  rw [← tupleAt.header]
  exact (at_append.mp (live.holds.record _ _ known).2.2.2).1

theorem StoreAt.delivers (store : StoreAt img nodes file)
    (found : nodes[id]? = some node) :
    Delivers file id (node.values img.realSize) :=
  (store.liveNode found).delivers

theorem StoreAt.shows (store : StoreAt img nodes file)
    (found : nodes[id]? = some node) :
    Shows file id node.parent (node.values img.realSize) :=
  ⟨_, _, store.schemaAt, store.liveAt found, (store.liveNode found).header,
    store.delivers found⟩

/-- What `getNode` delivers is determined. -/
theorem Delivers.unique {fields fields' : List FieldValue}
    (first : Delivers file id fields) (second : Delivers file id fields') :
    fields = fields' := by
  have start := first ⟨file, 0, fun _ _ => 0, 0⟩ file.length rfl le_rfl
  have other := second ⟨file, 0, fun _ _ => 0, 0⟩ file.length rfl le_rfl
  obtain ⟨_, _, -, ⟨same, -⟩, same', -⟩ := wp_and start other
  exact Option.some.inj (same.symm.trans same')

theorem Delivers.outcome {fields : List FieldValue}
    (delivers : Delivers file id fields) :
    outcome (getNode file.length id) file = .ok (some fields, file) := by
  obtain ⟨_, _, runs, rfl, rfl⟩ := @outcome_of_wp _
    (getNode file.length id) file
    (fun result file' => result = some fields ∧ file' = file)
    (delivers (blankWorld file) _ rfl le_rfl)
  exact runs

/-- A stored field is the value it stores, if that does not fill its records
exactly. -/
theorem FieldImage.Stores.is_iff {realSize type : Nat} {value : Slot}
    {field : FieldImage} (stores : field.Stores realSize value)
    (typed : type = STRING ↔ ∃ chain, field = .str chain)
    (positive : 0 < realSize) :
    (field.value realSize).Is type value ↔
      (type = STRING → ¬ realSize ∣ (textOf value.deref).length) := by
  cases field with
  | num word =>
      have number : type ≠ STRING := fun string => by
        obtain ⟨chain, ⟨⟩⟩ := typed.mp string
      simp only [FieldImage.value, FieldValue.Is, number, ne_eq,
        not_false_eq_true, true_and, false_imp_iff, iff_true]
      exact stores
  | str chain =>
      have string : type = STRING := typed.mpr ⟨chain, rfl⟩
      have spells : Spells realSize (textOf value.deref)
          (chain.map Prod.snd) := stores
      simp only [FieldImage.value, FieldValue.Is, string, true_and,
        forall_const]
      exact spells.cString_eq (zero_notMem_textOf _) positive

/-- The new node of an addition gets the next id. -/
theorem addedNodes_new {target : Nat} (count : nodes.length = img.curId) :
    (addedNodes img target nodes node)[img.curId]? = some node := by
  rw [addedNodes, List.getElem?_append_right]
  · split_ifs <;> simp [count]
  · split_ifs <;> simp [count]

/-- The old nodes of an addition keep their ids. -/
theorem addedNodes_old {target : Nat} (found : nodes[id]? = some node)
    {added : NodeImage} :
    (addedNodes img target nodes added)[id]? = some
      (if idUnit img.templateSize ∣ img.curId + 1 then
        node.relocate img.realSize img.reserved target else node) := by
  have inside := (List.getElem?_eq_some_iff.mp found).1
  rw [addedNodes]
  split_ifs
  · rw [List.getElem?_append_left (by simpa using inside), List.getElem?_map,
      found]
    rfl
  · rw [List.getElem?_append_left inside, found]

/-- The new node reads back, if no string fills its records exactly. -/
theorem Added.readsBack_iff {values : List Slot} {parent : UInt64}
    (store : StoreAt img nodes file) {file' : List UInt8}
    (added : Added img nodes values parent file') :
    ReadsBack file' img.curId parent values ↔
      LooseStrings img.schema values := by
  obtain ⟨node, target, root, top, recs, parentEq, stores, store'⟩ := added
  have found : (addedNodes img target nodes node)[img.curId]? = some node :=
    addedNodes_new store.count
  have nodeAt := store'.layout.nodeAt _ _ found
  have fieldsLength : node.fields.length = img.types.length :=
    nodeAt.fieldsAt.count
  have fieldIs (position type : Nat) (value : Slot) (field : FieldImage)
      (typed : img.types[position]? = some type)
      (given : values[position]? = some value)
      (here : node.fields[position]? = some field) :
      (field.value img.realSize).Is type value ↔
        (type = STRING → ¬ img.realSize ∣ (textOf value.deref).length) := by
    refine (stores position field value here given).is_iff ?_ img.realSize_pos
    have kind : img.types[position]? = some STRING ↔
        ∃ chain, field = .str chain := nodeAt.fieldsAt.typed _ _ here
    rw [typed] at kind
    exact (Option.some_inj.symm).trans kind
  constructor
  · rintro ⟨schema, fields, stored, ⟨_, _, -, -, -, delivers⟩, -, readsBack⟩
      position value string given
    obtain rfl := store'.schema_eq stored
    obtain rfl := delivers.unique (store'.delivers found)
    obtain ⟨inside, -⟩ := List.getElem?_eq_some_iff.mp string
    have here := List.getElem?_eq_getElem (fieldsLength ▸ inside)
    refine (fieldIs position STRING value _ string given here).mp ?_ rfl
    refine readsBack position STRING value _ string given ?_
    rw [NodeImage.values, List.getElem?_map, here]
    rfl
  · intro loose
    refine ⟨_, node.values img.realSize, store'.schemaAt, ?_, ?_, ?_⟩
    · rw [← parentEq]
      exact store'.shows found
    · rw [NodeImage.values, List.length_map]
      exact fieldsLength
    · intro position type value field typed given here
      rw [NodeImage.values, List.getElem?_map] at here
      obtain ⟨fieldImage, fieldFound, rfl⟩ := Option.map_eq_some_iff.mp here
      refine (fieldIs position type value fieldImage typed given
        fieldFound).mpr ?_
      rintro rfl
      exact loose position value typed given

end Healthy

/-- In a run of additions that fit, a new node reads back if and only if no
string of it fills its records exactly. -/
theorem addNode_readsBack {specs : List AttributeSpec} {world : World}
    {schema : TreeSchema} {values : List Slot} {parent : UInt64}
    (reached : Reached specs AddsFit world.file)
    (stored : SchemaAt world.file schema)
    (fits : AddFits world.file schema values) :
    wp (addNode values parent) (fun status final => status = .success ∧
      (ReadsBack final.file schema.treeMeta.curId parent values ↔
        LooseStrings schema values)) world := by
  obtain ⟨img, nodes, store, -⟩ := healthy_of_adds reached
  obtain rfl := store.schema_eq stored
  refine wp_mono (store.add fits) fun status final ⟨success, added⟩ => ?_
  exact ⟨success, added.readsBack_iff store⟩

/-- A number fits an empty store with one number. -/
theorem addFits_seven :
    AddFits (singleSchema INT).bytes (singleSchema INT) [⟨7, []⟩] := by
  have numbers (position : Nat) :
      (singleSchema INT).types[position]? ≠ some STRING := by
    cases position <;> simp [singleSchema, emptySchema]
  refine ⟨⟨by decide, ?_, ?_⟩, ?_, ?_⟩
  · exact fun position value string _ => absurd string (numbers position)
  · exact fun position string _ => absurd string (numbers position)
  · exact fun grows => absurd grows (by decide)
  · rw [singleSchema_length]
    decide

/-- A store with one node of one number. -/
def oneSeven : List UInt8 :=
  Op.fileAfter (.add [⟨7, []⟩] 7) (singleSchema INT).bytes

/-- A text fits a store with one string that the addition does not make grow, if
it takes one record or is the first one. -/
theorem addFits_text {file : List UInt8} {schema : TreeSchema} {text : CharPtr}
    (types : schema.types = [STRING]) (terminated : 0 ∈ text)
    (nonempty : textOf text ≠ [])
    (first : fieldRecords [STRING] schema.realSize [⟨0, text⟩] 0 ≤ 1 ∨
      schema.arrayEnd = file.length)
    (stays : ¬ idUnit schema.treeMeta.templateSize ∣ schema.treeMeta.curId + 1)
    (room : file.length + schema.recordSize *
      (addRecords [STRING] schema.realSize [⟨0, text⟩] + 1) < 2 ^ 63) :
    AddFits file schema [⟨0, text⟩] := by
  refine ⟨⟨by simp [types], ?_, ?_⟩, fun grows => absurd grows stays, ?_⟩
  · intro position value _ given
    obtain rfl := List.mem_singleton.mp (List.mem_of_getElem? given)
    exact ⟨terminated, nonempty⟩
  · intro position string _
    rw [types] at string ⊢
    obtain ⟨inside, -⟩ := List.getElem?_eq_some_iff.mp string
    obtain rfl : position = 0 := Nat.lt_one_iff.mp inside
    exact first
  · rw [types]
    exact room

/-- One letter fits an empty store with one string. -/
theorem addFits_letter :
    AddFits (singleSchema STRING).bytes (singleSchema STRING)
      [⟨0, [65, 0]⟩] :=
  addFits_text rfl (by decide) (by decide) (Or.inr rfl) (by decide)
    (by decide +kernel)

/-- A store with one node of one letter. -/
def oneText : List UInt8 :=
  Op.fileAfter (.add [⟨0, [65, 0]⟩] 0) (singleSchema STRING).bytes

/-- Two letters, behind a node of one letter. -/
theorem addNode_readsBack_text :
    wp (addNode [⟨0, [66, 67, 0]⟩] 5) (fun status final => status = .success ∧
      (ReadsBack final.file 1 5 [⟨0, [66, 67, 0]⟩] ↔
        LooseStrings (schemaOf oneText) [⟨0, [66, 67, 0]⟩]))
      (blankWorld oneText) := by
  have evaluated : SchemaAt oneText (schemaOf oneText) ∧
      (schemaOf oneText).types = [STRING] ∧
      (schemaOf oneText).treeMeta.templateSize = 1 ∧
      (schemaOf oneText).treeMeta.curId = 1 ∧ oneText.length = 876 := by
    decide +kernel
  obtain ⟨stored, types, size, counter, length⟩ := evaluated
  have left : oneText ≠ [] := List.ne_nil_of_length_pos (by omega)
  have reached : Reached [singleSpec STRING string_lt] AddsFit oneText :=
    .next (.add [⟨0, [65, 0]⟩] 0) (reached_single AddsFit createdFile_string)
      ⟨_, schemaAt_single (by norm_num), addFits_letter⟩
      (Op.returns_fileAfter left)
  -- the file has to be a variable here, lest it be evaluated
  generalize oneText = file at stored types size counter length reached ⊢
  have fits : AddFits file (schemaOf file) [⟨0, [66, 67, 0]⟩] := by
    apply addFits_text types (by decide) (by decide)
    · rw [TreeSchema.realSize, size]
      exact Or.inl (by decide)
    · rw [size, counter]
      decide
    · rw [TreeSchema.recordSize, TreeSchema.realSize, size, length]
      decide
  have added := @addNode_readsBack _ (blankWorld file) _ _ 5 reached stored fits
  rw [counter] at added
  exact added

/-- The file that an empty string as the first node leaves. -/
def oneEmpty : List UInt8 :=
  Op.fileAfter (.add [⟨0, [0]⟩] 0) (singleSchema STRING).bytes

theorem oneEmpty_eq {status : CrudStatus} {file : List UInt8}
    (added : outcome (addNode [⟨0, [0]⟩] 0) (singleSchema STRING).bytes =
      .ok (status, file)) : oneEmpty = file := by
  rw [oneEmpty, Op.fileAfter, Op.exec, added]

/-- The text that is read as the only field of the first node. -/
def firstText (file : List UInt8) : Option CharPtr :=
  match outcome (getNode file.length 0) file with
  | .ok (some [.text block], _) => cString block
  | _ => none

theorem exists_firstText {file file' : List UInt8} {fields : List FieldValue}
    {text : CharPtr} (shown : firstText file = some text)
    (read : outcome (getNode file.length 0) file = .ok (some fields, file')) :
    ∃ block, fields = [.text block] ∧ cString block = some text := by
  rw [firstText, read] at shown
  split at shown
  · next block _ same =>
      cases same
      exact ⟨block, rfl, shown⟩
  · cases shown

/-- An empty string does not read back: its field holds the offset of its own
tuple. -/
theorem addNode_not_readsBack :
    ¬ ∀ (specs : List AttributeSpec) (file : List UInt8),
      Reached specs AddsProper file → ∀ (world : World) (schema : TreeSchema)
        (values : List Slot) (parent : UInt64), world.file = file →
          SchemaAt file schema → ProperValues schema values →
            wp (addNode values parent) (fun _ final =>
              ReadsBack final.file schema.treeMeta.curId parent values)
              world := by
  intro always
  have reached := reached_single AddsProper createdFile_string
  have proper : ProperValues (singleSchema STRING) [⟨0, [0]⟩] := by
    refine ⟨by decide, fun position value _ given => ?_⟩
    obtain rfl := List.mem_singleton.mp (List.mem_of_getElem? given)
    simp
  obtain ⟨status, file, added, schema, fields, -, ⟨_, _, -, -, -, delivers⟩,
    count, isValue⟩ := @outcome_of_wp _ (addNode [⟨0, [0]⟩] 0)
      (singleSchema STRING).bytes (fun _ file => ReadsBack file 0 0 [⟨0, [0]⟩])
      (always _ _ reached (blankWorld _) _ _ 0 rfl
        (schemaAt_single (by norm_num)) proper)
  have read := delivers.outcome
  have evaluated : firstText oneEmpty = some [76, 1] := by decide +kernel
  rw [oneEmpty_eq added] at evaluated
  obtain ⟨block, rfl, offset⟩ := exists_firstText evaluated read
  obtain ⟨type, typed⟩ : ∃ type, schema.types[0]? = some type :=
    ⟨_, List.getElem?_eq_getElem (count ▸ Nat.one_pos)⟩
  obtain ⟨-, kept⟩ := isValue 0 type ⟨0, [0]⟩ (.text block) typed rfl rfl
  rw [offset] at kept
  exact absurd kept (by decide)

end TreeStore
