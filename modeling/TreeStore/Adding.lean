import TreeStore.IdArray

/-!
# Adding a node

`addFields` appends the strings of a new node and collects its words; the
records it appends lie in consecutive slots behind the old ones.  `addNode`
then appends the tuple and registers it, and the store is healthy again.
-/

namespace TreeStore

open ByteFile ProgramLogic LinkedRecords

/-- A field that holds a value: its word, or the characters it points to. -/
def FieldImage.Stores (realSize : Nat) (value : Slot) : FieldImage → Prop
  | .num word => word = value.word.toNat
  | .str chain =>
      Spells realSize (textOf value.deref) (chain.map Prod.snd)

/-- The number of records that field `position` of a new node takes. -/
def fieldRecords (types : List Nat) (realSize : Nat) (values : List Slot)
    (position : Nat) : Nat :=
  if types[position]? = some STRING then
    recordCount (textOf ((values[position]?.map Slot.deref).getD [])).length
      realSize
  else 0

/-- The number of records that a new node takes. -/
def addRecords (types : List Nat) (realSize : Nat) (values : List Slot) : Nat :=
  ((List.range types.length).map
    (fieldRecords types realSize values)).sum + 1

/-- The values that `addNode` can store, when the stream stands at `pos` in a
file of `length` bytes: there is one for each field, each string is terminated
and not empty, and the first string takes one record unless the stream stands
at the end of the file. -/
structure Storable (types : List Nat) (realSize pos length : Nat)
    (values : List Slot) : Prop where
  complete : types.length ≤ values.length
  terminated : ∀ (position : Nat) (value : Slot),
    types[position]? = some STRING → values[position]? = some value →
      0 ∈ value.deref ∧ textOf value.deref ≠ []
  first : ∀ position, types[position]? = some STRING →
    (∀ earlier < position, types[earlier]? ≠ some STRING) →
      fieldRecords types realSize values position ≤ 1 ∨ pos = length

theorem sum_range_le (sizes : Nat → Nat) {count bound : Nat}
    (le : count ≤ bound) :
    ((List.range count).map sizes).sum ≤ ((List.range bound).map sizes).sum := by
  induction le with
  | refl => exact le_rfl
  | step _ ih =>
      rw [List.range_succ, List.map_append, List.sum_append]
      exact Nat.le_add_right_of_le ih

theorem recordCount_pos {length realSize : Nat} (positive : 0 < length) :
    0 < recordCount length realSize := by
  simp only [recordCount]
  by_cases remainder : length % realSize = 0
  · rw [if_neg (by omega), Nat.add_zero]
    have := Nat.div_add_mod length realSize
    by_contra none
    rw [Nat.eq_zero_of_not_pos none] at this
    omega
  · rw [if_pos remainder]
    exact Nat.succ_pos _

namespace Image

variable {img : Image} {world : World}

/-- The state of the field loop after `index` fields. -/
structure FieldsDone (img : Image) (values : List Slot) (start : World)
    (header : NodeHeader) (index : Nat) (newNode : KeyNode)
    (middle : World) (nodes : List KeyNode) (fields : List FieldImage) :
    Prop where
  holds : (img.append nodes).Holds middle.file
  fieldsAt : FieldsAt img.slotOffset (img.append nodes).recs
    (img.types.take index) 0 fields
  slots : fields.flatMap FieldImage.slots = List.range' img.top nodes.length
  words : ∀ (position : Nat) (field : FieldImage),
    fields[position]? = some field →
      newNode.word position = field.word img.slotOffset
  stores : ∀ (position : Nat) (field : FieldImage) (value : Slot),
    fields[position]? = some field → values[position]? = some value →
      field.Stores img.realSize value
  header_eq : newNode.header = header
  data_length : newNode.data.length = img.realSize
  records : nodes.length = ((List.range index).map
    (fieldRecords img.types img.realSize values)).sum
  stands : middle.pos = middle.file.length ∨
    nodes = [] ∧ middle.pos = start.pos ∧ middle.file = start.file ∧
      ∀ position < index, img.types[position]? ≠ some STRING
  heap : middle.heap = start.heap

theorem FieldsDone.fields_length {values : List Slot} {start middle : World}
    {header : NodeHeader} {index : Nat} {newNode : KeyNode}
    {nodes : List KeyNode} {fields : List FieldImage}
    (done : FieldsDone img values start header index newNode middle nodes
      fields) (small : index < img.types.length) : fields.length = index := by
  rw [done.fieldsAt.count, List.length_take]
  omega

section Tuple

variable {values : List Slot} {start middle : World} {header : NodeHeader}
  {index slot : Nat} {newNode last : KeyNode} {records : List KeyNode}
  {fields : List FieldImage}

/-- The slots of the fields lie below that of the tuple. -/
theorem FieldsDone.slot_bounds
    (done : FieldsDone img values start header index newNode middle records
      fields) (member : slot ∈ fields.flatMap FieldImage.slots) :
    img.top ≤ slot ∧ slot < img.top + records.length := by
  rw [done.slots] at member
  exact List.mem_range'_1.mp member

theorem FieldsDone.nodup
    (done : FieldsDone img values start header index newNode middle records
      fields) : (fields.flatMap FieldImage.slots).Nodup := by
  rw [done.slots]
  exact List.nodup_range'

theorem append_recs_before (small : slot < img.top + records.length) :
    (img.append (records ++ [last])).recs slot =
      (img.append records).recs slot := by
  have step := append_recs_of_lt (img.append records) small [last]
  rw [append_append] at step
  exact step

theorem append_recs_last :
    (img.append (records ++ [last])).recs (img.top + records.length) =
      some last := by
  rw [append_recs_add, List.getElem?_append_right le_rfl, Nat.sub_self]
  rfl

/-- The tuple leaves the fields as they are. -/
theorem FieldsDone.fieldsAt_tuple
    (done : FieldsDone img values start header index newNode middle records
      fields) (whole : img.types.length ≤ index) :
    FieldsAt img.slotOffset (img.append (records ++ [last])).recs img.types 0
      fields := by
  have kept := done.fieldsAt.frame fun slot member =>
    @append_recs_before img slot last records (done.slot_bounds member).2
  rw [List.take_of_length_le whole] at kept
  exact kept

end Tuple

theorem getElem?_concat_cases {α : Type} {entries : List α} {entry found : α}
    {position : Nat} (here : (entries ++ [entry])[position]? = some found) :
    entries[position]? = some found ∨
      position = entries.length ∧ found = entry := by
  by_cases old : position < entries.length
  · rw [List.getElem?_append_left old] at here
    exact Or.inl here
  · rw [List.getElem?_append_right (by omega)] at here
    by_cases last : position - entries.length = 0
    · rw [last] at here
      exact Or.inr ⟨by omega, by simpa using here.symm⟩
    · rw [List.getElem?_eq_none (by simp; omega)] at here
      exact absurd here (by simp)

/-- One more field of the loop: its word is stored, and its records, if it is a
string, are appended. -/
theorem FieldsDone.extend {values : List Slot} {start middle : World}
    {header : NodeHeader} {index : Nat} {newNode : KeyNode}
    {nodes : List KeyNode} {fields : List FieldImage}
    (done : FieldsDone img values start header index newNode middle nodes
      fields) (small : index < img.types.length)
    {value : Slot} (found : values[index]? = some value)
    (final : World) (extra : List KeyNode) (field : FieldImage)
    (holds : (img.append (nodes ++ extra)).Holds final.file)
    (typed : img.types[index]? = some STRING ↔ ∃ chain, field = .str chain)
    (chained : ∀ chain, field = .str chain → chain ≠ [] ∧
      Chain stringRecord img.slotOffset (img.append (nodes ++ extra)).recs 0
        chain)
    (slots : field.slots =
      List.range' (img.top + nodes.length) extra.length)
    (stored : field.Stores img.realSize value)
    (fits : field.word img.slotOffset < 2 ^ 64)
    (records : extra.length =
      fieldRecords img.types img.realSize values index)
    (stands : final.pos = final.file.length ∨
      extra = [] ∧ final.pos = middle.pos ∧ final.file = middle.file ∧
        img.types[index]? ≠ some STRING)
    (heap : final.heap = middle.heap) :
    FieldsDone img values start header (index + 1)
      (newNode.setWord index (field.word img.slotOffset)) final
      (nodes ++ extra) (fields ++ [field]) := by
  have length := done.fields_length small
  have sized : img.types.length = img.templateSize := done.holds.types_length
  have inside (position : Nat) (before : position ≤ index) :
      8 * position + 8 ≤ newNode.data.length := by
    have := mul_le_getRealNodeSize img.templateSize
    have := done.data_length
    simp only [realSize] at this
    omega
  have old (slot : Nat) (member : slot ∈ fields.flatMap FieldImage.slots) :
      slot < img.top + nodes.length := by
    rw [done.slots, List.mem_range'_1] at member
    exact member.2
  have kept : FieldsAt img.slotOffset (img.append (nodes ++ extra)).recs
      (img.types.take index) 0 fields := by
    refine done.fieldsAt.frame fun slot member => ?_
    rw [← append_append, append_recs_of_lt _ (by exact old slot member)]
  refine ⟨holds, ⟨?_, ?_, ?_⟩, ?_, ?_, ?_, done.header_eq, ?_, ?_, ?_, ?_⟩
  · rw [List.length_append, length, List.length_take]
    simp only [List.length_singleton]
    omega
  · intro position field' here
    rcases getElem?_concat_cases here with earlier | ⟨rfl, rfl⟩
    · have before : position < index := by
        rw [← length]
        exact (List.getElem?_eq_some_iff.mp earlier).1
      have sameType : (img.types.take (index + 1))[position]? =
          (img.types.take index)[position]? := by
        rw [List.getElem?_take_of_lt before,
          List.getElem?_take_of_lt (by omega)]
      rw [sameType]
      exact kept.typed position field' earlier
    · rw [length, List.getElem?_take_of_lt (Nat.lt_succ_self _)]
      exact typed
  · intro chain member
    rcases List.mem_append.mp member with earlier | last
    · exact kept.chains chain earlier
    · exact chained chain (List.mem_singleton.mp last).symm
  · rw [List.flatMap_append, done.slots, List.length_append,
      ← List.range'_append_1, ← slots]
    simp
  · intro position field' here
    rcases getElem?_concat_cases here with earlier | ⟨rfl, rfl⟩
    · have before : position < index := by
        rw [← length]
        exact (List.getElem?_eq_some_iff.mp earlier).1
      rw [KeyNode.word_setWord_of_ne (by omega) (inside position before.le)]
      exact done.words position field' earlier
    · rw [length]
      exact KeyNode.word_setWord fits
  · intro position field' value' here found'
    rcases getElem?_concat_cases here with earlier | ⟨rfl, rfl⟩
    · exact done.stores position field' value' earlier found'
    · rw [length, found] at found'
      cases found'
      exact stored
  · rw [KeyNode.setWord_length (inside index le_rfl), done.data_length]
  · rw [List.length_append, done.records, records, List.range_succ,
      List.map_append, List.sum_append]
    simp
  · rcases stands with atEnd | ⟨none, posEq, fileEq, number⟩
    · exact Or.inl atEnd
    · rcases done.stands with atEnd | ⟨noNodes, posEq', fileEq', numbers⟩
      · exact Or.inl (by rw [posEq, fileEq, atEnd])
      · refine Or.inr ⟨by rw [noNodes, none]; rfl, posEq.trans posEq',
          fileEq.trans fileEq', fun position small => ?_⟩
        rcases Nat.lt_succ_iff_lt_or_eq.mp small with before | rfl
        · exact numbers position before
        · exact number
  · rw [heap, done.heap]

/-- The field loop of `addNode` stores every value. -/
theorem Holds.wp_addFields {values : List Slot} {newNode : KeyNode}
    (holds : img.Holds world.file)
    (storable : Storable img.types img.realSize world.pos world.file.length
      values) (before : world.pos ≤ world.file.length)
    (room : world.file.length + img.recordSize * ((List.range
      img.templateSize).map (fieldRecords img.types img.realSize values)).sum <
        2 ^ 63) (sized : newNode.data.length = img.realSize) :
    wp (addFields img.types img.templateSize values newNode)
      (fun result final => ∃ nodes fields, FieldsDone img values world
        newNode.header img.templateSize result final nodes fields) world := by
  have typesLength := holds.types_length
  refine wp_foldlM_range (fun index result final => ∃ nodes fields,
    FieldsDone img values world newNode.header index result final nodes fields)
    img.templateSize ?_ ?_
  · refine ⟨[], [], holds.append_nil, ⟨rfl, ?_, ?_⟩, rfl, ?_, ?_, rfl, sized,
      rfl, Or.inr ⟨rfl, rfl, rfl, ?_⟩, rfl⟩
    all_goals simp
  · rintro index small acc middle ⟨nodes, fields, done⟩
    have typed : index < img.types.length := by omega
    obtain ⟨value, found⟩ : ∃ value, values[index]? = some value :=
      ⟨_, List.getElem?_eq_getElem (lt_of_lt_of_le typed storable.complete)⟩
    rw [wp_bind]
    refine wp_index found ?_
    by_cases string : img.types[index]? = some STRING
    · obtain ⟨terminated, nonempty⟩ :=
        storable.terminated index value string found
      have recordsEq : fieldRecords img.types img.realSize values index =
          recordCount (textOf value.deref).length img.realSize := by
        rw [fieldRecords, if_pos string, found]
        rfl
      have inFile : middle.pos ≤ middle.file.length := by
        rcases done.stands with atEnd | ⟨-, posEq, fileEq, -⟩
        · exact atEnd.le
        · rw [posEq, fileEq]
          exact before
      have lengthEq := holds.append_length done.holds
      have roomLeft : middle.file.length + img.recordSize *
          recordCount (textOf value.deref).length img.realSize < 2 ^ 63 := by
        have upTo := sum_range_le (fieldRecords img.types img.realSize values)
          (Nat.succ_le_of_lt small)
        rw [List.range_succ, List.map_append, List.sum_append] at upTo
        simp only [List.map_cons, List.map_nil, List.sum_cons, List.sum_nil,
          Nat.add_zero, recordsEq] at upTo
        have scaled := Nat.mul_le_mul_left img.recordSize upTo
        rw [Nat.mul_add, ← done.records] at scaled
        omega
      rw [if_pos string, wp_bind]
      refine done.holds.wp_insertNodeStr terminated inFile roomLeft rfl ?_
      intro payloads file blocks written appended
      rw [wp_pure]
      rw [append_append] at appended
      have spells : Spells img.realSize (textOf value.deref) payloads := written
      have several : payloads ≠ [] := by
        rw [← List.length_pos_iff, spells.count]
        exact recordCount_pos (List.length_pos_iff.mpr nonempty)
      have stands : payloads.length ≤ 1 ∨
          middle.pos = img.slotOffset (img.top + nodes.length) := by
        have atEnd (same : middle.pos = middle.file.length) :
            middle.pos = img.slotOffset (img.top + nodes.length) := by
          rw [same, done.holds.length_eq]
          rfl
        rcases done.stands with same | ⟨-, posEq, fileEq, numbers⟩
        · exact Or.inr (atEnd same)
        · rcases storable.first index string numbers with one | same
          · left
            rw [spells.count, ← recordsEq]
            exact one
          · exact Or.inr (atEnd (by rw [posEq, fileEq, same]))
      obtain ⟨records, recordsDef⟩ : ∃ records, records =
          (img.append nodes).stringRecords middle.pos payloads := ⟨_, rfl⟩
      have recordsLength : records.length = payloads.length := by
        rw [recordsDef, stringRecords_length]
      rw [← recordsDef] at appended
      have chained : Chain stringRecord img.slotOffset
          (img.append (nodes ++ records)).recs 0
            (consecutive (img.top + nodes.length) payloads) := by
        refine @chain_stringRecords (img.append nodes) middle.pos payloads _
          (fun position _ => ?_) stands
        rw [← append_append, append_recs_add, recordsDef]
      have linkEq : (FieldImage.str (consecutive (img.top + nodes.length)
          payloads)).word img.slotOffset =
            img.slotOffset (img.top + nodes.length) := by
        obtain ⟨payload, rest, rfl⟩ := List.exists_cons_of_ne_nil several
        rfl
      have linkSmall : img.slotOffset (img.top + nodes.length) < 2 ^ 63 :=
        done.holds.slotOffset_small le_rfl
      have extended := done.extend typed found
        ⟨file, file.length, middle.heap, blocks⟩ records
        (.str (consecutive (img.top + nodes.length) payloads)) appended
        ⟨fun _ => ⟨_, rfl⟩, fun _ => string⟩
        (by rintro _ ⟨rfl⟩; exact ⟨consecutive_ne_nil several, chained⟩)
        (by simp [FieldImage.slots, recordsLength])
        (by simpa [FieldImage.Stores] using spells)
        (by rw [linkEq]; omega)
        (by rw [recordsLength, spells.count, recordsEq]) (Or.inl rfl) rfl
      rw [linkEq] at extended
      exact ⟨_, _, extended⟩
    · rw [if_neg string, wp_pure]
      have recordsEq : fieldRecords img.types img.realSize values index = 0 :=
        if_neg string
      have extended := done.extend typed found middle []
        (.num value.word.toNat) (by simpa using done.holds)
        ⟨fun isString => absurd isString string, by rintro ⟨_, ⟨⟩⟩⟩
        (by rintro _ ⟨⟩) rfl rfl value.word.toNat_lt recordsEq.symm
        (Or.inr ⟨rfl, rfl, rfl, string⟩) rfl
      exact ⟨_, _, extended⟩

end Image

section Store

variable {img : Image} {nodes : List NodeImage} {world : World}

/-- The reserved slots are there, also in an empty store. -/
theorem StoreAt.reserved_le {file : List UInt8}
    (store : StoreAt img nodes file) : img.reserved ≤ img.top := by
  cases nodes with
  | nil =>
      have none : img.curId = 0 := store.count.symm
      have : img.reserved = 1 := by
        rw [Image.reserved, none, idRecords_succ]
        simp
      have capacity : 1 ≤ img.capacity := idRecords_pos _ _
      have := store.holds.capacity_le
      omega
  | cons node nodes =>
      have := store.layout.slot_lt (List.mem_cons_self)
        (show node.slot ∈ node.slots by simp [NodeImage.slots])
      omega

/-- Behind the first record of a store that is not empty there is room for no
other node. -/
theorem StoreAt.reserved_lt {file : List UInt8}
    (store : StoreAt img nodes file) (positive : 0 < img.curId) :
    img.reserved < img.top := by
  cases nodes with
  | nil => exact absurd store.count (by simp; omega)
  | cons node nodes =>
      have := store.layout.slot_lt (List.mem_cons_self)
        (show node.slot ∈ node.slots by simp [NodeImage.slots])
      omega

/-- The layout with a new node behind the old ones. -/
theorem StoreAt.layout_append {file : List UInt8}
    (store : StoreAt img nodes file) {recs : Nat → Option KeyNode}
    {records : Nat} {node : NodeImage}
    (old : ∀ slot < img.top, recs slot = img.recs slot)
    (slots : node.slots = List.range' img.top records)
    (nodeAt : NodeAt img.slotOffset recs img.types img.curId node) :
    Layout img.slotOffset recs img.types img.reserved (img.top + records)
      (nodes ++ [node]) := by
  have slotsEq : (nodes ++ [node]).flatMap NodeImage.slots =
      nodes.flatMap NodeImage.slots ++ List.range' img.top records := by
    simp [slots]
  refine ⟨?_, ?_, ?_⟩
  · intro id node' found
    rcases Image.getElem?_concat_cases found with earlier | ⟨rfl, rfl⟩
    · refine (store.layout.nodeAt id node' earlier).frame fun slot member => ?_
      exact old slot
        (store.layout.slot_lt (List.mem_of_getElem? earlier) member).2
    · rw [store.count]
      exact nodeAt
  · rw [slotsEq, List.nodup_append]
    refine ⟨store.layout.nodup, List.nodup_range', ?_⟩
    rintro slot member _ new rfl
    have := (store.layout.covers slot).mp member
    have := List.mem_range'_1.mp new
    omega
  · intro slot
    have := store.reserved_le
    rw [slotsEq, List.mem_append, store.layout.covers, List.mem_range'_1]
    omega

/-- The nodes after an addition: the old ones, one record of which growth may
have moved to `target`, and the new one. -/
def addedNodes (img : Image) (target : Nat) (nodes : List NodeImage)
    (node : NodeImage) : List NodeImage :=
  (if idUnit img.templateSize ∣ img.curId + 1 then
    nodes.map (NodeImage.relocate img.realSize img.reserved target)
  else nodes) ++ [node]

/-- Growth does not move the new node. -/
theorem grownNodes_concat {top : Nat} {recs : Nat → Option KeyNode}
    {node : NodeImage} (notMoved : 0 < img.curId → img.reserved ∉ node.slots) :
    grownNodes ⟨img.schema, top, recs⟩ (nodes ++ [node]) =
      addedNodes img top nodes node := by
  by_cases grows : idUnit img.templateSize ∣ img.curId + 1
  · have positive : 0 < img.curId := pos_of_grows _ _ grows
    have sameNode : node.relocate img.realSize img.reserved top = node :=
      NodeImage.relocate_of_notMem (notMoved positive)
    rw [grownNodes, addedNodes, if_pos grows, if_pos (by exact grows),
      List.map_append]
    exact congrArg _ (congrArg (fun last => [last]) sameNode)
  · rw [grownNodes, addedNodes, if_neg grows, if_neg (by exact grows)]

/-- `addNode` on a healthy store, for values that can be stored. -/
theorem StoreAt.wp_addNode {values : List Slot} {parent : UInt64}
    {post : CrudStatus → World → Prop} (store : StoreAt img nodes world.file)
    (storable : Storable img.types img.realSize (img.slotOffset img.capacity)
      world.file.length values)
    (room : world.file.length + img.recordSize *
      (addRecords img.types img.realSize values + 1) < 2 ^ 63)
    (movable : idUnit img.templateSize ∣ img.curId + 1 →
      ∀ record, img.recs img.reserved = some record →
        Movable img.schema (img.slotOffset img.reserved) record)
    (next : ∀ node target root top recs file pos blocks,
      node.parent = parent.toNat →
      (∀ (position : Nat) (field : FieldImage) (value : Slot),
        node.fields[position]? = some field →
          values[position]? = some value → field.Stores img.realSize value) →
      StoreAt ⟨img.schema.counted root, top, recs⟩
        (addedNodes img target nodes node) file →
      post .success
        { world with file := file, pos := pos, blocks := blocks }) :
    wp (addNode values parent) post world := by
  have holds := store.holds
  have typesLength := holds.types_length
  rw [addRecords, typesLength] at room
  have unfolded (count : Nat) : img.recordSize * (count + 1 + 1) =
      img.recordSize * count + img.recordSize + img.recordSize := by
    rw [Nat.mul_succ, Nat.mul_succ]
  rw [unfolded] at room
  have before : img.slotOffset img.capacity ≤ world.file.length := by
    rw [holds.length_eq]
    exact img.slotOffset_mono holds.capacity_le
  rw [addNode, wp_bind]
  refine holds.wp_getTypes fun blocks => ?_
  rw [wp_bind]
  refine Image.Holds.wp_readTreeSchema holds fun blocks => ?_
  rw [wp_bind]
  refine wp_malloc fun data blocks sized => ?_
  have fieldsRoom : world.file.length + img.recordSize * ((List.range
      img.templateSize).map
        (fieldRecords img.types img.realSize values)).sum < 2 ^ 63 := by
    omega
  refine wp_bind_of (Image.Holds.wp_addFields holds storable before fieldsRoom
    (by exact sized)) ?_
  rintro newNode middle ⟨records, fields, done⟩
  have headerEq : newNode.header = ⟨parent.toNat, img.curId⟩ := done.header_eq
  have headerFits : newNode.header.parentNode < 2 ^ 64 ∧
      newNode.header.allocNode < 2 ^ 64 := by
    rw [headerEq]
    exact ⟨parent.toNat_lt, holds.valid.treeMeta.curId⟩
  have lengthEq := holds.append_length done.holds
  rw [done.records] at lengthEq
  have tupleRoom : middle.file.length + img.recordSize < 2 ^ 63 := by omega
  rw [wp_bind]
  refine Image.Holds.wp_insertNode done.holds (Nat.add_comm _ _) headerFits
    tupleRoom ?_
  intro data file blocks dataSized agree pushed grown
  have dataEq : data = newNode.data := by
    have whole : newNode.data.length = (img.append records).realSize :=
      done.data_length
    rw [whole, Nat.min_self, List.take_of_length_le (by exact dataSized.le),
      List.take_of_length_le (by exact whole.le)] at agree
    exact agree
  subst dataEq
  rw [Image.append_push] at pushed
  let tupleSlot := img.top + records.length
  let appended := img.append (records ++ [⟨newNode.header, newNode.data⟩])
  have appendedHolds : appended.Holds file := pushed
  have fieldsAt : FieldsAt appended.slotOffset appended.recs appended.types 0
      fields :=
    done.fieldsAt_tuple typesLength.le
  have tupleSmall : img.slotOffset tupleSlot < 2 ^ 63 :=
    done.holds.slotOffset_small le_rfl
  rw [wp_bind]
  refine Image.Holds.wp_linkSton appendedHolds fieldsAt done.words done.nodup
    (by exact tupleSmall.trans (by norm_num)) ?_
  intro recs file pos blocks kept frame linked
  let node : NodeImage :=
    { slot := tupleSlot
      parent := parent.toNat
      fields := fields }
  have slotsEq : node.slots = List.range' img.top (records.length + 1) := by
    rw [NodeImage.slots, NodeImage.chainSlots, done.slots, List.range'_concat]
    simp [node, tupleSlot]
  have old (slot : Nat) (small : slot < img.top) :
      recs slot = img.recs slot := by
    rw [frame slot fun member => absurd (done.slot_bounds member).1 (by omega),
      Image.append_recs_of_lt img small]
  have nodeAt : NodeAt img.slotOffset recs img.types img.curId node := by
    refine ⟨⟨⟨newNode.header, newNode.data⟩, ?_, headerEq, done.words⟩, linked⟩
    rw [frame tupleSlot fun member =>
      absurd (done.slot_bounds member).2 (Nat.lt_irrefl _)]
    exact Image.append_recs_last
  have layout := store.layout_append old slotsEq nodeAt
  let after : Image :=
    { schema := img.schema
      top := img.top + (records.length + 1)
      recs := recs }
  have topEq : appended.top = img.top + (records.length + 1) := by
    rw [Image.append_top]
    simp
  have afterHolds : after.Holds file := by
    rw [topEq] at kept
    exact kept
  have registered : Registered after.schema.root after.slotOffset after.curId
      (nodes ++ [node]) := by
    intro id node' small found
    rw [List.getElem?_append_left (by rw [store.count]; exact small)] at found
    exact store.root id node' found
  have found : (nodes ++ [node])[after.curId]? = some node := by
    have : after.curId = nodes.length := store.count.symm
    rw [this]
    simp
  have notMoved (positive : 0 < after.curId) :
      after.reserved ∉ node.slots := by
    intro member
    rw [slotsEq] at member
    have above := (List.mem_range'_1.mp member).1
    exact absurd (store.reserved_lt positive) (Nat.not_lt.mpr above)
  rw [wp_bind]
  refine Layout.wp_appendToIdArray (by exact afterHolds) layout
    (by simp [after, store.count]) registered found rfl notMoved store.fresh
    ?_ ?_
  · intro grows
    have positive : 0 < img.curId := pos_of_grows _ _ grows
    refine ⟨fun record known => movable grows record ?_, ?_⟩
    · exact (old _ (store.reserved_lt positive)).symm.trans known
    · have longer : file.length = middle.file.length + img.recordSize := by
        have tupleEnd := done.holds.length_eq
        rw [Image.append_slotOffset, Image.append_top] at tupleEnd
        rw [afterHolds.length_eq, tupleEnd]
        exact img.slotOffset_succ
      change file.length + img.recordSize < 2 ^ 63
      omega
  · intro root top recs file pos blocks added
    rw [grownNodes_concat notMoved] at added
    have heapEq : middle.heap = world.heap := done.heap
    rw [wp_pure]
    change post .success
      { file := file, pos := pos, heap := middle.heap, blocks := blocks }
    rw [heapEq]
    exact next node after.top root top recs file pos blocks rfl
      (fun position field value => done.stores position field value) added

end Store

end TreeStore
