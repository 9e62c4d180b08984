import TreeStore.ReadBack

/-!
# What growth keeps of the old nodes

When the id array grows, one record moves, without its last bytes.  The old
nodes read the same afterwards if and only if those bytes did not matter.
-/

namespace TreeStore

open ByteFile ProgramLogic LinkedRecords

section Values

variable {realSize source target : Nat}

/-- A string that loses the end of one record reads the same if and only if
that record does. -/
theorem assemble_relocate_iff (change : List UInt8 → List UInt8)
    (chain : List (Nat × List UInt8)) :
    assemble realSize (relocate source target change chain) =
        assemble realSize chain ↔
      ∀ entry ∈ chain, entry.1 = source →
        strncpy (change entry.2) realSize = strncpy entry.2 realSize := by
  induction chain with
  | nil => simp [assemble, relocate]
  | cons entry rest ih =>
      have split (first : Nat × List UInt8) (others : List (Nat × List UInt8)) :
          assemble realSize (first :: others) =
            strncpy first.2 realSize ++ assemble realSize others := rfl
      have moved : relocate source target change (entry :: rest) =
          (if entry.1 = source then (target, change entry.2) else entry) ::
            relocate source target change rest := rfl
      rw [moved, split, split, List.forall_mem_cons, ← ih]
      constructor
      · intro same
        obtain ⟨head, tail⟩ := List.append_inj same (by simp)
        refine ⟨fun here => ?_, tail⟩
        rw [if_pos here] at head
        exact head
      · rintro ⟨head, tail⟩
        rw [tail]
        congr 1
        split_ifs with here
        · exact head here
        · rfl

/-- A field after growth reads the same if and only if it lost nothing. -/
theorem FieldImage.relocate_value_iff (slot position : Nat)
    (field : FieldImage) :
    (field.relocate realSize source target slot position).value realSize =
        field.value realSize ↔
      match field with
      | .num word => slot = source →
          realSize < 8 * position + 8 + nodeHeadSize → word = 0
      | .str chain => ∀ entry ∈ chain, entry.1 = source →
          strncpy (cutData realSize entry.2) realSize =
            strncpy entry.2 realSize := by
  cases field with
  | num word =>
      simp only [FieldImage.relocate, FieldImage.value, FieldValue.word.injEq]
      split_ifs with lost
      · constructor
        · exact fun same _ _ => same.symm
        · exact fun zero => (zero lost.1 lost.2).symm
      · simp only [true_iff]
        exact fun here short => absurd ⟨here, short⟩ lost
  | str chain =>
      simp only [FieldImage.relocate, FieldImage.value, FieldValue.text.injEq]
      exact assemble_relocate_iff _ chain

/-- A node after growth reads the same if and only if each of its fields
does. -/
theorem NodeImage.relocate_values_iff (node : NodeImage) :
    (node.relocate realSize source target).values realSize =
        node.values realSize ↔
      ∀ (position : Nat) (field : FieldImage),
        node.fields[position]? = some field →
          (field.relocate realSize source target node.slot position).value
            realSize = field.value realSize := by
  rw [NodeImage.values, NodeImage.values, NodeImage.relocate]
  dsimp only
  constructor
  · intro same position field found
    have here := congrArg (fun values : List FieldValue => values[position]?)
      same
    simpa [List.getElem?_mapIdx, found] using here
  · intro same
    apply List.ext_getElem?
    intro position
    rw [List.getElem?_map, List.getElem?_mapIdx, List.getElem?_map]
    cases found : node.fields[position]? with
    | none => rfl
    | some field => exact congrArg some (same position field found)

end Values

/-- The record that growth moves loses nothing: the words of a tuple that are
not copied are zero, and a string record reads the same without its end. -/
def Lossless (schema : TreeSchema) (offset : Nat) (record : KeyNode) : Prop :=
  if schema.root[record.header.allocNode]? = some offset then
    ∀ position < schema.types.length,
      schema.realSize < 8 * position + 8 + nodeHeadSize →
        record.word position = 0
  else strncpy (cutData schema.realSize record.data) schema.realSize =
    strncpy record.data schema.realSize

section Store

variable {img : Image} {nodes : List NodeImage} {file : List UInt8}
  {node : NodeImage} {id slot target : Nat} {record : KeyNode}

theorem Image.capacity_le_reserved (img : Image) :
    img.capacity ≤ img.reserved :=
  idRecords_le_succ _ _

/-- No string record is taken for a tuple. -/
theorem StoreAt.string_not_registered (store : StoreAt img nodes file)
    (found : nodes[id]? = some node) (owner : slot ∈ node.chainSlots)
    (known : img.recs slot = some record) :
    img.schema.root[record.header.allocNode]? ≠ some (img.slotOffset slot) := by
  have member := List.mem_of_getElem? found
  have nodeAt := store.layout.nodeAt id node found
  have ownSlots : slot ∈ node.slots := List.mem_append_left _ owner
  obtain ⟨field, fieldMember, inside⟩ := List.mem_flatMap.mp owner
  intro registered
  cases field with
  | num word => simp [FieldImage.slots] at inside
  | str chain =>
      obtain ⟨⟨slot, data⟩, entry, rfl⟩ := List.mem_map.mp inside
      obtain ⟨before, after, here, linked⟩ :=
        (nodeAt.fieldsAt.chains chain fieldMember).2.exists_cell entry
      rw [known] at here
      cases here
      rcases linked with rfl | ⟨next, nextInside, rfl⟩
      · obtain ⟨first, firstFound⟩ : ∃ first, nodes[0]? = some first := by
          have := (List.getElem?_eq_some_iff.mp found).1
          exact ⟨_, List.getElem?_eq_getElem (Nat.zero_lt_of_lt this)⟩
        have entryEq := store.root 0 first firstFound
        have sameSlot : first.slot = slot := by
          change img.schema.root[0]? = some (img.slotOffset slot) at registered
          rw [entryEq] at registered
          exact img.slotOffset_inj.mp (Option.some.inj registered)
        have firstOwns : slot ∈ first.slots := by
          simp [NodeImage.slots, sameSlot]
        obtain rfl := store.layout.owner_unique firstFound found firstOwns
          ownSlots
        rw [found] at firstFound
        cases firstFound
        exact (List.nodup_append.mp (store.layout.node_nodup member)).2.2 _
          owner _ (by simp) sameSlot.symm
      · -- a link is an offset, and no offset is a position in the id array
        have behind := (store.layout.slot_lt member (List.mem_append_left _
          (NodeImage.chain_slots_subset fieldMember nextInside))).1
        have rootShort := store.holds.root_length_le
          (img.capacity_le_reserved.trans behind)
        have absent : img.schema.root[img.slotOffset next]? = none := by
          rw [List.getElem?_eq_none_iff]
          omega
        change img.schema.root[img.slotOffset next]? = _ at registered
        rw [absent] at registered
        exact absurd registered (by simp)

/-- The first record loses nothing if and only if all nodes read the same after
it has moved. -/
theorem StoreAt.relocate_values_iff (store : StoreAt img nodes file)
    (known : img.recs slot = some record)
    (movable : Movable img.schema (img.slotOffset slot) record)
    (inside : slot ∈ nodes.flatMap NodeImage.slots) :
    (∀ (id : Nat) (node : NodeImage), nodes[id]? = some node →
      (node.relocate img.realSize slot target).values img.realSize =
        node.values img.realSize) ↔
      Lossless img.schema (img.slotOffset slot) record := by
  obtain ⟨node, member, owner⟩ := List.mem_flatMap.mp inside
  obtain ⟨id, found⟩ := List.getElem?_of_mem member
  have others : (∀ (id : Nat) (node : NodeImage), nodes[id]? = some node →
      (node.relocate img.realSize slot target).values img.realSize =
        node.values img.realSize) ↔
          (node.relocate img.realSize slot target).values img.realSize =
            node.values img.realSize := by
    refine ⟨fun all => all id node found, fun same other node' found' => ?_⟩
    by_cases here : slot ∈ node'.slots
    · obtain rfl := store.layout.owner_unique found' found here owner
      rw [found] at found'
      cases found'
      exact same
    · rw [NodeImage.relocate_of_notMem here]
  rw [others, NodeImage.relocate_values_iff]
  have nodeAt := store.layout.nodeAt id node found
  have distinct := store.layout.node_nodup member
  rcases List.mem_append.mp owner with string | tuple
  · have notTuple := store.string_not_registered found string known
    have fresh : node.slot ≠ slot := fun same =>
      (List.nodup_append.mp distinct).2.2 _ string _ (by simp) same.symm
    rw [Lossless, if_neg notTuple]
    -- the data listed for the moved record are those in memory
    have listed {chain : List (Nat × List UInt8)} {data : List UInt8}
        (chainMember : FieldImage.str chain ∈ node.fields)
        (entry : (slot, data) ∈ chain) : record.data = data := by
      obtain ⟨before, after, here, -⟩ :=
        (nodeAt.fieldsAt.chains chain chainMember).2.exists_cell entry
      rw [known] at here
      cases here
      rfl
    constructor
    · intro same
      obtain ⟨field, fieldMember, fieldOwner⟩ := List.mem_flatMap.mp string
      obtain ⟨position, here⟩ := List.getElem?_of_mem fieldMember
      have kept := (FieldImage.relocate_value_iff _ _ _).mp
        (same position field here)
      cases field with
      | num word => simp [FieldImage.slots] at fieldOwner
      | str chain =>
          obtain ⟨⟨_, data⟩, entry, rfl⟩ := List.mem_map.mp fieldOwner
          rw [listed fieldMember entry]
          exact kept _ entry rfl
    · intro kept position field here
      rw [FieldImage.relocate_value_iff]
      cases field with
      | num word => exact fun same => absurd same fresh
      | str chain =>
          rintro ⟨_, data⟩ entry rfl
          rw [← listed (List.mem_of_getElem? here) entry]
          exact kept
  · obtain rfl := List.mem_singleton.mp tuple
    obtain ⟨record', known', tupleAt⟩ := nodeAt.tuple
    rw [known] at known'
    cases known'
    have registered : img.schema.root[record.header.allocNode]? =
        some (img.slotOffset node.slot) := by
      rw [tupleAt.header]
      exact store.root id node found
    have fresh : node.slot ∉ node.chainSlots := fun strings =>
      (List.nodup_append.mp distinct).2.2 _ strings _ (by simp) rfl
    rw [Lossless, if_pos registered]
    rw [Movable, if_pos registered] at movable
    constructor
    · intro same position small short
      obtain ⟨field, here⟩ : ∃ field, node.fields[position]? = some field :=
        ⟨_, List.getElem?_eq_getElem (nodeAt.fieldsAt.count ▸ small)⟩
      have kept := (FieldImage.relocate_value_iff _ _ _).mp
        (same position field here)
      cases field with
      | num word =>
          rw [tupleAt.words _ _ here]
          exact kept rfl short
      | str chain =>
          have string := (nodeAt.fieldsAt.typed _ _ here).mpr ⟨chain, rfl⟩
          exact absurd (movable position string) (Nat.not_le.mpr short)
    · intro zero position field here
      rw [FieldImage.relocate_value_iff]
      cases field with
      | num word =>
          intro _ short
          have small := (List.getElem?_eq_some_iff.mp here).1
          rw [nodeAt.fieldsAt.count] at small
          rw [← zero position small short]
          exact (tupleAt.words _ _ here).symm
      | str chain =>
          intro entry entryMember same
          exact absurd (NodeImage.chain_slots_subset
            (List.mem_of_getElem? here) (List.mem_map.mpr
              ⟨entry, entryMember, same⟩)) fresh

/-- Growth moves a record of one of the nodes. -/
theorem StoreAt.exists_moved (store : StoreAt img nodes file)
    (grows : idUnit img.templateSize ∣ img.curId + 1) :
    img.schema.arrayEnd = img.slotOffset img.reserved ∧
      ∃ (id : Nat) (node : NodeImage), nodes[id]? = some node ∧
        img.reserved ∈ node.slots := by
  constructor
  · rw [store.arrayEnd_eq]
    exact congrArg img.slotOffset (idRecords_of_grows _ _ grows).1
  · have inside : img.reserved ∈ nodes.flatMap NodeImage.slots :=
      (store.layout.covers _).mpr
        ⟨le_rfl, store.reserved_lt (pos_of_grows _ _ grows)⟩
    obtain ⟨node, member, owner⟩ := List.mem_flatMap.mp inside
    obtain ⟨id, found⟩ := List.getElem?_of_mem member
    exact ⟨id, node, found, owner⟩

/-- Growth, if the next addition makes the id array grow, loses nothing. -/
def GrowthLossless (file : List UInt8) (schema : TreeSchema) : Prop :=
  idUnit schema.treeMeta.templateSize ∣ schema.treeMeta.curId + 1 →
    ∀ record, RecordAt file schema schema.arrayEnd record →
      Lossless schema schema.arrayEnd record

/-- Every live id of the first file is live in the second, with the same parent
and the same fields. -/
def KeepsNodes (file file' : List UInt8) : Prop :=
  ∀ schema id offset, SchemaAt file schema → LiveAt schema id offset →
    ∃ parent fields, Shows file id parent fields ∧ Shows file' id parent fields

theorem Shows.fields_unique {parent parent' : Nat}
    {fields fields' : List FieldValue} (first : Shows file id parent fields)
    (second : Shows file id parent' fields') : fields = fields' := by
  obtain ⟨_, _, -, -, -, delivers⟩ := first
  obtain ⟨_, _, -, -, -, delivers'⟩ := second
  exact delivers.unique delivers'

/-- An addition that fits keeps the old nodes if and only if growth loses
nothing. -/
theorem Added.keepsNodes_iff {values : List Slot} {parent : UInt64}
    {file' : List UInt8} (store : StoreAt img nodes file)
    (fits : AddFits file img.schema values)
    (added : Added img nodes values parent file') :
    KeepsNodes file file' ↔ GrowthLossless file img.schema := by
  obtain ⟨new, target, root, top, recs, -, -, store'⟩ := added
  let kept (node : NodeImage) : NodeImage :=
    if idUnit img.templateSize ∣ img.curId + 1 then
      node.relocate img.realSize img.reserved target else node
  have keptParent (node : NodeImage) : (kept node).parent = node.parent := by
    simp only [kept]
    split_ifs <;> rfl
  have nodewise : KeepsNodes file file' ↔
      ∀ (id : Nat) (node : NodeImage), nodes[id]? = some node →
        (kept node).values img.realSize = node.values img.realSize := by
    constructor
    · intro keeps id node found
      obtain ⟨parent, fields, before, after⟩ :=
        keeps _ id _ store.schemaAt (store.liveAt found)
      have old := before.fields_unique (store.shows found)
      exact ((store'.shows (addedNodes_old found)).fields_unique after).trans old
    · intro same schema id offset stored live
      obtain rfl := store.schema_eq stored
      obtain ⟨node, found⟩ := store.exists_node live.counted
      refine ⟨node.parent, node.values img.realSize, store.shows found, ?_⟩
      rw [← same id node found, ← keptParent node]
      exact store'.shows (addedNodes_old found)
  rw [nodewise]
  by_cases grows : idUnit img.templateSize ∣ img.curId + 1
  · obtain ⟨arrayEnd, id, node, found, owner⟩ := store.exists_moved grows
    have inside : img.reserved ∈ nodes.flatMap NodeImage.slots :=
      List.mem_flatMap.mpr ⟨node, List.mem_of_getElem? found, owner⟩
    obtain ⟨record, known⟩ :=
      (store.layout.nodeAt id node found).exists_record owner
    have here := store.recordAt known
    have movable := fits.movable grows record (arrayEnd ▸ here)
    rw [arrayEnd] at movable
    have moved := @StoreAt.relocate_values_iff _ _ _ _ target _ store known
      movable inside
    simp only [kept, if_pos grows, moved, GrowthLossless, arrayEnd]
    constructor
    · intro lossless _ record' here'
      obtain rfl := here.unique here'
      exact lossless
    · exact fun lossless => lossless grows record here
  · simp only [kept, if_neg grows, implies_true, true_iff]
    exact fun contrary => absurd contrary grows

end Store

/-- In a run of additions that fit, a further one keeps all old nodes if and
only if growth loses nothing. -/
theorem addNode_keepsNodes {specs : List AttributeSpec} {world : World}
    {schema : TreeSchema} {values : List Slot} {parent : UInt64}
    (reached : Reached specs AddsFit world.file)
    (stored : SchemaAt world.file schema)
    (fits : AddFits world.file schema values) :
    wp (addNode values parent) (fun status final => status = .success ∧
      (KeepsNodes world.file final.file ↔ GrowthLossless world.file schema))
      world := by
  obtain ⟨img, nodes, store, -⟩ := healthy_of_adds reached
  obtain rfl := store.schema_eq stored
  refine wp_mono (store.add fits) fun status final ⟨success, added⟩ => ?_
  exact ⟨success, added.keepsNodes_iff store fits⟩

section Copies

variable {specs : List AttributeSpec} {template : List NodeAttributeInfo}
  {values : List Slot} {count : Nat} {img : Image} {nodes : List NodeImage}
  {file : List UInt8}

/-- A node has the records that its values take. -/
theorem NodeImage.slots_length {types : List Nat} {address : Nat → Nat}
    {recs : Nat → Option KeyNode} {owner realSize : Nat} {node : NodeImage}
    (fieldsAt : FieldsAt address recs types owner node.fields)
    (complete : types.length ≤ values.length)
    (stores : ∀ (position : Nat) (field : FieldImage) (value : Slot),
      node.fields[position]? = some field → values[position]? = some value →
        field.Stores realSize value) :
    node.slots.length = addRecords types realSize values := by
  have fieldwise : node.fields.map (fun field => field.slots.length) =
      (List.range types.length).map (fieldRecords types realSize values) := by
    apply List.ext_getElem
    · simp [fieldsAt.count]
    · intro position inFields inTypes
      rw [List.length_map] at inFields
      have found := List.getElem?_eq_getElem inFields
      obtain ⟨value, given⟩ : ∃ value, values[position]? = some value :=
        ⟨_, List.getElem?_eq_getElem
          ((fieldsAt.count ▸ inFields).trans_le complete)⟩
      have stored := stores position _ _ found given
      have typed := fieldsAt.typed position _ found
      rw [List.getElem_map, List.getElem_map, List.getElem_range, fieldRecords]
      cases field : node.fields[position] with
      | num word =>
          have number : types[position]? ≠ some STRING := by
            intro string
            obtain ⟨chain, same⟩ := typed.mp string
            rw [field] at same
            cases same
          rw [if_neg number]
          rfl
      | str chain =>
          rw [field] at stored
          have spells : Spells realSize (textOf value.deref)
              (chain.map Prod.snd) := stored
          have records := spells.count
          rw [List.length_map] at records
          rw [if_pos (typed.mpr ⟨chain, field⟩), given, FieldImage.slots,
            List.length_map, records]
          rfl
  rw [NodeImage.slots, NodeImage.chainSlots, List.length_append,
    List.length_flatMap, fieldwise]
  rfl

/-- Values with strings of one record each, in the fields that growth copies. -/
structure ShortValues (template : List NodeAttributeInfo)
    (values : List Slot) : Prop where
  complete : template.length ≤ values.length
  terminated : ∀ (position : Nat) (value : Slot),
    (template.map (·.type))[position]? = some STRING →
      values[position]? = some value →
        0 ∈ value.deref ∧ textOf value.deref ≠ []
  short : ∀ position < template.length,
    fieldRecords (template.map (·.type)) (getRealNodeSize template.length)
      values position ≤ 1
  copied : ∀ position < template.length,
    (template.map (·.type))[position]? = some STRING →
      8 * position + 8 + nodeHeadSize ≤ getRealNodeSize template.length

/-- A store of `count` nodes with the same values. -/
structure Copies (specs : List AttributeSpec)
    (template : List NodeAttributeInfo) (values : List Slot) (count : Nat)
    (img : Image) (nodes : List NodeImage) (file : List UInt8) : Prop where
  reached : Reached specs AddsFit file
  store : StoreAt img nodes file
  template_eq : img.schema.nodesTemplate = template
  count_eq : img.curId = count
  stores : ∀ node ∈ nodes, ∀ (position : Nat) (field : FieldImage)
    (value : Slot), node.fields[position]? = some field →
      values[position]? = some value → field.Stores img.realSize value

theorem Copies.size_eq (copies : Copies specs template values count img nodes file) :
    img.templateSize = template.length := by
  rw [← copies.template_eq]
  exact copies.store.holds.valid.template_length.symm

theorem Copies.types_eq (copies : Copies specs template values count img nodes file) :
    img.types = template.map (·.type) := by
  rw [Image.types, copies.template_eq]

/-- All nodes take the same number of slots. -/
theorem Copies.top_eq (copies : Copies specs template values count img nodes file)
    (complete : template.length ≤ values.length) :
    img.top = img.reserved +
      count * addRecords img.types img.realSize values := by
  have layout := copies.store.layout
  have same : (nodes.flatMap NodeImage.slots).Perm
      (List.range' img.reserved (img.top - img.reserved)) := by
    rw [List.perm_ext_iff_of_nodup layout.nodup List.nodup_range']
    intro slot
    rw [layout.covers, List.mem_range'_1]
    omega
  have each : nodes.map (fun node => node.slots.length) =
      List.replicate count (addRecords img.types img.realSize values) := by
    rw [List.eq_replicate_iff, List.length_map, copies.store.count,
      copies.count_eq]
    refine ⟨rfl, fun length member => ?_⟩
    obtain ⟨node, listed, rfl⟩ := List.mem_map.mp member
    obtain ⟨id, found⟩ := List.getElem?_of_mem listed
    apply NodeImage.slots_length (layout.nodeAt id node found).fieldsAt _
      (copies.stores node listed)
    rw [copies.types_eq, List.length_map]
    exact complete
  have lengths := same.length_eq
  rw [List.length_flatMap, each, List.sum_replicate, List.length_range',
    smul_eq_mul] at lengths
  have := copies.store.reserved_le
  omega

/-- Each string takes one record. -/
theorem Copies.chain_length_le
    (copies : Copies specs template values count img nodes file)
    (fit : ShortValues template values) {node : NodeImage}
    (member : node ∈ nodes) {chain : List (Nat × List UInt8)}
    (field : FieldImage.str chain ∈ node.fields) : chain.length ≤ 1 := by
  obtain ⟨id, found⟩ := List.getElem?_of_mem member
  obtain ⟨position, here⟩ := List.getElem?_of_mem field
  have fieldsAt := (copies.store.layout.nodeAt id node found).fieldsAt
  have typed := (fieldsAt.typed _ _ here).mpr ⟨chain, rfl⟩
  rw [copies.types_eq] at typed
  have inside := (List.getElem?_eq_some_iff.mp typed).1
  rw [List.length_map] at inside
  obtain ⟨value, given⟩ : ∃ value, values[position]? = some value :=
    ⟨_, List.getElem?_eq_getElem (inside.trans_le fit.complete)⟩
  have spells : Spells img.realSize (textOf value.deref)
      (chain.map Prod.snd) :=
    copies.stores node member _ _ _ here given
  have records := spells.count
  have single := fit.short position inside
  rw [fieldRecords, if_pos typed, given, ← copies.size_eq] at single
  rw [List.length_map] at records
  exact records.trans_le single

/-- Growth may move every record of such a store. -/
theorem Copies.movable (copies : Copies specs template values count img nodes file)
    (fit : ShortValues template values) {record : KeyNode}
    (grows : idUnit img.templateSize ∣ img.curId + 1)
    (here : RecordAt file img.schema img.schema.arrayEnd record) :
    Movable img.schema img.schema.arrayEnd record := by
  have store := copies.store
  obtain ⟨arrayEnd, id, node, found, owner⟩ := store.exists_moved grows
  have member := List.mem_of_getElem? found
  have nodeAt := store.layout.nodeAt id node found
  rw [Movable]
  split_ifs with registered
  · intro position string
    rw [copies.template_eq] at string
    have inside := (List.getElem?_eq_some_iff.mp string).1
    rw [List.length_map] at inside
    exact (fit.copied position inside string).trans
      (congrArg getRealNodeSize copies.size_eq).ge
  · rcases List.mem_append.mp owner with string | tuple
    · obtain ⟨field, fieldMember, fieldInside⟩ := List.mem_flatMap.mp string
      cases field with
      | num word => simp [FieldImage.slots] at fieldInside
      | str chain =>
          have linked := (nodeAt.fieldsAt.chains chain fieldMember).2
          have single := copies.chain_length_le fit member fieldMember
          obtain ⟨⟨slot, data⟩, entry, same⟩ := List.mem_map.mp fieldInside
          obtain ⟨_, rfl⟩ := List.length_eq_one_iff.mp
            (single.antisymm (List.length_pos_of_mem entry))
          obtain rfl := List.mem_singleton.mp entry
          dsimp only at same
          rw [← same] at arrayEnd
          obtain rfl := here.unique (arrayEnd ▸ store.recordAt linked.1)
          rfl
    · have same := List.mem_singleton.mp tuple
      obtain ⟨record', known, tupleAt⟩ := nodeAt.tuple
      rw [← same] at known
      obtain rfl := here.unique (arrayEnd ▸ store.recordAt known)
      apply absurd _ registered
      rw [tupleAt.header, arrayEnd, same]
      exact store.root id node found

theorem Copies.addFits (copies : Copies specs template values count img nodes file)
    (fit : ShortValues template values)
    (room : metaSize + (templateBytes template).length +
      (getRealNodeSize template.length + nodeHeadSize) * (count + 2 +
        (count + 1) * addRecords (template.map (·.type))
          (getRealNodeSize template.length) values) < 2 ^ 63) :
    AddFits file img.schema values := by
  have types : img.schema.types = template.map (·.type) := copies.types_eq
  have size : img.schema.realSize = getRealNodeSize template.length :=
    congrArg getRealNodeSize copies.size_eq
  refine ⟨⟨?_, ?_, ?_⟩, ?_, ?_⟩
  · rw [types, List.length_map]
    exact fit.complete
  · rw [types]
    exact fit.terminated
  · intro position string _
    rw [types] at string ⊢
    rw [size]
    have := (List.getElem?_eq_some_iff.mp string).1
    exact Or.inl (fit.short position (by simpa using this))
  · exact fun grows record here => copies.movable fit grows here
  · have reserved : img.reserved ≤ count + 1 := by
      rw [Image.reserved, idRecords_succ, copies.count_eq]
      exact Nat.succ_le_succ (Nat.div_le_self _ _)
    have record : img.recordSize = getRealNodeSize template.length +
        nodeHeadSize := by
      rw [Image.recordSize, Image.realSize, copies.size_eq]
    have lengthEq := copies.store.holds.length_eq
    rw [Image.slotOffset, Image.dataStart, copies.template_eq, record,
      copies.top_eq fit.complete, Image.realSize, copies.size_eq,
      copies.types_eq] at lengthEq
    rw [TreeSchema.recordSize, size, types, lengthEq]
    generalize addRecords (template.map (·.type))
      (getRealNodeSize template.length) values = records at room ⊢
    apply lt_of_le_of_lt _ room
    rw [Nat.add_assoc (metaSize + _), ← Nat.mul_add]
    apply Nat.add_le_add_left
    apply Nat.mul_le_mul_left
    rw [Nat.add_mul, Nat.one_mul]
    omega

/-- A run may begin with no node. -/
theorem copies_zero (few : specs.length < 2 ^ 64)
    (fit : ∀ spec ∈ specs, spec.Fits)
    (created : createdFile specs = (emptySchema template).bytes)
    (valid : (emptySchema template).Valid)
    (small : (emptySchema template).bytes.length < 2 ^ 63) :
    Copies specs template values 0 (emptyImage template) []
      (createdFile specs) where
  reached := .initial (created_createdFile few fit (created ▸ small))
  store := by
    rw [created]
    exact storeAt_empty valid small
  template_eq := rfl
  count_eq := rfl
  stores := by simp

/-- One more node with these values. -/
theorem Copies.succ (copies : Copies specs template values count img nodes file)
    (fits : AddFits file img.schema values)
    (stays : ¬ idUnit template.length ∣ count + 1) :
    ∃ img' nodes' file', Copies specs template values (count + 1) img' nodes'
      file' := by
  obtain ⟨status, final, runs, success, node, target, root, top, recs,
    parentEq, stores, store'⟩ := @StoreAt.add _ _ (blankWorld file) values 0
      copies.store fits
  have notGrown : ¬ idUnit img.templateSize ∣ img.curId + 1 := by
    rw [copies.size_eq, copies.count_eq]
    exact stays
  refine ⟨_, _, final.file, ?_, store', copies.template_eq,
    congrArg Nat.succ copies.count_eq, ?_⟩
  · exact .next (.add values 0) copies.reached
      ⟨_, copies.store.schemaAt, fits⟩
      ⟨blankWorld file, file.length, status, final, rfl, le_rfl, runs, rfl⟩
  · intro other member
    rw [addedNodes, if_neg notGrown] at member
    rcases List.mem_append.mp member with old | new
    · exact copies.stores other old
    · obtain rfl := List.mem_singleton.mp new
      exact stores

/-- A store of thirty-three such nodes. -/
theorem exists_copies
    (first : Copies specs template values 0 (emptyImage template) []
      (createdFile specs)) (fit : ShortValues template values)
    (room : metaSize + (templateBytes template).length +
      (getRealNodeSize template.length + nodeHeadSize) * (34 + 2 +
        (34 + 1) * addRecords (template.map (·.type))
          (getRealNodeSize template.length) values) < 2 ^ 63) :
    ∃ img nodes file, Copies specs template values 33 img nodes file := by
  have all (count : Nat) (small : count ≤ 33) :
      ∃ img nodes file, Copies specs template values count img nodes file := by
    induction count with
    | zero => exact ⟨_, _, _, first⟩
    | succ count ih =>
        obtain ⟨img, nodes, file, copies⟩ := ih (by omega)
        apply copies.succ
        · apply copies.addFits fit
          apply lt_of_le_of_lt _ room
          gcongr <;> omega
        · have := idUnit_ge template.length
          exact fun grows => absurd (Nat.le_of_dvd (Nat.succ_pos _) grows)
            (by omega)
  exact all 33 le_rfl

end Copies

section Wide

/-- Thirty-one numbers, so that the last word of a tuple is not copied. -/
def wideTemplate : List NodeAttributeInfo :=
  List.replicate 31
    { size := 4, type := INT, attributeName := [110, 0, 0, 0] }

def wideSpecs : List AttributeSpec :=
  List.replicate 31 (singleSpec INT (by norm_num))

/-- Thirty sevens and a last number. -/
def wideValues (last : UInt64) : List Slot :=
  List.replicate 30 ⟨7, []⟩ ++ [⟨last, []⟩]

theorem createdFile_wide :
    createdFile wideSpecs = (emptySchema wideTemplate).bytes := by
  decide +kernel

theorem wide_not_string (position : Nat) :
    (wideTemplate.map (·.type))[position]? ≠ some STRING := by
  intro string
  rw [wideTemplate, List.map_replicate] at string
  have := List.eq_of_mem_replicate (List.mem_of_getElem? string)
  exact absurd this (by decide)

theorem shortValues_wide (last : UInt64) :
    ShortValues wideTemplate (wideValues last) where
  complete := by simp [wideTemplate, wideValues]
  terminated := fun position _ string => absurd string (wide_not_string position)
  short := by
    intro position _
    rw [fieldRecords, if_neg (wide_not_string position)]
    exact Nat.zero_le 1
  copied := fun position _ string => absurd string (wide_not_string position)

variable {last : UInt64} {img : Image} {nodes : List NodeImage}
  {file : List UInt8}

theorem wide_room {count : Nat} (small : count ≤ 34) :
    metaSize + (templateBytes wideTemplate).length +
      (getRealNodeSize wideTemplate.length + nodeHeadSize) * (count + 2 +
        (count + 1) * addRecords (wideTemplate.map (·.type))
          (getRealNodeSize wideTemplate.length) (wideValues last)) < 2 ^ 63 := by
  have one : addRecords (wideTemplate.map (·.type))
      (getRealNodeSize wideTemplate.length) (wideValues last) = 1 := by
    rw [addRecords, List.sum_eq_zero]
    intro records member
    obtain ⟨position, -, rfl⟩ := List.mem_map.mp member
    exact if_neg (wide_not_string position)
  have start : metaSize + (templateBytes wideTemplate).length = 420 := by
    decide +kernel
  have record : getRealNodeSize wideTemplate.length + nodeHeadSize = 272 := by
    decide
  rw [one, start, record]
  omega

theorem exists_wide (last : UInt64) : ∃ img nodes file,
    Copies wideSpecs wideTemplate (wideValues last) 33 img nodes file := by
  apply exists_copies _ (shortValues_wide last) (wide_room le_rfl)
  apply copies_zero (by decide) _ createdFile_wide _ (by decide +kernel)
  · intro spec member
    rw [List.eq_of_mem_replicate member]
    exact singleSpec_fits _
  · refine emptySchema_valid (fun info member => ?_) (by decide)
    rw [List.eq_of_mem_replicate member]
    exact ⟨by decide, by decide, by decide, rfl⟩

/-- The thirty-fourth node makes the id array grow. -/
theorem Copies.wide_grows
    (copies : Copies wideSpecs wideTemplate (wideValues last) 33 img nodes file) :
    idUnit img.templateSize ∣ img.curId + 1 := by
  rw [copies.size_eq, copies.count_eq]
  decide

/-- Growth then moves a tuple. -/
theorem Copies.exists_moved_tuple
    (copies : Copies wideSpecs wideTemplate (wideValues last) 33 img nodes file) :
    ∃ record, RecordAt file img.schema img.schema.arrayEnd record ∧
      img.schema.root[record.header.allocNode]? = some img.schema.arrayEnd ∧
      record.word 30 = last.toNat := by
  have store := copies.store
  obtain ⟨arrayEnd, id, node, found, owner⟩ :=
    store.exists_moved copies.wide_grows
  have nodeAt := store.layout.nodeAt id node found
  have number (position : Nat) (chain : List (Nat × List UInt8)) :
      node.fields[position]? ≠ some (.str chain) := by
    intro field
    have typed := (nodeAt.fieldsAt.typed _ _ field).mpr ⟨chain, rfl⟩
    rw [copies.types_eq] at typed
    exact wide_not_string position typed
  have noChain : node.chainSlots = [] := by
    apply List.flatMap_eq_nil_iff.mpr
    intro field member
    obtain ⟨position, here⟩ := List.getElem?_of_mem member
    cases field with
    | num word => rfl
    | str chain => exact absurd here (number position chain)
  rw [NodeImage.slots, noChain, List.nil_append, List.mem_singleton] at owner
  obtain ⟨record, known, tupleAt⟩ := nodeAt.tuple
  rw [← owner] at known
  refine ⟨record, arrayEnd ▸ store.recordAt known, ?_, ?_⟩
  · rw [tupleAt.header, arrayEnd, owner]
    exact store.root id node found
  · have count : node.fields.length = 31 := by
      rw [nodeAt.fieldsAt.count, copies.types_eq]
      rfl
    obtain ⟨field, here⟩ : ∃ field, node.fields[30]? = some field :=
      ⟨_, List.getElem?_eq_getElem (by omega)⟩
    have stored := copies.stores node (List.mem_of_getElem? found) 30 field
      ⟨last, []⟩ here rfl
    rw [tupleAt.words 30 field here]
    cases field with
    | num word => exact stored
    | str chain => exact absurd here (number 30 chain)

/-- Growth at the thirty-fourth node keeps the last word if it is zero. -/
theorem Copies.lossless_iff
    (copies : Copies wideSpecs wideTemplate (wideValues last) 33 img nodes file) :
    GrowthLossless file img.schema ↔ last = 0 := by
  obtain ⟨record, here, registered, word⟩ := copies.exists_moved_tuple
  have size : img.schema.realSize = 256 := by
    rw [TreeSchema.realSize, show img.schema.treeMeta.templateSize = _ from
      copies.size_eq]
    decide
  have types : img.schema.types.length = 31 := by
    rw [TreeSchema.types, copies.template_eq]
    rfl
  have zero : last = 0 ↔ record.word 30 = 0 := by
    rw [word]
    exact UInt64.toNat_inj.symm
  rw [zero]
  constructor
  · intro lossless
    have kept := lossless copies.wide_grows record here
    rw [Lossless, if_pos registered, size, types] at kept
    exact kept 30 (by decide) (by decide)
  · intro kept _ record' here'
    obtain rfl := here.unique here'
    rw [Lossless, if_pos registered, size, types]
    intro position small short
    obtain rfl : position = 30 := by
      simp only [nodeHeadSize] at short
      omega
    exact kept

/-- The thirty-fourth node moves an old one, and takes nothing away from it if
its last number is zero. -/
theorem addNode_keepsNodes_zero : ∃ file schema,
    (SchemaAt file schema ∧ (∀ id < 33, ∃ offset, LiveAt schema id offset) ∧
      idUnit schema.treeMeta.templateSize ∣ schema.treeMeta.curId + 1) ∧
    wp (addNode (wideValues 0) 0) (fun status final => status = .success ∧
      KeepsNodes file final.file) (blankWorld file) := by
  obtain ⟨img, nodes, file, copies⟩ := exists_wide 0
  have fits := copies.addFits (shortValues_wide 0) (wide_room (by decide))
  refine ⟨file, img.schema, ⟨copies.store.schemaAt, ?_, copies.wide_grows⟩, ?_⟩
  · intro id small
    obtain ⟨node, found⟩ := copies.store.exists_node (copies.count_eq ▸ small)
    exact ⟨_, copies.store.liveAt found⟩
  apply wp_mono (@addNode_keepsNodes _ (blankWorld file) _ _ 0 copies.reached
    copies.store.schemaAt fits)
  rintro status final ⟨success, keeps⟩
  exact ⟨success, keeps.mpr (copies.lossless_iff.mpr rfl)⟩

theorem AddsFit.proper {op : Op} {file : List UInt8} (fits : AddsFit op file) :
    AddsProper op file := by
  cases op with
  | add values parent =>
      obtain ⟨schema, stored, fits⟩ := fits
      exact ⟨schema, stored, fits.storable.complete,
        fun position value string given =>
          (fits.storable.terminated position value string given).1⟩
  | update => exact fits
  | remove => exact fits

/-- The thirty-fourth node of thirty-one sevens takes the last seven of an old
one away. -/
theorem addNode_not_keepsNodes :
    ¬ ∀ (specs : List AttributeSpec) (file : List UInt8),
      Reached specs AddsProper file → ∀ (world : World) (schema : TreeSchema)
        (values : List Slot) (parent : UInt64), world.file = file →
          SchemaAt file schema → ProperValues schema values →
            wp (addNode values parent) (fun _ final =>
              KeepsNodes file final.file) world := by
  intro always
  obtain ⟨img, nodes, file, copies⟩ := exists_wide 7
  have fits := copies.addFits (shortValues_wide 7) (wide_room (by decide))
  have proper : ProperValues img.schema (wideValues 7) := by
    refine ⟨fits.storable.complete, fun position value string => ?_⟩
    rw [TreeSchema.types, copies.template_eq] at string
    exact absurd string (wide_not_string position)
  have keeps := always wideSpecs file
    (copies.reached.mono fun _ _ => AddsFit.proper) (blankWorld file)
    img.schema (wideValues 7) 0 rfl copies.store.schemaAt proper
  have added := @StoreAt.add _ _ (blankWorld file) (wideValues 7) 0 copies.store
    fits
  obtain ⟨_, final, -, kept, -, stored⟩ := wp_and keeps added
  have lossless := (stored.keepsNodes_iff copies.store fits).mp kept
  exact absurd (copies.lossless_iff.mp lossless) (by decide)

end Wide

end TreeStore
