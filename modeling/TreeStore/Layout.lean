import TreeStore.StringRecords

/-!
# The layout of a healthy store

A node of the store is a tuple record together with the chains of its STRING
fields.  A layout lists the nodes by id, says where their records lie, and
demands that no record is used twice and that every record behind the reserved
slots is used.
-/

namespace TreeStore

open ByteFile ProgramLogic LinkedRecords

/-- A field of a stored node: a number, or a string with the slots and data of
its records. -/
inductive FieldImage
  | num (word : Nat)
  | str (chain : List (Nat × List UInt8))

/-- A stored node: the slot of its tuple record, its parent and its fields. -/
structure NodeImage where
  slot : Nat
  parent : Nat
  fields : List FieldImage

namespace FieldImage

/-- The word that the tuple holds for a field. -/
def word (address : Nat → Nat) : FieldImage → Nat
  | num word => word
  | str chain => link address chain

/-- The slots of a field's string records. -/
def slots : FieldImage → List Nat
  | num _ => []
  | str chain => chain.map Prod.fst

/-- What `getNode` delivers for a field. -/
def value (realSize : Nat) : FieldImage → FieldValue
  | num word => .word word
  | str chain => .text (assemble realSize chain)

end FieldImage

namespace NodeImage

/-- The slots of all string records of a node. -/
def chainSlots (node : NodeImage) : List Nat :=
  node.fields.flatMap FieldImage.slots

/-- All slots of a node. -/
def slots (node : NodeImage) : List Nat :=
  node.chainSlots ++ [node.slot]

/-- What `getNode` delivers for a node. -/
def values (realSize : Nat) (node : NodeImage) : List FieldValue :=
  node.fields.map (FieldImage.value realSize)

theorem chain_slots_subset {node : NodeImage}
    {chain : List (Nat × List UInt8)} (member : FieldImage.str chain ∈ node.fields)
    {slot : Nat} (inside : slot ∈ chain.map Prod.fst) :
    slot ∈ node.chainSlots :=
  List.mem_flatMap.mpr ⟨_, member, inside⟩

end NodeImage

/-- A tuple record with the given parent, id and fields. -/
structure TupleAt (address : Nat → Nat) (record : KeyNode) (parent id : Nat)
    (fields : List FieldImage) : Prop where
  header : record.header = ⟨parent, id⟩
  words : ∀ (position : Nat) (field : FieldImage),
    fields[position]? = some field →
    record.word position = field.word address

/-- The fields fit the types, and each string is a chain in memory whose first
record points back to `owner`. -/
structure FieldsAt (address : Nat → Nat) (recs : Nat → Option KeyNode)
    (types : List Nat) (owner : Nat) (fields : List FieldImage) : Prop where
  count : fields.length = types.length
  typed : ∀ (position : Nat) (field : FieldImage),
    fields[position]? = some field →
      (types[position]? = some STRING ↔ ∃ chain, field = .str chain)
  chains : ∀ chain, FieldImage.str chain ∈ fields →
    chain ≠ [] ∧ Chain stringRecord address recs owner chain

/-- The records in memory are those of a node with this id. -/
structure NodeAt (address : Nat → Nat) (recs : Nat → Option KeyNode)
    (types : List Nat) (id : Nat) (node : NodeImage) : Prop where
  tuple : ∃ record, recs node.slot = some record ∧
    TupleAt address record node.parent id node.fields
  fieldsAt : FieldsAt address recs types (address node.slot) node.fields

/-- The nodes of a store: node `id` of the list has this id, all their slots
differ, and they are exactly the slots from `reserved` to `top`. -/
structure Layout (address : Nat → Nat) (recs : Nat → Option KeyNode)
    (types : List Nat) (reserved top : Nat) (nodes : List NodeImage) :
    Prop where
  nodeAt : ∀ (id : Nat) (node : NodeImage), nodes[id]? = some node →
    NodeAt address recs types id node
  nodup : (nodes.flatMap NodeImage.slots).Nodup
  covers : ∀ slot, slot ∈ nodes.flatMap NodeImage.slots ↔
    reserved ≤ slot ∧ slot < top

section Fields

variable {address : Nat → Nat} {recs other : Nat → Option KeyNode}
  {types : List Nat} {owner id : Nat} {node : NodeImage}
  {fields : List FieldImage}

theorem FieldsAt.field_of_string
    (fieldsAt : FieldsAt address recs types owner fields) {position : Nat}
    (string : types[position]? = some STRING) :
    ∃ chain, fields[position]? = some (.str chain) := by
  obtain ⟨inside, -⟩ := List.getElem?_eq_some_iff.mp string
  have found := List.getElem?_eq_getElem (fieldsAt.count ▸ inside)
  obtain ⟨chain, isString⟩ := (fieldsAt.typed _ _ found).mp string
  exact ⟨chain, by rw [found, isString]⟩

theorem FieldsAt.field_of_not_string
    (fieldsAt : FieldsAt address recs types owner fields) {position : Nat}
    (inside : position < types.length)
    (number : types[position]? ≠ some STRING) :
    ∃ word, fields[position]? = some (.num word) := by
  obtain ⟨field, found⟩ : ∃ field, fields[position]? = some field :=
    ⟨_, List.getElem?_eq_getElem (fieldsAt.count ▸ inside)⟩
  cases field with
  | num word => exact ⟨word, found⟩
  | str chain => exact absurd ((fieldsAt.typed _ _ found).mpr ⟨chain, rfl⟩) number

/-- Fields only depend on the memory at the slots of their strings. -/
theorem FieldsAt.frame
    (fieldsAt : FieldsAt address recs types owner fields)
    (agree : ∀ slot ∈ fields.flatMap FieldImage.slots,
      other slot = recs slot) :
    FieldsAt address other types owner fields := by
  refine ⟨fieldsAt.count, fieldsAt.typed, fun chain member => ?_⟩
  obtain ⟨nonempty, linked⟩ := fieldsAt.chains chain member
  exact ⟨nonempty, linked.frame fun slot inside =>
    agree slot (List.mem_flatMap.mpr ⟨_, member, inside⟩)⟩

/-- A node only depends on the memory at its own slots. -/
theorem NodeAt.frame (nodeAt : NodeAt address recs types id node)
    (agree : ∀ slot ∈ node.slots, other slot = recs slot) :
    NodeAt address other types id node := by
  refine ⟨?_, nodeAt.fieldsAt.frame fun slot inside =>
    agree slot (List.mem_append_left _ inside)⟩
  obtain ⟨record, known, tupleAt⟩ := nodeAt.tuple
  refine ⟨record, ?_, tupleAt⟩
  rw [agree node.slot (by simp [NodeImage.slots]), known]

/-- Every slot of a string holds a string record. -/
theorem FieldsAt.exists_stringRecord
    (fieldsAt : FieldsAt address recs types owner fields) {slot : Nat}
    (member : slot ∈ fields.flatMap FieldImage.slots) :
    ∃ before after data, recs slot = some (stringRecord before after data) := by
  obtain ⟨field, fieldMember, inside⟩ := List.mem_flatMap.mp member
  cases field with
  | num word => simp [FieldImage.slots] at inside
  | str chain =>
      obtain ⟨⟨_, data⟩, entry, rfl⟩ := List.mem_map.mp inside
      obtain ⟨before, after, known, -⟩ :=
        (fieldsAt.chains chain fieldMember).2.exists_cell entry
      exact ⟨before, after, data, known⟩

/-- Every slot of a node holds a known record. -/
theorem NodeAt.exists_record (nodeAt : NodeAt address recs types id node)
    {slot : Nat} (member : slot ∈ node.slots) :
    ∃ record, recs slot = some record := by
  rcases List.mem_append.mp member with string | tuple
  · obtain ⟨_, _, _, known⟩ := nodeAt.fieldsAt.exists_stringRecord string
    exact ⟨_, known⟩
  · rw [List.mem_singleton.mp tuple]
    obtain ⟨record, known, -⟩ := nodeAt.tuple
    exact ⟨record, known⟩

/-- Strings at different positions share no slot. -/
theorem slots_disjoint (nodup : (fields.flatMap FieldImage.slots).Nodup)
    {first second : Nat} {field field' : FieldImage} (different : first ≠ second)
    (firstField : fields[first]? = some field)
    (secondField : fields[second]? = some field') :
    List.Disjoint field.slots field'.slots := by
  obtain ⟨-, pairwise⟩ := List.nodup_flatMap.mp nodup
  obtain ⟨firstInside, rfl⟩ := List.getElem?_eq_some_iff.mp firstField
  obtain ⟨secondInside, rfl⟩ := List.getElem?_eq_some_iff.mp secondField
  have ordered := List.pairwise_iff_getElem.mp pairwise
  rcases Nat.lt_or_gt_of_ne different with less | greater
  · exact ordered _ _ firstInside secondInside less
  · exact (ordered _ _ secondInside firstInside greater).symm

end Fields

namespace Image

variable {img : Image} {world : World} {fields : List FieldImage}
  {previous : Nat}

theorem Holds.types_length {file : List UInt8} (holds : img.Holds file) :
    img.types.length = img.templateSize := by
  simp [types, templateSize, holds.valid.template_length]

/-- `linkSton` makes the head of every string of a tuple point back to
`offset`, and touches no other record. -/
theorem Holds.wp_linkSton {node : KeyNode} {offset : Nat}
    {post : CrudStatus → World → Prop} (holds : img.Holds world.file)
    (fieldsAt : FieldsAt img.slotOffset img.recs img.types previous fields)
    (words : ∀ (position : Nat) (field : FieldImage),
      fields[position]? = some field →
        node.word position = field.word img.slotOffset)
    (nodup : (fields.flatMap FieldImage.slots).Nodup) (small : offset < 2 ^ 64)
    (next : ∀ recs file pos blocks,
      Holds { img with recs := recs } file →
      (∀ slot, slot ∉ fields.flatMap FieldImage.slots →
        recs slot = img.recs slot) →
      FieldsAt img.slotOffset recs img.types offset fields →
      post .success
        { world with file := file, pos := pos, blocks := blocks }) :
    wp (linkSton node offset) post world := by
  rw [linkSton, wp_bind]
  refine holds.wp_getTypes fun blocks => ?_
  rw [wp_bind]
  -- after `index` rounds the heads of the first `index` fields are relinked
  refine wp_mono (wp_forM_range (fun index middle => ∃ recs file pos blocks,
    middle = { world with file := file, pos := pos, blocks := blocks } ∧
    Holds { img with recs := recs } file ∧
    (∀ slot, slot ∉ fields.flatMap FieldImage.slots →
      recs slot = img.recs slot) ∧
    ∀ position chain, fields[position]? = some (.str chain) →
      Chain stringRecord img.slotOffset recs
        (if position < index then offset else previous) chain)
    img.templateSize ?_ ?_) ?_
  · refine ⟨img.recs, world.file, _, blocks, rfl, holds, fun _ _ => rfl, ?_⟩
    intro position chain found
    rw [if_neg (Nat.not_lt_zero _)]
    exact (fieldsAt.chains chain (List.mem_of_getElem? found)).2
  · rintro index small' _ ⟨recs, file, pos, blocks, rfl, kept, frame, linked⟩
    by_cases string : img.types[index]? = some STRING
    · rw [if_pos string]
      obtain ⟨chain, found⟩ := fieldsAt.field_of_string string
      obtain ⟨⟨slot, data⟩, rest, rfl⟩ := List.exists_cons_of_ne_nil
        (fieldsAt.chains chain (List.mem_of_getElem? found)).1
      have whole := linked index _ found
      rw [if_neg (Nat.lt_irrefl _)] at whole
      have known : recs slot =
          some (stringRecord previous (link img.slotOffset rest) data) :=
        whole.1
      have inside := (kept.record _ _ known).2.1
      have fits := (kept.record _ _ known).2.2.1
      have distinct : (slot :: rest.map Prod.fst).Nodup :=
        (List.nodup_flatMap.mp nodup).1 _ (List.mem_of_getElem? found)
      have wordEq : node.word index = img.slotOffset slot :=
        words _ _ found
      rw [wordEq, wp_bind]
      refine kept.wp_seek inside.le rfl ?_
      rw [wp_bind]
      refine kept.wp_readNode_template known (by rfl) (by rfl) ?_
      intro read status pos blocks started long
      rw [wp_bind]
      refine kept.wp_seek inside.le rfl ?_
      have short : img.templateSize ≤ img.realSize :=
        le_getRealNodeSize _
      rw [wp_bind]
      refine kept.wp_writeNode known (by rfl) (Nat.zero_lt_of_lt small')
        (by exact short) (by exact ⟨small, fits.allocNode⟩)
        (by exact le_trans short long) fun file blocks written => ?_
      rw [wp_pure]
      have same : read.take img.templateSize ++
          data.drop img.templateSize = data := by
        have begins : read.take img.templateSize =
            data.take img.templateSize := by
          calc
            read.take img.templateSize =
                (read.take img.realSize).take img.templateSize := by
              rw [List.take_take, Nat.min_eq_left short]
            _ = data.take img.templateSize :=
              congrArg (List.take img.templateSize) started
        rw [begins, List.take_append_drop]
      have updated : Holds (Image.mk img.schema img.top (Function.update recs
          slot (some (stringRecord offset (link img.slotOffset rest) data))))
            file := by
        have record : stringRecord offset (link img.slotOffset rest) data =
            ⟨⟨offset, link img.slotOffset rest⟩,
              read.take img.templateSize ++ data.drop img.templateSize⟩ := by
          rw [same]
          rfl
        rw [record]
        exact written
      refine ⟨_, file, _, blocks, rfl, updated, ?_, ?_⟩
      · intro other outside
        have : other ≠ slot := by
          rintro rfl
          exact outside (List.mem_flatMap.mpr
            ⟨_, List.mem_of_getElem? found, by simp [FieldImage.slots]⟩)
        rw [Function.update_of_ne this, frame other outside]
      · intro position chain' found'
        by_cases here : position = index
        · subst here
          rw [found] at found'
          cases found'
          rw [if_pos (Nat.lt_succ_self _)]
          exact whole.set_head (List.nodup_cons.mp distinct).1 _ _
        · have apart := slots_disjoint nodup here found' found
          have same : (if position < index + 1 then offset else previous) =
              if position < index then offset else previous :=
            if_congr (by omega) rfl rfl
          rw [same]
          refine (linked position chain' found').update_of_notMem ?_ _
          exact fun member => apart member (by simp [FieldImage.slots])
    · rw [if_neg string, wp_pure]
      refine ⟨recs, file, pos, blocks, rfl, kept, frame, ?_⟩
      intro position chain found
      have notHere : position ≠ index := by
        rintro rfl
        exact string ((fieldsAt.typed _ _ found).mpr ⟨chain, rfl⟩)
      have same : (if position < index + 1 then offset else previous) =
          if position < index then offset else previous :=
        if_congr (by omega) rfl rfl
      rw [same]
      exact linked position chain found
  · rintro _ _ ⟨recs, file, pos, blocks, rfl, kept, frame, linked⟩
    rw [wp_pure]
    refine next recs file pos blocks kept frame
      ⟨fieldsAt.count, fieldsAt.typed, fun chain member => ?_⟩
    obtain ⟨position, inside, found⟩ := List.mem_iff_getElem.mp member
    have whole := linked position chain (List.getElem?_eq_some_iff.mpr
      ⟨inside, found⟩)
    rw [if_pos (by rw [← holds.types_length, ← fieldsAt.count]; exact inside)]
      at whole
    exact ⟨(fieldsAt.chains chain member).1, whole⟩

/-- The number of slots that the id array takes after the next addition. -/
abbrev reserved (img : Image) : Nat :=
  idRecords img.templateSize (img.curId + 1)

end Image

/-- The entries from `curId` on, as far as the first record of the id array
reaches, are zero. -/
def FreshFrom (img : Image) (curId : Nat) : Prop :=
  ∀ id, curId ≤ id → id < idUnit img.templateSize →
    img.schema.root[id]? = some 0

/-- A healthy store: every id below the counter is registered with the offset
of its tuple, the records are laid out as `nodes` says, and as long as the id
array takes one record, the entries above the counter are zero. -/
structure StoreAt (img : Image) (nodes : List NodeImage)
    (file : List UInt8) : Prop where
  holds : img.Holds file
  layout : Layout img.slotOffset img.recs img.types img.reserved img.top nodes
  count : nodes.length = img.curId
  root : ∀ (id : Nat) (node : NodeImage), nodes[id]? = some node →
    img.schema.root[id]? = some (img.slotOffset node.slot)
  fresh : FreshFrom img img.curId

/-- A live node, in a file that may hold dead ids and free slots besides: the id
array leads to its tuple, and its records differ. -/
structure LiveNode (img : Image) (id : Nat) (node : NodeImage)
    (file : List UInt8) : Prop where
  holds : img.Holds file
  entry : img.schema.root[id]? = some (img.slotOffset node.slot)
  nodeAt : NodeAt img.slotOffset img.recs img.types id node
  nodup : node.slots.Nodup

section Reading

variable {img : Image} {nodes : List NodeImage} {world : World} {id : Nat}
  {node : NodeImage}

theorem Layout.slot_lt {address : Nat → Nat} {recs : Nat → Option KeyNode}
    {types : List Nat} {reserved top : Nat}
    (layout : Layout address recs types reserved top nodes)
    (member : node ∈ nodes) {slot : Nat} (inside : slot ∈ node.slots) :
    reserved ≤ slot ∧ slot < top :=
  (layout.covers slot).mp (List.mem_flatMap.mpr ⟨node, member, inside⟩)

theorem Layout.node_nodup {address : Nat → Nat} {recs : Nat → Option KeyNode}
    {types : List Nat} {reserved top : Nat}
    (layout : Layout address recs types reserved top nodes)
    (member : node ∈ nodes) : node.slots.Nodup :=
  (List.nodup_flatMap.mp layout.nodup).1 node member

/-- Every node of a store is live. -/
theorem StoreAt.liveNode {file : List UInt8} (store : StoreAt img nodes file)
    (found : nodes[id]? = some node) : LiveNode img id node file where
  holds := store.holds
  entry := store.root id node found
  nodeAt := store.layout.nodeAt id node found
  nodup := store.layout.node_nodup (List.mem_of_getElem? found)

/-- The slots of a live node lie in the file. -/
theorem LiveNode.slot_lt {file : List UInt8} (live : LiveNode img id node file)
    {slot : Nat} (inside : slot ∈ node.slots) : slot < img.top := by
  obtain ⟨record, known⟩ := live.nodeAt.exists_record inside
  exact (live.holds.record slot record known).2.1

/-- The strings of a live node are chains with different slots. -/
theorem LiveNode.string {file : List UInt8} (live : LiveNode img id node file)
    {chain : List (Nat × List UInt8)}
    (string : FieldImage.str chain ∈ node.fields) :
    chain ≠ [] ∧ Chain stringRecord img.slotOffset img.recs
      (img.slotOffset node.slot) chain ∧ (chain.map Prod.fst).Nodup := by
  obtain ⟨nonempty, linked⟩ := live.nodeAt.fieldsAt.chains chain string
  exact ⟨nonempty, linked,
    (List.nodup_flatMap.mp (List.nodup_append.mp live.nodup).1).1 _ string⟩

/-- No chain has more records than the file has slots. -/
theorem LiveNode.chain_length_le {file : List UInt8}
    (live : LiveNode img id node file) {chain : List (Nat × List UInt8)}
    (string : FieldImage.str chain ∈ node.fields) :
    chain.length ≤ img.top := by
  obtain ⟨-, linked, distinct⟩ := live.string string
  exact live.holds.chain_length_le linked distinct

/-- A registered id resolves to the offset of its tuple. -/
theorem LiveNode.wp_convItoO {offset : Nat}
    {post : CrudStatus × Nat → World → Prop}
    (live : LiveNode img id node world.file)
    (next : ∀ pos blocks, post (.success, img.slotOffset node.slot)
      { world with pos := pos, blocks := blocks }) :
    wp (convItoO id offset) post world := by
  rw [convItoO, wp_bind, wp_fseekSet, if_pos le_rfl, wp_bind]
  have here : img.Holds { world with pos := (0 : Int).toNat }.file :=
    live.holds
  refine here.wp_readTreeSchema fun blocks => ?_
  rw [wp_bind]
  refine wp_index live.entry ?_
  have notZero : img.slotOffset node.slot ≠ 0 :=
    Nat.ne_of_gt img.slotOffset_pos
  rw [if_neg notZero, wp_pure]
  exact next _ blocks

/-- `getNode` on a registered id delivers the fields of its node. -/
theorem LiveNode.wp_getNode {fuel : Nat}
    {post : Option (List FieldValue) → World → Prop}
    (live : LiveNode img id node world.file) (enough : img.top ≤ fuel)
    (next : ∀ pos blocks, post (some (node.values img.realSize))
      { world with pos := pos, blocks := blocks }) :
    wp (getNode fuel id) post world := by
  have nodeAt := live.nodeAt
  obtain ⟨record, known, tupleAt⟩ := nodeAt.tuple
  have inside := (live.holds.record _ _ known).2.1
  rw [getNode, wp_bind]
  refine wp_unsetWord fun word blocks => ?_
  rw [wp_bind]
  refine LiveNode.wp_convItoO (by exact live) fun pos blocks => ?_
  simp only [reduceCtorEq, if_false]
  rw [wp_bind]
  refine Image.Holds.wp_getTypes (by exact live.holds) fun blocks => ?_
  rw [wp_bind]
  refine Image.Holds.wp_seek (by exact live.holds) inside.le rfl ?_
  rw [wp_bind]
  refine Image.Holds.wp_readNode_template (by exact live.holds) known rfl rfl ?_
  intro read status pos blocks started long
  rw [wp_bind]
  -- after `index` rounds the values of the first `index` fields are there
  refine wp_mono (wp_foldlM_range (fun index values middle =>
    values = (node.fields.take index).map (FieldImage.value img.realSize) ∧
    ∃ pos blocks, middle = { world with pos := pos, blocks := blocks })
    img.templateSize ⟨rfl, pos, blocks, rfl⟩ ?_) ?_
  · rintro index small _ _ ⟨rfl, pos, blocks, rfl⟩
    have wordEq (field : FieldImage) (here : node.fields[index]? = some field) :
        (KeyNode.mk record.header read).word index =
          field.word img.slotOffset := by
      have fieldInside : 8 * index + 8 ≤ img.realSize := by
        have := mul_le_getRealNodeSize img.templateSize
        simp only [Image.realSize]
        omega
      rw [Image.word_of_take started fieldInside]
      exact tupleAt.words index field here
    have advance (field : FieldImage)
        (here : node.fields[index]? = some field) :
        (node.fields.take index).map (FieldImage.value img.realSize) ++
            [field.value img.realSize] =
          (node.fields.take (index + 1)).map
            (FieldImage.value img.realSize) := by
      rw [List.take_add_one, here]
      simp
    by_cases string : img.types[index]? = some STRING
    · rw [if_pos string, wp_bind]
      obtain ⟨chain, here⟩ := nodeAt.fieldsAt.field_of_string string
      have chainMember := List.mem_of_getElem? here
      obtain ⟨nonempty, linked⟩ := nodeAt.fieldsAt.chains chain chainMember
      have short := live.chain_length_le chainMember
      rw [wordEq _ here]
      refine Image.Holds.wp_readStringFromNode (by exact live.holds) linked.leads
        nonempty (le_trans short enough) fun pos blocks => ?_
      rw [wp_pure]
      exact ⟨advance _ here, pos, blocks, rfl⟩
    · rw [if_neg string, wp_pure]
      obtain ⟨word, here⟩ := nodeAt.fieldsAt.field_of_not_string
        (by rw [live.holds.types_length]; exact small) string
      rw [wordEq _ here]
      exact ⟨advance _ here, pos, blocks, rfl⟩
  · rintro _ _ ⟨rfl, pos, blocks, rfl⟩
    rw [wp_pure, List.take_of_length_le
      (by rw [nodeAt.fieldsAt.count, live.holds.types_length])]
    exact next pos blocks

theorem StoreAt.wp_getNode {fuel : Nat}
    {post : Option (List FieldValue) → World → Prop}
    (store : StoreAt img nodes world.file) (found : nodes[id]? = some node)
    (enough : img.top ≤ fuel)
    (next : ∀ pos blocks, post (some (node.values img.realSize))
      { world with pos := pos, blocks := blocks }) :
    wp (getNode fuel id) post world :=
  (store.liveNode found).wp_getNode enough next

end Reading

end TreeStore
