import TreeStore.Relocation

/-!
# Growth of the id array

When the id array is full, `appendToIdArray` moves the first data record to the
end of the file.  The layout after the move lists the same nodes, with that one
record in its new slot.
-/

namespace TreeStore

open ByteFile ProgramLogic LinkedRecords

/-- A field after the record in `source` has moved to `target`.  A moved tuple
loses the words that were not copied. -/
def FieldImage.relocate (realSize source target slot position : Nat) :
    FieldImage → FieldImage
  | .num word => .num
      (if slot = source ∧ realSize < 8 * position + 8 + nodeHeadSize then 0
        else word)
  | .str chain =>
      .str (LinkedRecords.relocate source target (cutData realSize) chain)

/-- A node after the record in `source` has moved to `target`. -/
def NodeImage.relocate (realSize source target : Nat) (node : NodeImage) :
    NodeImage where
  slot := move source target node.slot
  parent := node.parent
  fields := node.fields.mapIdx
    (FieldImage.relocate realSize source target node.slot)

/-- A field after the record in `source` has moved to `target` with all its
words; `change` says what became of the data of a string record. -/
def FieldImage.moveRecord (change : List UInt8 → List UInt8)
    (source target : Nat) : FieldImage → FieldImage
  | .num word => .num word
  | .str chain => .str (LinkedRecords.relocate source target change chain)

/-- A node after the record in `source` has moved to `target` with all its
words. -/
def NodeImage.moveRecord (change : List UInt8 → List UInt8)
    (source target : Nat) (node : NodeImage) : NodeImage where
  slot := move source target node.slot
  parent := node.parent
  fields := node.fields.map (FieldImage.moveRecord change source target)

section Slots

variable {realSize source target : Nat} {node : NodeImage}

theorem FieldImage.relocate_slots (slot position : Nat) (field : FieldImage) :
    (field.relocate realSize source target slot position).slots =
      field.slots.map (move source target) := by
  cases field with
  | num word => rfl
  | str chain => simp [FieldImage.relocate, FieldImage.slots]

theorem NodeImage.relocate_chainSlots :
    (node.relocate realSize source target).chainSlots =
      node.chainSlots.map (move source target) := by
  simp only [NodeImage.chainSlots, NodeImage.relocate]
  generalize node.slot = slot
  induction node.fields using List.reverseRecOn with
  | nil => rfl
  | append_singleton fields field ih =>
      rw [List.mapIdx_concat, List.flatMap_append, List.flatMap_append,
        List.map_append, ih]
      simp [FieldImage.relocate_slots]

theorem NodeImage.relocate_slots :
    (node.relocate realSize source target).slots =
      node.slots.map (move source target) := by
  rw [NodeImage.slots, NodeImage.relocate_chainSlots, NodeImage.slots,
    List.map_append]
  rfl

theorem FieldImage.relocate_of_notMem {slot : Nat} {field : FieldImage}
    (position : Nat) (notTuple : slot ≠ source)
    (absent : source ∉ field.slots) :
    field.relocate realSize source target slot position = field := by
  cases field with
  | num word => simp [FieldImage.relocate, notTuple]
  | str chain =>
      rw [FieldImage.relocate, LinkedRecords.relocate_of_notMem absent]

/-- A node that does not use the moved slot stays as it is. -/
theorem NodeImage.relocate_of_notMem (outside : source ∉ node.slots) :
    node.relocate realSize source target = node := by
  have notTuple : node.slot ≠ source := by
    rintro rfl
    exact outside (by simp [NodeImage.slots])
  have sameFields : node.fields.mapIdx
      (FieldImage.relocate realSize source target node.slot) =
        node.fields := by
    rw [List.mapIdx_eq_iff]
    intro position
    cases found : node.fields[position]? with
    | none => rfl
    | some field =>
        have absent : source ∉ field.slots := fun member =>
          outside (List.mem_append_left _ (List.mem_flatMap.mpr
            ⟨field, List.mem_of_getElem? found, member⟩))
        rw [Option.map_some,
          FieldImage.relocate_of_notMem position notTuple absent]
  cases node
  simp only [NodeImage.relocate] at sameFields ⊢
  rw [sameFields, move_of_ne notTuple]

/-- A node whose tuple stays keeps all its words. -/
theorem NodeImage.relocate_eq (stays : node.slot ≠ source) :
    node.relocate realSize source target =
      node.moveRecord (cutData realSize) source target := by
  have sameField (position : Nat) (field : FieldImage) :
      field.relocate realSize source target node.slot position =
        field.moveRecord (cutData realSize) source target := by
    cases field with
    | num word => simp [FieldImage.relocate, FieldImage.moveRecord, stays]
    | str chain => rfl
  have sameFields : node.fields.mapIdx
      (FieldImage.relocate realSize source target node.slot) =
        node.fields.map
          (FieldImage.moveRecord (cutData realSize) source target) := by
    rw [List.mapIdx_eq_iff]
    intro position
    rw [List.getElem?_map]
    cases node.fields[position]? with
    | none => rfl
    | some field => rw [Option.map_some, Option.map_some, sameField]
  rw [NodeImage.relocate, NodeImage.moveRecord, sameFields]

end Slots

section Memory

variable {address : Nat → Nat} {recs other : Nat → Option KeyNode}
  {types : List Nat} {realSize reserved top id : Nat} {node : NodeImage}
  {nodes : List NodeImage}

/-- The layout after the first record has moved behind the last one. -/
theorem Layout.relocate (layout : Layout address recs types reserved top nodes)
    (inside : reserved < top)
    (nodeAt : ∀ (id : Nat) (node : NodeImage), nodes[id]? = some node →
      NodeAt address other types id (node.relocate realSize reserved top)) :
    Layout address other types (reserved + 1) (top + 1)
      (nodes.map (NodeImage.relocate realSize reserved top)) := by
  have slotsEq : (nodes.map (NodeImage.relocate realSize reserved top)).flatMap
      NodeImage.slots =
        (nodes.flatMap NodeImage.slots).map (move reserved top) := by
    rw [List.flatMap_map, List.map_flatMap]
    exact List.flatMap_congr fun node _ => NodeImage.relocate_slots
  refine ⟨?_, ?_, ?_⟩
  · intro id node found
    rw [List.getElem?_map] at found
    obtain ⟨old, oldFound, rfl⟩ := Option.map_eq_some_iff.mp found
    exact nodeAt id old oldFound
  · rw [slotsEq]
    refine List.Nodup.map_on ?_ layout.nodup
    intro first firstMember second secondMember same
    have firstBounds := (layout.covers first).mp firstMember
    have secondBounds := (layout.covers second).mp secondMember
    exact move_inj firstBounds.2.ne secondBounds.2.ne same
  · intro slot
    rw [slotsEq, List.mem_map]
    constructor
    · rintro ⟨old, member, rfl⟩
      have bounds := (layout.covers old).mp member
      simp only [move]
      split_ifs <;> omega
    · rintro ⟨above, below⟩
      by_cases last : slot = top
      · exact ⟨reserved, (layout.covers _).mpr ⟨le_rfl, inside⟩, by simp [last]⟩
      · exact ⟨slot, (layout.covers _).mpr ⟨by omega, by omega⟩,
          move_of_ne (by omega)⟩

/-- A node whose tuple and strings stand where the move puts them. -/
theorem NodeAt.relocate {source target : Nat}
    (nodeAt : NodeAt address recs types id node)
    (tuple : ∃ record, other (move source target node.slot) = some record ∧
      TupleAt address record node.parent id
        (node.relocate realSize source target).fields)
    (chains : ∀ chain, FieldImage.str chain ∈ node.fields →
      Chain stringRecord address other (address (move source target node.slot))
        (LinkedRecords.relocate source target (cutData realSize) chain)) :
    NodeAt address other types id (node.relocate realSize source target) := by
  refine ⟨tuple, ?_, ?_, ?_⟩
  · simpa [NodeImage.relocate] using nodeAt.fieldsAt.count
  · intro position field found
    simp only [NodeImage.relocate, List.getElem?_mapIdx] at found
    obtain ⟨old, oldFound, rfl⟩ := Option.map_eq_some_iff.mp found
    rw [nodeAt.fieldsAt.typed position old oldFound]
    cases old with
    | num word => simp [FieldImage.relocate]
    | str chain => simp [FieldImage.relocate]
  · intro chain member
    simp only [NodeImage.relocate, List.mem_mapIdx] at member
    obtain ⟨position, inside, same⟩ := member
    have oldMember := List.getElem_mem inside
    cases old : node.fields[position] with
    | num word => simp [old, FieldImage.relocate] at same
    | str oldChain =>
        rw [old] at oldMember
        simp only [old, FieldImage.relocate, FieldImage.str.injEq] at same
        subst same
        refine ⟨?_, chains oldChain oldMember⟩
        have := (nodeAt.fieldsAt.chains oldChain oldMember).1
        simpa [LinkedRecords.relocate] using this

/-- The words of a record that growth has moved. -/
theorem word_cutData (header header' : NodeHeader) {data : List UInt8}
    {position : Nat} (sized : data.length = realSize)
    (whole : 8 ∣ realSize) (inside : 8 * position + 8 ≤ realSize) :
    (KeyNode.mk header (cutData realSize data)).word position =
      if realSize < 8 * position + 8 + nodeHeadSize then 0
      else (KeyNode.mk header' data).word position := by
  have headSize : nodeHeadSize = 16 := rfl
  have length : (data.take (realSize - nodeHeadSize)).length =
      realSize - nodeHeadSize := by
    rw [List.length_take, sized]
    omega
  by_cases lost : realSize < 8 * position + 8 + nodeHeadSize
  · have behind : realSize - nodeHeadSize ≤ 8 * position := by omega
    rw [if_pos lost, KeyNode.word, cutData, readAt, List.drop_append,
      length, List.drop_of_length_le (by rw [length]; exact behind),
      List.nil_append, List.drop_replicate, List.take_replicate,
      leValue_replicate_zero]
  · have before : 8 * position + 8 ≤ realSize - nodeHeadSize := by omega
    have cutStarts : (cutData realSize data).take (realSize - nodeHeadSize) =
        data.take (realSize - nodeHeadSize) := by
      rw [cutData, List.take_append_of_le_length length.ge, List.take_take,
        Nat.min_self]
    rw [if_neg lost]
    simp only [KeyNode.word, readAt]
    have slice (source : List UInt8) : (source.drop (8 * position)).take 8 =
        ((source.take (realSize - nodeHeadSize)).drop (8 * position)).take
          8 := by
      rw [List.drop_take, List.take_take, Nat.min_eq_left (by omega)]
    rw [slice, cutStarts, ← slice]

/-- The tuple of a node has moved, and its strings point back to it. -/
theorem NodeAt.relocate_tuple {target : Nat} {record : KeyNode}
    (nodeAt : NodeAt address recs types id node)
    (known : recs node.slot = some record)
    (sized : record.data.length = realSize) (whole : 8 ∣ realSize)
    (room : 8 * types.length ≤ realSize)
    (moved : other target = some ⟨record.header, cutData realSize record.data⟩)
    (linked : FieldsAt address other types (address target) node.fields)
    (outside : node.slot ∉ node.chainSlots)
    (copied : ∀ position, types[position]? = some STRING →
      8 * position + 8 + nodeHeadSize ≤ realSize) :
    NodeAt address other types id
      (node.relocate realSize node.slot target) := by
  have sameChain (chain : List (Nat × List UInt8))
      (member : FieldImage.str chain ∈ node.fields) :
      LinkedRecords.relocate node.slot target (cutData realSize) chain =
        chain := by
    refine relocate_of_notMem fun inside => outside ?_
    exact NodeImage.chain_slots_subset member inside
  refine nodeAt.relocate ?_ ?_
  · obtain ⟨record', known', tupleAt⟩ := nodeAt.tuple
    rw [known] at known'
    cases known'
    refine ⟨⟨record.header, cutData realSize record.data⟩,
      by rw [move_self]; exact moved, tupleAt.header, ?_⟩
    intro position field found
    simp only [NodeImage.relocate, List.getElem?_mapIdx] at found
    obtain ⟨old, oldFound, rfl⟩ := Option.map_eq_some_iff.mp found
    have oldWord := tupleAt.words position old oldFound
    have inside : 8 * position + 8 ≤ realSize := by
      have := (List.getElem?_eq_some_iff.mp oldFound).1
      rw [nodeAt.fieldsAt.count] at this
      omega
    rw [word_cutData record.header record.header sized whole inside]
    cases old with
    | num word =>
        simp only [FieldImage.relocate, FieldImage.word, true_and] at oldWord ⊢
        rw [oldWord]
    | str chain =>
        have string := (nodeAt.fieldsAt.typed _ _ oldFound).mpr ⟨chain, rfl⟩
        rw [if_neg (by have := copied position string; omega), oldWord,
          FieldImage.relocate, sameChain chain (List.mem_of_getElem? oldFound)]
  · intro chain member
    rw [sameChain chain member, move_self]
    exact (linked.chains chain member).2

/-- The last record of a string has moved from `source` to `target`, and what
led to it leads there: the tuple of its node or the record before it. -/
structure LastMoved (address : Nat → Nat) (recs other : Nat → Option KeyNode)
    (id position source target : Nat) (node : NodeImage)
    (front : List (Nat × List UInt8)) (data data' : List UInt8) : Prop where
  tuple : ∃ record, other node.slot = some record ∧
    record.header = ⟨node.parent, id⟩ ∧
    record.word position = link address (front ++ [(target, data')]) ∧
    ∀ (index : Nat) (field : FieldImage), index ≠ position →
      node.fields[index]? = some field →
        record.word index = field.word address
  linked : Chain stringRecord address other (address node.slot)
    (front ++ [(target, data')])
  frame : ∀ slot, slot ≠ target → slot ≠ node.slot →
    slot ∉ (front ++ [(source, data)]).map Prod.fst → other slot = recs slot

/-- The node to which the moved record belongs. -/
theorem LastMoved.nodeAt {source target position : Nat}
    {front : List (Nat × List UInt8)} {data : List UInt8}
    {change : List UInt8 → List UInt8}
    (moved : LastMoved address recs other id position source target node front
      data (change data))
    (nodeAt : NodeAt address recs types id node) (distinct : node.slots.Nodup)
    (string : node.fields[position]? = some (.str (front ++ [(source, data)])))
    (outside : target ∉ node.slots) :
    NodeAt address other types id (node.moveRecord change source target) := by
  obtain ⟨chainDistinct, -, tupleApart⟩ := List.nodup_append.mp distinct
  have own (index : Nat) (chain : List (Nat × List UInt8))
      (found : node.fields[index]? = some (.str chain)) (slot : Nat)
      (inside : slot ∈ chain.map Prod.fst) :
      slot ≠ target ∧ slot ≠ node.slot := by
    have member := NodeImage.chain_slots_subset (List.mem_of_getElem? found)
      inside
    exact ⟨ne_of_mem_of_not_mem (List.mem_append_left _ member) outside,
      tupleApart _ member _ (by simp)⟩
  have notTuple : node.slot ≠ source :=
    ((own position _ string source (by simp)).2).symm
  have ownDistinct : ((front ++ [(source, data)]).map Prod.fst).Nodup :=
    (List.nodup_flatMap.mp chainDistinct).1 _ (List.mem_of_getElem? string)
  have relocated : LinkedRecords.relocate source target change
      (front ++ [(source, data)]) = front ++ [(target, change data)] := by
    rw [List.map_append] at ownDistinct
    rw [relocate_append, LinkedRecords.relocate_of_notMem fun member =>
      (List.nodup_append.mp ownDistinct).2.2 _ member source (by simp) rfl]
    simp [LinkedRecords.relocate]
  -- a field is either the one that holds the record, or as before
  have field_cases (index : Nat) (field : FieldImage)
      (found : (node.moveRecord change source target).fields[index]? =
        some field) :
      index = position ∧ field = .str (front ++ [(target, change data)]) ∨
        index ≠ position ∧ node.fields[index]? = some field ∧
        ∀ chain, field = .str chain →
          ∀ slot ∈ chain.map Prod.fst, other slot = recs slot := by
    rw [NodeImage.moveRecord, List.getElem?_map] at found
    obtain ⟨old, oldFound, rfl⟩ := Option.map_eq_some_iff.mp found
    by_cases here : index = position
    · subst here
      rw [string] at oldFound
      cases oldFound
      exact Or.inl ⟨rfl, by rw [FieldImage.moveRecord, relocated]⟩
    · refine Or.inr ⟨here, ?_⟩
      cases old with
      | num word =>
          exact ⟨oldFound, fun _ same => by simp [FieldImage.moveRecord] at same⟩
      | str chain =>
          have apart : List.Disjoint (chain.map Prod.fst)
              ((front ++ [(source, data)]).map Prod.fst) :=
            slots_disjoint chainDistinct here oldFound string
          have same : LinkedRecords.relocate source target change chain =
              chain :=
            LinkedRecords.relocate_of_notMem fun inside =>
              apart inside (by simp)
          rw [FieldImage.moveRecord, same]
          refine ⟨oldFound, ?_⟩
          rintro _ ⟨⟩ slot inside
          obtain ⟨notTarget, notOwn⟩ := own index chain oldFound slot inside
          exact moved.frame slot notTarget notOwn (apart inside)
  obtain ⟨record, known, header, word, words⟩ := moved.tuple
  have stays : (node.moveRecord change source target).slot = node.slot :=
    move_of_ne notTuple
  refine ⟨⟨record, by rw [stays]; exact known, header, ?_⟩, ?_, ?_, ?_⟩
  · intro index field found
    rcases field_cases index field found with ⟨rfl, rfl⟩ | ⟨different, old, -⟩
    · exact word
    · exact words index field different old
  · rw [NodeImage.moveRecord, List.length_map]
    exact nodeAt.fieldsAt.count
  · intro index field found
    rcases field_cases index field found with ⟨rfl, rfl⟩ | ⟨-, old, -⟩
    · exact iff_of_true ((nodeAt.fieldsAt.typed _ _ string).mpr ⟨_, rfl⟩)
        ⟨_, rfl⟩
    · exact nodeAt.fieldsAt.typed _ _ old
  · intro chain member
    rw [stays]
    obtain ⟨index, inside, found⟩ := List.mem_iff_getElem.mp member
    have here := List.getElem?_eq_some_iff.mpr ⟨inside, found⟩
    rcases field_cases index _ here with ⟨-, same⟩ | ⟨-, old, frame⟩
    · cases same
      exact ⟨by simp, moved.linked⟩
    · obtain ⟨nonempty, linked⟩ :=
        nodeAt.fieldsAt.chains chain (List.mem_of_getElem? old)
      exact ⟨nonempty, linked.frame (frame chain rfl)⟩

end Memory

/-- The record at the end of the id array can be moved out of the way: it is
the tuple that its second word says, with no string link among the bytes that
are not copied, or it is the last record of a string. -/
def Movable (schema : TreeSchema) (offset : Nat) (record : KeyNode) : Prop :=
  if schema.root[record.header.allocNode]? = some offset then
    ∀ position, (schema.nodesTemplate.map (·.type))[position]? = some STRING →
      8 * position + 8 + nodeHeadSize ≤
        getRealNodeSize schema.treeMeta.templateSize
  else record.header.allocNode = 0

section Program

variable {img : Image} {world : World} {nodes : List NodeImage}
  {source target : Nat}

/-- The ids whose tuples are registered in the id array. -/
def Registered (root : List Nat) (address : Nat → Nat) (curId : Nat)
    (nodes : List NodeImage) : Prop :=
  ∀ (id : Nat) (node : NodeImage), id < curId → nodes[id]? = some node →
    root[id]? = some (address node.slot)

/-- Slots of one layout belong to one node. -/
theorem Layout.owner_unique {address : Nat → Nat} {recs : Nat → Option KeyNode}
    {types : List Nat} {reserved top : Nat}
    (layout : Layout address recs types reserved top nodes)
    {first second : Nat} {node node' : NodeImage}
    (firstFound : nodes[first]? = some node)
    (secondFound : nodes[second]? = some node') {slot : Nat}
    (firstInside : slot ∈ node.slots) (secondInside : slot ∈ node'.slots) :
    first = second := by
  by_contra different
  obtain ⟨-, pairwise⟩ := List.nodup_flatMap.mp layout.nodup
  have ordered := List.pairwise_iff_getElem.mp pairwise
  obtain ⟨firstSmall, rfl⟩ := List.getElem?_eq_some_iff.mp firstFound
  obtain ⟨secondSmall, rfl⟩ := List.getElem?_eq_some_iff.mp secondFound
  rcases Nat.lt_or_gt_of_ne different with less | greater
  · exact ordered _ _ firstSmall secondSmall less firstInside secondInside
  · exact ordered _ _ secondSmall firstSmall greater secondInside firstInside

/-- The other nodes of a layout after one record has moved. -/
theorem Layout.relocate_others {address : Nat → Nat}
    {recs other : Nat → Option KeyNode} {types : List Nat}
    {reserved top realSize : Nat}
    (layout : Layout address recs types reserved top nodes)
    (inside : reserved < top) {id : Nat} {node : NodeImage}
    (found : nodes[id]? = some node) (owner : reserved ∈ node.slots)
    (frame : ∀ slot, slot ≠ top → slot ∉ node.slots → other slot = recs slot)
    (moved : NodeAt address other types id
      (node.relocate realSize reserved top)) :
    Layout address other types (reserved + 1) (top + 1)
      (nodes.map (NodeImage.relocate realSize reserved top)) := by
  refine layout.relocate inside fun id' node' found' => ?_
  by_cases same : id' = id
  · subst same
    rw [found] at found'
    cases found'
    exact moved
  · have apart (slot : Nat) (member : slot ∈ node'.slots) : slot ∉ node.slots :=
      fun member' => same (layout.owner_unique found' found member member')
    rw [NodeImage.relocate_of_notMem fun member => apart _ member owner]
    refine (layout.nodeAt id' node' found').frame fun slot member =>
      frame slot ?_ (apart slot member)
    exact (layout.slot_lt (List.mem_of_getElem? found') member).2.ne

/-- `swapNode` on the tuple that growth moves. -/
theorem Layout.wp_swapNode_tuple {id : Nat} {node : NodeImage}
    {post : CrudStatus → World → Prop} (holds : img.Holds world.file)
    (layout : Layout img.slotOffset img.recs img.types node.slot target nodes)
    (inside : node.slot < target)
    (free : img.recs target = some (zeroRecord img.realSize))
    (registered : Registered img.schema.root img.slotOffset img.curId nodes)
    (found : nodes[id]? = some node) (live : id < img.curId)
    (movable : ∀ record, img.recs node.slot = some record →
      Movable img.schema (img.slotOffset node.slot) record)
    (next : ∀ root recs file pos blocks,
      Image.Holds { schema := { img.schema with root := root }
                    top := img.top
                    recs := recs } file →
      Layout img.slotOffset recs img.types (node.slot + 1) (target + 1)
        (nodes.map (NodeImage.relocate img.realSize node.slot target)) →
      Registered root img.slotOffset img.curId
        (nodes.map (NodeImage.relocate img.realSize node.slot target)) →
      post .success
        { world with file := file, pos := pos, blocks := blocks }) :
    wp (swapNode (img.slotOffset target) (img.slotOffset node.slot)
      img.realSize) post world := by
  have nodeAt := layout.nodeAt id node found
  have distinct := layout.node_nodup (List.mem_of_getElem? found)
  obtain ⟨record, known, tupleAt⟩ := nodeAt.tuple
  have entry : img.schema.root[record.header.allocNode]? =
      some (img.slotOffset node.slot) := by
    rw [tupleAt.header]
    exact registered id node live found
  have copiedLinks : ∀ position, img.types[position]? = some STRING →
      8 * position + 8 + nodeHeadSize ≤ img.realSize := by
    have := movable record known
    rw [Movable, if_pos entry] at this
    exact this
  have idEq : record.header.allocNode = id := by rw [tupleAt.header]
  have below (slot : Nat) (member : slot ∈ node.slots) : slot ≠ target :=
    (layout.slot_lt (List.mem_of_getElem? found) member).2.ne
  have outside : node.slot ∉ node.chainSlots := fun member =>
    (List.nodup_append.mp distinct).2.2 _ member _ (by simp) rfl
  refine holds.wp_swapNode known free inside.ne entry
    fun file pos blocks copied => ?_
  rw [if_pos rfl]
  let after := img.setRec target
    ⟨record.header, cutData img.realSize record.data⟩
  have stays : after.recs node.slot = some record := by
    rw [Image.setRec_recs_of_ne img inside.ne]
    exact known
  have fieldsAt : FieldsAt after.slotOffset after.recs after.types
      (img.slotOffset node.slot) node.fields :=
    nodeAt.fieldsAt.frame fun slot member => Image.setRec_recs_of_ne img
      (below slot (List.mem_append_left _ member)) _
  change wp (swapTuple after.schema after.templateSize
    (after.slotOffset target) (after.slotOffset node.slot) _) _ _
  refine Image.Holds.wp_swapTuple copied stays fieldsAt tupleAt.words
    (List.nodup_append.mp distinct).1
    (copied.slotOffset_small (holds.record _ _ free).2.1.le) ?_
  intro recs file pos blocks written frame linked
  have movedFrame : recs target = some
      ⟨record.header, cutData img.realSize record.data⟩ := by
    rw [frame target fun member =>
      below target (List.mem_append_left _ member) rfl]
    exact Function.update_self _ _ _
  refine next (img.schema.root.set record.header.allocNode
    (img.slotOffset target)) recs file pos blocks written ?_ ?_
  · refine layout.relocate_others inside found (by simp [NodeImage.slots]) ?_ ?_
    · intro slot notTarget notOwn
      rw [frame slot fun member => notOwn (List.mem_append_left _ member)]
      exact Image.setRec_recs_of_ne img notTarget _
    · exact nodeAt.relocate_tuple known
        (holds.record _ _ known).2.2.1.data_length img.eight_dvd_realSize
        (by rw [holds.types_length]; exact mul_le_getRealNodeSize _)
        movedFrame linked outside copiedLinks
  · intro other node' small found'
    rw [List.getElem?_map] at found'
    obtain ⟨old, oldFound, rfl⟩ := Option.map_eq_some_iff.mp found'
    rw [idEq]
    by_cases same : other = id
    · subst same
      rw [found] at oldFound
      cases oldFound
      obtain ⟨bound, -⟩ := List.getElem?_eq_some_iff.mp (idEq ▸ entry)
      rw [List.getElem?_set_self bound]
      simp [NodeImage.relocate]
    · have ownSlot : old.slot ∈ old.slots := by simp [NodeImage.slots]
      have different : old.slot ≠ node.slot := fun equal =>
        same (layout.owner_unique oldFound found ownSlot
          (by simp [NodeImage.slots, equal]))
      rw [List.getElem?_set_ne (Ne.symm same),
        registered other old small oldFound]
      simp [NodeImage.relocate, move_of_ne different]

/-- A string record without successor is the last one of its string. -/
theorem NodeAt.last_of_end {id before : Nat} {node : NodeImage}
    {data : List UInt8}
    (nodeAt : NodeAt img.slotOffset img.recs img.types id node)
    (distinct : node.chainSlots.Nodup) (owner : source ∈ node.chainSlots)
    (known : img.recs source = some (stringRecord before 0 data)) :
    ∃ (position : Nat) (front : List (Nat × List UInt8)),
      node.fields[position]? = some (.str (front ++ [(source, data)])) := by
  obtain ⟨field, fieldMember, fieldInside⟩ := List.mem_flatMap.mp owner
  obtain ⟨position, positionInside, positionField⟩ :=
    List.mem_iff_getElem.mp fieldMember
  have fieldFound := List.getElem?_eq_some_iff.mpr
    ⟨positionInside, positionField⟩
  cases field with
  | num word => simp [FieldImage.slots] at fieldInside
  | str chain =>
      obtain ⟨front, rfl⟩ :=
        (nodeAt.fieldsAt.chains chain fieldMember).2.last_of_end
          stringRecord_inj (fun slot => Nat.ne_of_gt img.slotOffset_pos)
          fieldInside ((List.nodup_flatMap.mp distinct).1 _ fieldMember) known
      exact ⟨position, front, fieldFound⟩

/-- A string record that can be moved is the last one of its string. -/
theorem Layout.last_of_movable {id : Nat} {node : NodeImage}
    (layout : Layout img.slotOffset img.recs img.types source target nodes)
    (rootShort : img.schema.root.length ≤ img.slotOffset source)
    (found : nodes[id]? = some node) (owner : source ∈ node.chainSlots)
    (movable : ∀ record, img.recs source = some record →
      Movable img.schema (img.slotOffset source) record) :
    ∃ (position : Nat) (front : List (Nat × List UInt8)) (data : List UInt8)
        (before : Nat),
      node.fields[position]? =
        some (.str (front ++ [(source, data)])) ∧
      img.recs source = some (stringRecord before 0 data) := by
  have member := List.mem_of_getElem? found
  have nodeAt := layout.nodeAt id node found
  have distinct := (List.nodup_append.mp (layout.node_nodup member)).1
  obtain ⟨field, fieldMember, fieldInside⟩ := List.mem_flatMap.mp owner
  cases field with
  | num word => simp [FieldImage.slots] at fieldInside
  | str chain =>
      obtain ⟨-, linked⟩ := nodeAt.fieldsAt.chains chain fieldMember
      obtain ⟨⟨_, data⟩, entry, rfl⟩ := List.mem_map.mp fieldInside
      obtain ⟨before, after, known, afterLink⟩ := linked.exists_cell entry
      have ended : after = 0 := by
        rcases afterLink with ended | ⟨slot, slotMember, rfl⟩
        · exact ended
        · -- a link is an offset, and no offset is a position in the id array
          have behind := (layout.slot_lt member (List.mem_append_left _
            (NodeImage.chain_slots_subset fieldMember slotMember))).1
          have far := img.slotOffset_mono behind
          have absent : img.schema.root[img.slotOffset slot]? = none := by
            rw [List.getElem?_eq_none_iff]
            omega
          have := movable _ known
          simp only [Movable, stringRecord, absent] at this
          simpa using this
      subst ended
      obtain ⟨position, front, fieldFound⟩ :=
        nodeAt.last_of_end distinct owner known
      exact ⟨position, front, data, before, fieldFound, known⟩

/-- The words of a tuple tell its strings apart. -/
theorem NodeAt.string_unique {id : Nat} {node : NodeImage} {record : KeyNode}
    (nodeAt : NodeAt img.slotOffset img.recs img.types id node)
    (distinct : node.chainSlots.Nodup)
    (tupleAt : TupleAt img.slotOffset record node.parent id node.fields)
    {position : Nat} {chain : List (Nat × List UInt8)}
    (fieldFound : node.fields[position]? = some (.str chain))
    (inside : source ∈ chain.map Prod.fst) {other : Nat}
    (string : img.types[other]? = some STRING)
    (word : record.word other = img.slotOffset source) : other = position := by
  by_contra different
  obtain ⟨chain', found'⟩ := nodeAt.fieldsAt.field_of_string string
  have apart := slots_disjoint distinct different found' fieldFound
  have nonempty := (nodeAt.fieldsAt.chains chain'
    (List.mem_of_getElem? found')).1
  obtain ⟨⟨slot, data⟩, rest, rfl⟩ := List.exists_cons_of_ne_nil nonempty
  have same := tupleAt.words other _ found'
  rw [word] at same
  have slotEq : source = slot := img.slotOffset_inj.mp same
  exact apart (by simp [FieldImage.slots, slotEq]) inside

/-- When a string's last record has been copied to `target`, what led to it
learns its new place. -/
theorem NodeAt.wp_swapString {id position : Nat} {node : NodeImage}
    {front : List (Nat × List UInt8)} {data data' : List UInt8} {before : Nat}
    {post : Unit → World → Prop}
    (nodeAt : NodeAt img.slotOffset img.recs img.types id node)
    (distinct : node.slots.Nodup)
    (string : node.fields[position]? = some (.str (front ++ [(source, data)])))
    (known : img.recs source = some (stringRecord before 0 data))
    (outside : target ∉ node.slots) (idSmall : id < img.slotOffset source)
    (targetSmall : img.slotOffset target < 2 ^ 63)
    (copied : (img.setRec target (stringRecord before 0 data')).Holds
      world.file)
    (next : ∀ recs file pos blocks, Image.Holds { img with recs := recs } file →
      LastMoved img.slotOffset img.recs recs id position source target node
        front data data' →
      post () { world with file := file, pos := pos, blocks := blocks }) :
    wp (swapString img.types img.templateSize (img.slotOffset target)
      (img.slotOffset source)) post world := by
  obtain ⟨chainDistinct, -, tupleApart⟩ := List.nodup_append.mp distinct
  have member := List.mem_of_getElem? string
  have linked := (nodeAt.fieldsAt.chains _ member).2
  obtain ⟨record, tupleKnown, tupleAt⟩ := nodeAt.tuple
  have ownTuple : node.slot ∈ node.slots := by simp [NodeImage.slots]
  have notTarget (slot : Nat) (own : slot ∈ node.slots) : slot ≠ target :=
    ne_of_mem_of_not_mem own outside
  have own (slot : Nat)
      (inside : slot ∈ (front ++ [(source, data)]).map Prod.fst) :
      slot ∈ node.chainSlots :=
    NodeImage.chain_slots_subset member inside
  let after := img.setRec target (stringRecord before 0 data')
  have stays (slot : Nat) (own : slot ∈ node.slots) :
      after.recs slot = img.recs slot :=
    Image.setRec_recs_of_ne img (notTarget slot own) _
  have copy : after.recs target = some (stringRecord before 0 data') :=
    Function.update_self _ _ _
  change wp (swapString after.types after.templateSize
    (after.slotOffset target) (after.slotOffset source)) _ _
  have sourceKnown := (stays source (List.mem_append_left _
    (own source (by simp)))).trans known
  rcases List.eq_nil_or_concat' front with rfl | ⟨front, ⟨prior, data''⟩, rfl⟩
  · -- the string has one record, and the tuple points to it
    have beforeEq : before = img.slotOffset node.slot := by
      have here := linked.1
      rw [known] at here
      exact (stringRecord_inj (Option.some.inj here)).1
    subst beforeEq
    have wordEq : record.word position = img.slotOffset source :=
      tupleAt.words position _ string
    have notLinked : record.header.allocNode ≠ img.slotOffset source := by
      rw [tupleAt.header]
      exact idSmall.ne
    have sized := (copied.record _ _ ((stays _ ownTuple).trans
      tupleKnown)).2.2.1.data_length
    have wordRoom (index : Nat) (field : FieldImage)
        (fieldHere : node.fields[index]? = some field) :
        8 * index + 8 ≤ record.data.length := by
      have bound := (List.getElem?_eq_some_iff.mp fieldHere).1
      have types := copied.types_length
      have := mul_le_getRealNodeSize img.templateSize
      change img.types.length = img.templateSize at types
      rw [nodeAt.fieldsAt.count, types] at bound
      rw [sized]
      change 8 * index + 8 ≤ img.realSize
      simp only [Image.realSize]
      omega
    refine Image.Holds.wp_swapString_head copied sourceKnown
      ((stays _ ownTuple).trans tupleKnown) notLinked
      ((nodeAt.fieldsAt.typed _ _ string).mpr ⟨_, rfl⟩) wordEq
      (fun other => nodeAt.string_unique chainDistinct tupleAt string
        (by simp)) ?_
    intro file pos blocks written
    refine next (after.setRec node.slot (record.setWord position
      (img.slotOffset target))).recs file pos blocks written ⟨?_, ?_, ?_⟩
    · refine ⟨_, Function.update_self _ _ _, tupleAt.header, ?_, ?_⟩
      · rw [KeyNode.word_setWord (by omega)]
        rfl
      · intro index field different fieldHere
        rw [KeyNode.word_setWord_of_ne different
          (wordRoom index field fieldHere)]
        exact tupleAt.words index field fieldHere
    · exact ⟨(Image.setRec_recs_of_ne after (notTarget _ ownTuple).symm
        _).trans copy, trivial⟩
    · intro slot notHere notTuple _
      exact (Image.setRec_recs_of_ne after notTuple _).trans
        (Image.setRec_recs_of_ne img notHere _)
  · -- the record before the last one points to it
    rw [List.append_assoc, List.singleton_append] at linked own
    obtain ⟨ahead, pair⟩ := linked.exists_tail
    obtain ⟨priorKnown, lastKnown, -⟩ := pair
    have beforeEq : before = img.slotOffset prior := by
      rw [known] at lastKnown
      exact (stringRecord_inj (Option.some.inj lastKnown)).1
    subst beforeEq
    have priorOwn : prior ∈ node.chainSlots := own prior (by simp)
    have priorNot := notTarget prior (List.mem_append_left _ priorOwn)
    refine Image.Holds.wp_swapString_chunk copied sourceKnown
      ((stays prior (List.mem_append_left _ priorOwn)).trans priorKnown) rfl
      targetSmall ?_
    intro file pos blocks written
    have frame (slot : Nat) (notHere : slot ≠ target)
        (notPrior : slot ≠ prior) :
        (after.setRec prior (stringRecord ahead (img.slotOffset target)
          data'')).recs slot = img.recs slot :=
      (Image.setRec_recs_of_ne after notPrior _).trans
        (Image.setRec_recs_of_ne img notHere _)
    refine next (after.setRec prior (stringRecord ahead (img.slotOffset target)
      data'')).recs file pos blocks written ⟨?_, ?_, ?_⟩
    · refine ⟨record, (frame _ (notTarget _ ownTuple)
        (tupleApart _ priorOwn _ (by simp)).symm).trans tupleKnown,
        tupleAt.header, ?_, fun index field _ => tupleAt.words index field⟩
      rw [tupleAt.words position _ string]
      cases front <;> rfl
    · rw [List.append_assoc, List.singleton_append]
      have pairDistinct := (List.nodup_flatMap.mp chainDistinct).1 _ member
      simp only [FieldImage.slots, List.map_append, List.map_cons, List.map_nil,
        List.append_assoc, List.singleton_append] at pairDistinct
      refine linked.replace_tail ?_ ?_
      · intro earlier inside
        exact frame earlier
          (notTarget _ (List.mem_append_left _ (own earlier (by
            rw [List.map_append]
            exact List.mem_append_left _ inside))))
          ((List.nodup_append.mp pairDistinct).2.2 _ inside prior (by simp))
      · rintro start ⟨here, -⟩
        rw [priorKnown] at here
        obtain ⟨rfl, -, -⟩ := stringRecord_inj (Option.some.inj here)
        refine ⟨Function.update_self _ _ _, ?_, trivial⟩
        exact (Image.setRec_recs_of_ne after priorNot.symm _).trans copy
    · intro slot notHere _ notInside
      exact frame slot notHere (by rintro rfl; exact notInside (by simp))

/-- `swapNode` on the string record that growth moves. -/
theorem Layout.wp_swapNode_string {id : Nat} {node first : NodeImage}
    {post : CrudStatus → World → Prop} (holds : img.Holds world.file)
    (layout : Layout img.slotOffset img.recs img.types source target nodes)
    (inside : source < target)
    (free : img.recs target = some (zeroRecord img.realSize))
    (registered : Registered img.schema.root img.slotOffset img.curId nodes)
    (rootShort : img.schema.root.length ≤ img.slotOffset source)
    (found : nodes[id]? = some node) (live : id < img.curId)
    (firstFound : nodes[0]? = some first)
    (owner : source ∈ node.chainSlots)
    (movable : ∀ record, img.recs source = some record →
      Movable img.schema (img.slotOffset source) record)
    (next : ∀ recs file pos blocks,
      Image.Holds { img with recs := recs } file →
      Layout img.slotOffset recs img.types (source + 1) (target + 1)
        (nodes.map (NodeImage.relocate img.realSize source target)) →
      post .success
        { world with file := file, pos := pos, blocks := blocks }) :
    wp (swapNode (img.slotOffset target) (img.slotOffset source)
      img.realSize) post world := by
  have member := List.mem_of_getElem? found
  have nodeAt := layout.nodeAt id node found
  have distinct := layout.node_nodup member
  have ownSource : source ∈ node.slots := List.mem_append_left _ owner
  have tupleApart : node.slot ∉ node.chainSlots := fun inside =>
    (List.nodup_append.mp distinct).2.2 _ inside _ (by simp) rfl
  have outside : target ∉ node.slots := fun own =>
    absurd (layout.slot_lt member own).2 (Nat.lt_irrefl _)
  obtain ⟨position, front, data, before, fieldFound, known⟩ :=
    layout.last_of_movable rootShort found owner movable
  have entry : img.schema.root[0]? = some (img.slotOffset first.slot) :=
    registered 0 first (Nat.zero_lt_of_lt live) firstFound
  have notTuple : img.slotOffset first.slot ≠ img.slotOffset source := by
    intro same
    have slotEq := img.slotOffset_inj.mp same
    have firstOwn : source ∈ first.slots := by simp [NodeImage.slots, slotEq]
    obtain rfl := layout.owner_unique firstFound found firstOwn ownSource
    rw [firstFound] at found
    cases found
    exact tupleApart (slotEq ▸ owner)
  have idSmall : id < img.slotOffset source := by
    obtain ⟨bound, -⟩ := List.getElem?_eq_some_iff.mp
      (registered id node live found)
    exact lt_of_lt_of_le bound rootShort
  refine holds.wp_swapNode known free inside.ne entry
    fun file pos blocks copied => ?_
  rw [if_neg notTuple]
  refine NodeAt.wp_swapString nodeAt distinct fieldFound known outside idSmall
    (holds.slotOffset_small (holds.record _ _ free).2.1.le) copied ?_
  intro recs file pos blocks written moved
  refine next recs file pos blocks written ?_
  refine layout.relocate_others inside found ownSource ?_ ?_
  · intro slot notTarget notOwn
    refine moved.frame slot notTarget ?_ fun chain => notOwn
      (List.mem_append_left _ (NodeImage.chain_slots_subset
        (List.mem_of_getElem? fieldFound) chain))
    rintro rfl
    exact notOwn (by simp [NodeImage.slots])
  · rw [NodeImage.relocate_eq fun same => tupleApart (same ▸ owner)]
    exact moved.nodeAt nodeAt distinct fieldFound outside

/-- `swapNode` on the first data record, when growth moves it behind the last
one. -/
theorem Layout.wp_swapNode {post : CrudStatus → World → Prop}
    (holds : img.Holds world.file)
    (layout : Layout img.slotOffset img.recs img.types source target nodes)
    (inside : source < target)
    (free : img.recs target = some (zeroRecord img.realSize))
    (registered : Registered img.schema.root img.slotOffset img.curId nodes)
    (rootShort : img.schema.root.length ≤ img.slotOffset source)
    (owners : ∀ (id : Nat) (node : NodeImage), nodes[id]? = some node →
      source ∈ node.slots → id < img.curId)
    (movable : ∀ record, img.recs source = some record →
      Movable img.schema (img.slotOffset source) record)
    (next : ∀ root recs file pos blocks,
      Image.Holds { schema := { img.schema with root := root }
                    top := img.top
                    recs := recs } file →
      Layout img.slotOffset recs img.types (source + 1) (target + 1)
        (nodes.map (NodeImage.relocate img.realSize source target)) →
      Registered root img.slotOffset img.curId
        (nodes.map (NodeImage.relocate img.realSize source target)) →
      post .success
        { world with file := file, pos := pos, blocks := blocks }) :
    wp (swapNode (img.slotOffset target) (img.slotOffset source)
      img.realSize) post world := by
  obtain ⟨node, member, owner⟩ := List.mem_flatMap.mp
    ((layout.covers source).mpr ⟨le_rfl, inside⟩)
  obtain ⟨id, idInside, idFound⟩ := List.mem_iff_getElem.mp member
  have found := List.getElem?_eq_some_iff.mpr ⟨idInside, idFound⟩
  have live := owners id node found owner
  rcases List.mem_append.mp owner with string | tuple
  · obtain ⟨first, firstFound⟩ : ∃ first, nodes[0]? = some first :=
      ⟨_, List.getElem?_eq_getElem (Nat.zero_lt_of_lt idInside)⟩
    refine Layout.wp_swapNode_string holds layout inside free registered
      rootShort found live firstFound string movable ?_
    intro recs file pos blocks written relocated
    refine next img.schema.root recs file pos blocks written relocated ?_
    intro other node' small found'
    rw [List.getElem?_map] at found'
    obtain ⟨old, oldFound, rfl⟩ := Option.map_eq_some_iff.mp found'
    have ownSlot : old.slot ∈ old.slots := by simp [NodeImage.slots]
    have notMoved : old.slot ≠ source := by
      rintro rfl
      obtain rfl := layout.owner_unique oldFound found ownSlot owner
      rw [oldFound] at found
      cases found
      exact (List.nodup_append.mp (layout.node_nodup member)).2.2 _ string _
        (by simp) rfl
    rw [registered other old small oldFound]
    simp [NodeImage.relocate, move_of_ne notMoved]
  · obtain rfl := List.mem_singleton.mp tuple
    exact Layout.wp_swapNode_tuple holds layout inside free registered found
      live movable next

end Program

end TreeStore
