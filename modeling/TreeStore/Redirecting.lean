import TreeStore.Chains
import TreeStore.WellFormed

/-!
# Redirecting the references to a record

`swapNode` with the size of a whole record, in a store that may have dead ids
and free slots: the record is copied, and what led to it leads to the copy.
-/

namespace TreeStore

open ByteFile ProgramLogic LinkedRecords

section Moved

variable {source target realSize : Nat} {node : NodeImage}
  {change : List UInt8 → List UInt8}

theorem FieldImage.moveRecord_slots (field : FieldImage) :
    (field.moveRecord change source target).slots =
      field.slots.map (move source target) := by
  cases field with
  | num word => rfl
  | str chain => simp [FieldImage.moveRecord, FieldImage.slots]

theorem NodeImage.moveRecord_slots :
    (node.moveRecord change source target).slots =
      node.slots.map (move source target) := by
  have chains : (node.moveRecord change source target).chainSlots =
      node.chainSlots.map (move source target) := by
    rw [NodeImage.chainSlots, NodeImage.chainSlots, NodeImage.moveRecord,
      List.flatMap_map, List.map_flatMap]
    exact List.flatMap_congr fun field _ => field.moveRecord_slots
  rw [NodeImage.slots, chains, NodeImage.slots, List.map_append]
  rfl

/-- A field that does not use the moved slot stays as it is. -/
theorem FieldImage.moveRecord_of_notMem {field : FieldImage}
    (absent : source ∉ field.slots) :
    field.moveRecord change source target = field := by
  cases field with
  | num word => rfl
  | str chain =>
      rw [FieldImage.moveRecord, LinkedRecords.relocate_of_notMem absent]

/-- The fields of a node whose strings do not use the moved slot. -/
theorem NodeImage.moveRecord_fields (absent : source ∉ node.chainSlots) :
    (node.moveRecord change source target).fields = node.fields := by
  have same : ∀ field ∈ node.fields,
      field.moveRecord change source target = id field :=
    fun field member => FieldImage.moveRecord_of_notMem fun inside =>
      absent (List.mem_flatMap.mpr ⟨field, member, inside⟩)
  rw [NodeImage.moveRecord, List.map_congr_left same, List.map_id]

/-- A node that does not use the moved slot stays as it is. -/
theorem NodeImage.moveRecord_of_notMem (outside : source ∉ node.slots) :
    node.moveRecord change source target = node := by
  have notTuple : node.slot ≠ source := by
    rintro rfl
    exact outside (by simp [NodeImage.slots])
  have fields := @NodeImage.moveRecord_fields source target node change
    fun inside => outside (List.mem_append_left _ inside)
  cases node
  simp only [NodeImage.moveRecord] at fields ⊢
  rw [fields, move_of_ne notTuple]

/-- A node reads the same after one of its records has moved. -/
theorem NodeImage.moveRecord_values :
    (node.moveRecord (fun data => data) source target).values realSize =
      node.values realSize := by
  rw [NodeImage.values, NodeImage.values, NodeImage.moveRecord, List.map_map]
  refine List.map_congr_left fun field _ => ?_
  cases field with
  | num word => rfl
  | str chain =>
      exact congrArg FieldValue.text
        ((assemble_relocate_iff _ chain).mpr fun _ _ _ => rfl)

end Moved

/-- The nodes of a store after the record in `source` has moved to `target`. -/
def movedNodes (nodes : Nat → Option NodeImage) (source target : Nat) :
    Nat → Option NodeImage :=
  fun id => (nodes id).map
    (NodeImage.moveRecord (fun data => data) source target)

section Stores

variable {img : Image} {nodes : Nat → Option NodeImage} {file : List UInt8}
  {source target id : Nat} {node : NodeImage}

/-- After one record has moved, the store is well formed again. -/
theorem WellFormed.moveRecord {root : List Nat}
    {recs : Nat → Option KeyNode} {file' : List UInt8}
    (store : WellFormed img nodes file) (found : nodes id = some node)
    (owner : source ∈ node.slots)
    (free : ∀ id node, nodes id = some node → target ∉ node.slots)
    (holds : Image.Holds ⟨{ img.schema with root := root }, img.top, recs⟩
      file')
    (frame : ∀ slot, slot ≠ target → slot ∉ node.slots →
      recs slot = img.recs slot)
    (moved : NodeAt img.slotOffset recs img.types id
      (node.moveRecord (fun data => data) source target))
    (live_iff : ∀ other offset, LiveAt { img.schema with root := root } other
        offset ↔
      ∃ node, nodes other = some node ∧
        offset = img.slotOffset (move source target node.slot)) :
    WellFormed ⟨{ img.schema with root := root }, img.top, recs⟩
      (movedNodes nodes source target) file' where
  holds := holds
  live_iff other offset := by
    rw [live_iff]
    constructor
    · rintro ⟨old, oldFound, rfl⟩
      exact ⟨_, congrArg (Option.map _) oldFound, rfl⟩
    · rintro ⟨_, found', rfl⟩
      obtain ⟨old, oldFound, rfl⟩ := Option.map_eq_some_iff.mp found'
      exact ⟨old, oldFound, rfl⟩
  nodeAt other node' found' := by
    obtain ⟨old, oldFound, rfl⟩ := Option.map_eq_some_iff.mp found'
    by_cases same : other = id
    · subst same
      rw [found] at oldFound
      cases oldFound
      exact moved
    · have apart := store.apart other id old node oldFound found same
      rw [NodeImage.moveRecord_of_notMem fun member => apart member owner]
      refine (store.nodeAt other old oldFound).frame fun slot member =>
        frame slot ?_ (apart member)
      exact ne_of_mem_of_not_mem member (free other old oldFound)
  nodup other node' found' := by
    obtain ⟨old, oldFound, rfl⟩ := Option.map_eq_some_iff.mp found'
    have notTarget := free other old oldFound
    rw [NodeImage.moveRecord_slots]
    exact (store.nodup other old oldFound).map_on fun _ first _ second same =>
      move_inj (ne_of_mem_of_not_mem first notTarget)
        (ne_of_mem_of_not_mem second notTarget) same
  apart first second node' node'' found' found'' different := by
    obtain ⟨old, oldFound, rfl⟩ := Option.map_eq_some_iff.mp found'
    obtain ⟨old', oldFound', rfl⟩ := Option.map_eq_some_iff.mp found''
    rw [NodeImage.moveRecord_slots, NodeImage.moveRecord_slots]
    intro slot inside inside'
    obtain ⟨here, member, rfl⟩ := List.mem_map.mp inside
    obtain ⟨there, member', same⟩ := List.mem_map.mp inside'
    have equal := move_inj
      (ne_of_mem_of_not_mem member' (free _ _ oldFound'))
      (ne_of_mem_of_not_mem member (free _ _ oldFound)) same
    exact store.apart first second old old' oldFound oldFound' different member
      (equal ▸ member')

theorem WellFormed.entry (store : WellFormed img nodes file)
    (found : nodes id = some node) :
    img.schema.root[id]? = some (img.slotOffset node.slot) :=
  ((store.live_iff id _).mpr ⟨node, found, rfl⟩).entry

/-- The ids that are live after the tuple of one of them has moved. -/
theorem WellFormed.liveAt_set (store : WellFormed img nodes file)
    (found : nodes id = some node) (target other offset : Nat) :
    LiveAt { img.schema with
        root := img.schema.root.set id (img.slotOffset target) } other offset ↔
      ∃ node', nodes other = some node' ∧
        offset = img.slotOffset (move node.slot target node'.slot) := by
  have live := (store.live_iff id _).mpr ⟨node, found, rfl⟩
  by_cases same : other = id
  · subst same
    have inside := (List.getElem?_eq_some_iff.mp live.entry).1
    have here : (img.schema.root.set other (img.slotOffset target))[other]? =
        some (img.slotOffset target) := List.getElem?_set_self inside
    constructor
    · intro now
      refine ⟨node, found, ?_⟩
      rw [move_self]
      exact Option.some.inj (now.entry.symm.trans here)
    · rintro ⟨_, found', rfl⟩
      obtain rfl := Option.some.inj (found'.symm.trans found)
      rw [move_self]
      exact ⟨live.counted, here, Nat.ne_of_gt img.slotOffset_pos⟩
  · have entry : (img.schema.root.set id (img.slotOffset target))[other]? =
        img.schema.root[other]? :=
      List.getElem?_set_ne (Ne.symm same)
    have unchanged : LiveAt { img.schema with
        root := img.schema.root.set id (img.slotOffset target) } other offset ↔
          LiveAt img.schema other offset :=
      ⟨fun now => ⟨now.counted, entry.symm.trans now.entry, now.nonzero⟩,
        fun now => ⟨now.counted, entry.trans now.entry, now.nonzero⟩⟩
    rw [unchanged, store.live_iff]
    refine exists_congr fun node' => and_congr_right fun found' => ?_
    have own : node'.slot ∈ node'.slots := by simp [NodeImage.slots]
    have apart := store.apart other id node' node found' found same own
    rw [move_of_ne fun equal => apart (by simp [NodeImage.slots, equal])]

/-- No tuple lies in the slot of a string record. -/
theorem WellFormed.not_tuple (store : WellFormed img nodes file)
    (found : nodes id = some node) (owner : source ∈ node.chainSlots)
    {other : Nat} {node' : NodeImage} (found' : nodes other = some node') :
    node'.slot ≠ source := by
  intro same
  by_cases here : other = id
  · subst here
    obtain rfl := Option.some.inj (found'.symm.trans found)
    exact (List.nodup_append.mp (store.nodup _ _ found)).2.2 _ owner _ (by simp)
      same.symm
  · exact store.apart other id node' node found' found here
      (by simp [NodeImage.slots, same]) (List.mem_append_left _ owner)

/-- The first entry of the id array is not the offset of a string record. -/
theorem WellFormed.exists_first (store : WellFormed img nodes file)
    (found : nodes id = some node) (owner : source ∈ node.chainSlots) :
    ∃ entry, img.schema.root[0]? = some entry ∧
      entry ≠ img.slotOffset source := by
  obtain ⟨bound, -⟩ := List.getElem?_eq_some_iff.mp (store.entry found)
  have live := (store.live_iff id _).mpr ⟨node, found, rfl⟩
  have first := List.getElem?_eq_getElem (Nat.zero_lt_of_lt bound)
  refine ⟨_, first, fun same => ?_⟩
  rw [same] at first
  obtain ⟨node', found', slotEq⟩ := (store.live_iff 0 _).mp
    ⟨Nat.zero_lt_of_lt live.counted, first, Nat.ne_of_gt img.slotOffset_pos⟩
  exact store.not_tuple found owner found' (img.slotOffset_inj.mp slotEq).symm

variable {world : World} {post : CrudStatus → World → Prop}

/-- `swapNode` on the tuple of a live id. -/
theorem WellFormed.wp_swapNode_tuple (store : WellFormed img nodes world.file)
    (found : nodes id = some node) (behind : img.capacity ≤ target)
    (inside : target < img.top)
    (free : ∀ id node, nodes id = some node → target ∉ node.slots)
    (next : ∀ root recs file pos blocks,
      WellFormed ⟨{ img.schema with root := root }, img.top, recs⟩
        (movedNodes nodes node.slot target) file →
      post .success
        { world with file := file, pos := pos, blocks := blocks }) :
    wp (swapNode (img.slotOffset target) (img.slotOffset node.slot)
      img.recordSize) post world := by
  have holds := store.holds
  have nodeAt := store.nodeAt id node found
  have distinct := store.nodup id node found
  have own : node.slot ∈ node.slots := by simp [NodeImage.slots]
  have notTarget (slot : Nat) (member : slot ∈ node.slots) : slot ≠ target :=
    ne_of_mem_of_not_mem member (free id node found)
  have outside : node.slot ∉ node.chainSlots := fun member =>
    (List.nodup_append.mp distinct).2.2 _ member _ (by simp) rfl
  obtain ⟨record, known, tupleAt⟩ := nodeAt.tuple
  have idEq : record.header.allocNode = id := by rw [tupleAt.header]
  have entry := store.entry found
  rw [← idEq] at entry
  refine holds.wp_swapNode_whole known behind inside (notTarget _ own) entry
    fun file pos blocks copied => ?_
  rw [if_pos rfl]
  let after := img.setRec target record
  have stays : after.recs node.slot = some record := by
    rw [Image.setRec_recs_of_ne img (notTarget _ own)]
    exact known
  have fieldsAt : FieldsAt after.slotOffset after.recs after.types
      (img.slotOffset node.slot) node.fields :=
    nodeAt.fieldsAt.frame fun slot member => Image.setRec_recs_of_ne img
      (notTarget slot (List.mem_append_left _ member)) _
  change wp (swapTuple after.schema after.templateSize
    (after.slotOffset target) (after.slotOffset node.slot) _) _ _
  refine Image.Holds.wp_swapTuple copied stays fieldsAt tupleAt.words
    (List.nodup_append.mp distinct).1 (copied.slotOffset_small inside.le) ?_
  intro recs file pos blocks written frame linked
  have movedRecord : recs target = some record := by
    rw [frame target fun member =>
      notTarget target (List.mem_append_left _ member) rfl]
    exact Function.update_self _ _ _
  have fields := @NodeImage.moveRecord_fields node.slot target node
    (fun data => data) outside
  refine next _ recs file pos blocks
    (store.moveRecord found own free written ?_ ?_ ?_)
  · intro slot notHere notOwn
    rw [frame slot fun member => notOwn (List.mem_append_left _ member)]
    exact Image.setRec_recs_of_ne img notHere _
  · have slotEq : (node.moveRecord (fun data => data) node.slot target).slot =
        target := move_self _ _
    refine ⟨⟨record, by rw [slotEq]; exact movedRecord, tupleAt.header, ?_⟩, ?_⟩
    · rw [fields]
      exact tupleAt.words
    · rw [fields, slotEq]
      exact linked
  · rw [idEq]
    exact store.liveAt_set found target

/-- `swapNode` on the last record of a string. -/
theorem WellFormed.wp_swapNode_last {before : Nat} {data : List UInt8}
    (store : WellFormed img nodes world.file) (found : nodes id = some node)
    (owner : source ∈ node.chainSlots)
    (known : img.recs source = some (stringRecord before 0 data))
    (behind : img.capacity ≤ target) (inside : target < img.top)
    (free : ∀ id node, nodes id = some node → target ∉ node.slots)
    (next : ∀ recs file pos blocks,
      WellFormed { img with recs := recs } (movedNodes nodes source target)
        file →
      post .success
        { world with file := file, pos := pos, blocks := blocks }) :
    wp (swapNode (img.slotOffset target) (img.slotOffset source)
      img.recordSize) post world := by
  have holds := store.holds
  have nodeAt := store.nodeAt id node found
  have distinct := store.nodup id node found
  have ownSource : source ∈ node.slots := List.mem_append_left _ owner
  have outside := free id node found
  obtain ⟨chainDistinct, -, tupleApart⟩ := List.nodup_append.mp distinct
  obtain ⟨position, front, string⟩ :=
    nodeAt.last_of_end chainDistinct owner known
  obtain ⟨entry, registered, notHere⟩ := store.exists_first found owner
  have idSmall : id < img.slotOffset source := by
    obtain ⟨bound, -⟩ := List.getElem?_eq_some_iff.mp (store.entry found)
    exact lt_of_lt_of_le bound
      (holds.root_length_le (holds.record _ _ known).1)
  refine holds.wp_swapNode_whole known behind inside
    (ne_of_mem_of_not_mem ownSource outside) registered
    fun file pos blocks copied => ?_
  rw [if_neg notHere]
  refine NodeAt.wp_swapString nodeAt distinct string known outside idSmall
    (holds.slotOffset_small inside.le) copied ?_
  intro recs file pos blocks written moved
  refine next recs file pos blocks
    (store.moveRecord found ownSource free written ?_
      (moved.nodeAt nodeAt distinct string outside) ?_)
  · intro slot notTarget notOwn
    refine moved.frame slot notTarget ?_ fun chain => notOwn
      (List.mem_append_left _ (NodeImage.chain_slots_subset
        (List.mem_of_getElem? string) chain))
    rintro rfl
    exact notOwn (by simp [NodeImage.slots])
  · intro other offset
    refine (store.live_iff other offset).trans
      (exists_congr fun node' => and_congr_right fun found' => ?_)
    rw [move_of_ne (store.not_tuple found owner found')]

/-- A store and what it is after a move show the same. -/
theorem WellFormed.shows_moved {img' : Image} {file' : List UInt8}
    {parent : Nat} {fields : List FieldValue} (store : WellFormed img nodes file)
    (store' : WellFormed img' (movedNodes nodes source target) file')
    (sameSize : img'.realSize = img.realSize)
    (shows : Shows file id parent fields) : Shows file' id parent fields := by
  obtain ⟨schema, offset, stored, live, header, delivers⟩ := shows
  obtain rfl := stored.unique store.schemaAt
  obtain ⟨node, found, rfl⟩ := (store.live_iff id offset).mp live
  have found' : movedNodes nodes source target id = some _ :=
    congrArg (Option.map _) found
  have live' := store'.liveNode found'
  obtain rfl := delivers.unique (store.liveNode found).delivers
  refine ⟨_, _, store'.schemaAt, (store'.live_iff id _).mpr ⟨_, found', rfl⟩,
    ?_, ?_⟩
  · have here := (store.liveNode found).header
    have same : (NodeHeader.mk parent id).bytes =
        (NodeHeader.mk node.parent id).bytes := by
      rw [At, NodeHeader.bytes_length] at header here
      exact header.symm.trans here
    rw [same]
    exact live'.header
  · have delivers' := live'.delivers
    rw [sameSize, NodeImage.moveRecord_values] at delivers'
    exact delivers'

/-- A lookup of a record's id that does not leave the id array. -/
theorem Image.Holds.exists_of_getIdOffset {slot : Nat} {record : KeyNode}
    {post : Option Nat → World → Prop} (holds : img.Holds world.file)
    (known : img.recs slot = some record)
    (looks : wp (getIdOffset (img.slotOffset slot)) post world) :
    ∃ entry, img.schema.root[record.header.allocNode]? = some entry := by
  have inside := (holds.record _ _ known).2.1
  rw [getIdOffset] at looks
  have reads : wp readTreeSchema (fun result final =>
      result.1 = img.schema ∧ final.file = world.file) world :=
    holds.wp_readTreeSchema fun _ => ⟨rfl, rfl⟩
  obtain ⟨⟨schema, status⟩, middle, ⟨rfl, sameFile⟩, looks⟩ :=
    wp_bind_elim looks reads
  rw [← sameFile] at holds
  have seeks : wp (fseekSet (toLong (img.slotOffset slot))) (fun _ final =>
      final.file = middle.file ∧ final.pos = img.slotOffset slot) middle :=
    holds.wp_seek inside.le rfl ⟨rfl, rfl⟩
  obtain ⟨-, middle, ⟨sameFile, stands⟩, looks⟩ := wp_bind_elim looks seeks
  rw [← sameFile] at holds
  have nodes : wp (readNode img.templateSize) (fun result _ =>
      result.1.header = record.header) middle :=
    holds.wp_readNode_template known stands rfl fun _ _ _ _ _ _ => rfl
  obtain ⟨⟨node, status⟩, middle, headerEq, looks⟩ := wp_bind_elim looks nodes
  dsimp only at headerEq looks
  rw [headerEq, wp_bind] at looks
  obtain ⟨entry, found, -⟩ := exists_of_wp_index looks
  exact ⟨entry, found⟩

/-- If `swapNode` returns, its lookup of the record's id has not left the id
array. -/
theorem Image.Holds.exists_of_swapNode {record : KeyNode}
    (holds : img.Holds world.file) (known : img.recs source = some record)
    (behind : img.capacity ≤ target) (inside : target < img.top)
    (moved : source ≠ target)
    (returns : wp (swapNode (img.slotOffset target) (img.slotOffset source)
      img.recordSize) post world) :
    ∃ entry, img.schema.root[record.header.allocNode]? = some entry := by
  obtain ⟨-, sourceInside, fits, here⟩ := holds.record _ _ known
  have sized := img.bytes_length record fits
  have different : img.slotOffset source ≠ img.slotOffset target :=
    fun same => moved (img.slotOffset_inj.mp same)
  rw [swapNode] at returns
  have types : wp getTypes (fun result final => result = (img.types,
      img.templateSize) ∧ final.file = world.file) world :=
    holds.wp_getTypes fun _ => ⟨rfl, rfl⟩
  obtain ⟨_, middle, ⟨rfl, sameFile⟩, returns⟩ := wp_bind_elim returns types
  dsimp only at returns
  rw [if_pos different] at returns
  -- the record is copied
  have seeks : wp (fseekSet (toLong (img.slotOffset source))) (fun _ final =>
      final.file = world.file ∧ final.pos = img.slotOffset source) middle :=
    Image.Holds.wp_seek (by rw [sameFile]; exact holds) sourceInside.le rfl
      ⟨sameFile, rfl⟩
  obtain ⟨_, middle, ⟨sameFile, stands⟩, returns⟩ :=
    wp_bind_elim returns seeks
  have allocates : wp (malloc img.recordSize) (fun block final =>
      block.length = img.recordSize ∧ final.file = world.file ∧
        final.pos = img.slotOffset source) middle :=
    wp_malloc fun _ _ blockSized => ⟨blockSized, sameFile, stands⟩
  obtain ⟨block, middle, ⟨blockSized, sameFile, stands⟩, returns⟩ :=
    wp_bind_elim returns allocates
  have reads : wp (readFile block img.recordSize) (fun result final =>
      result.1 = record.bytes ∧ final.file = world.file) middle :=
    wp_readFile_at (by rw [sameFile, stands]; exact here) sized
      (lt_of_lt_of_le (by norm_num) img.recordSize_ge) blockSized.le
      ⟨rfl, sameFile⟩
  obtain ⟨⟨buffer, status⟩, middle, ⟨bufferEq, sameFile⟩, returns⟩ :=
    wp_bind_elim returns reads
  dsimp only at bufferEq returns
  subst bufferEq
  have seeks : wp (fseekSet (toLong (img.slotOffset target))) (fun _ final =>
      final.file = world.file ∧ final.pos = img.slotOffset target) middle :=
    Image.Holds.wp_seek (by rw [sameFile]; exact holds) inside.le rfl
      ⟨sameFile, rfl⟩
  obtain ⟨_, middle, ⟨sameFile, stands⟩, returns⟩ :=
    wp_bind_elim returns seeks
  have writes : wp (writeFile record.bytes img.recordSize) (fun _ final =>
      final.file = writeAt world.file (img.slotOffset target) record.bytes)
      middle := by
    refine wp_writeFile sized.ge
      (lt_of_lt_of_le (by norm_num) img.recordSize_ge) fun _ => ?_
    rw [List.take_of_length_le sized.le, sameFile, stands]
  obtain ⟨_, middle, writtenFile, returns⟩ := wp_bind_elim returns writes
  have written : (img.setRec target record).Holds middle.file := by
    rw [writtenFile]
    exact holds.setRec behind inside fits
  -- and its id is looked up
  have starts : wp (fseekSet 0) (fun _ final =>
      final.file = middle.file) middle := by
    rw [wp_fseekSet, if_pos le_rfl]
  obtain ⟨_, final, sameFile, returns⟩ := wp_bind_elim returns starts
  rw [← sameFile] at written
  have loads : wp readTreeSchema (fun _ final' =>
      final'.file = final.file) final :=
    Image.Holds.wp_readTreeSchema written fun _ => rfl
  obtain ⟨_, _, sameFile, returns⟩ := wp_bind_elim returns loads
  rw [← sameFile] at written
  have sourceKnown : (img.setRec target record).recs source = some record := by
    rw [Image.setRec_recs_of_ne img moved]
    exact known
  exact @Image.Holds.exists_of_getIdOffset (img.setRec target record) _ source
    record _ written sourceKnown (wp_bind.mp returns)

/-- After `swapNode` with the size of a whole record every live id resolves and
reads back as before, from the same records with the one of them in its new
slot; and `getIdOffset` tells whether the record is a tuple. -/
structure Redirects (img : Image) (nodes : Nat → Option NodeImage)
    (source target : Nat) (file : List UInt8) : Prop where
  moves : ∀ world, world.file = file →
    wp (swapNode (img.slotOffset target) (img.slotOffset source)
      img.recordSize) (fun status final => status = .success ∧
        (∃ root recs,
          WellFormed ⟨{ img.schema with root := root }, img.top, recs⟩
            (movedNodes nodes source target) final.file) ∧
        ∀ id parent fields, Shows file id parent fields →
          Shows final.file id parent fields) world
  resolves : ∀ world, world.file = file →
    wp (getIdOffset (img.slotOffset source)) (fun found final =>
      final.file = file ∧ ∀ id, found = some id ↔
        ∃ node, nodes id = some node ∧ node.slot = source) world

theorem WellFormed.redirects_tuple (store : WellFormed img nodes file)
    (found : nodes id = some node) (behind : img.capacity ≤ target)
    (inside : target < img.top)
    (free : ∀ id node, nodes id = some node → target ∉ node.slots) :
    Redirects img nodes node.slot target file := by
  obtain ⟨record, known, tupleAt⟩ := (store.nodeAt id node found).tuple
  have idEq : record.header.allocNode = id := by rw [tupleAt.header]
  constructor
  · rintro world rfl
    refine store.wp_swapNode_tuple found behind inside free ?_
    intro root recs file pos blocks store'
    exact ⟨rfl, ⟨root, recs, store'⟩,
      fun _ _ _ => store.shows_moved store' rfl⟩
  · rintro world rfl
    refine store.holds.wp_getIdOffset known (idEq ▸ store.entry found) rfl ?_
    intro pos blocks
    rw [if_pos rfl, idEq]
    refine ⟨rfl, fun other => ?_⟩
    rw [Option.some.injEq]
    constructor
    · rintro rfl
      exact ⟨node, found, rfl⟩
    · rintro ⟨node', found', slotEq⟩
      by_contra different
      exact store.apart id other node node' found found' different
        (show node.slot ∈ node.slots by simp [NodeImage.slots])
        (by simp [NodeImage.slots, slotEq])

theorem WellFormed.redirects_last {before : Nat} {data : List UInt8}
    (store : WellFormed img nodes file) (found : nodes id = some node)
    (owner : source ∈ node.chainSlots)
    (known : img.recs source = some (stringRecord before 0 data))
    (behind : img.capacity ≤ target) (inside : target < img.top)
    (free : ∀ id node, nodes id = some node → target ∉ node.slots) :
    Redirects img nodes source target file := by
  obtain ⟨entry, registered, notHere⟩ := store.exists_first found owner
  constructor
  · rintro world rfl
    refine store.wp_swapNode_last found owner known behind inside free ?_
    intro recs file pos blocks store'
    exact ⟨rfl, ⟨img.schema.root, recs, store'⟩,
      fun _ _ _ => store.shows_moved store' rfl⟩
  · rintro world rfl
    refine store.holds.wp_getIdOffset known registered rfl ?_
    intro pos blocks
    rw [if_neg notHere]
    refine ⟨rfl, fun other => iff_of_false (by simp) ?_⟩
    rintro ⟨node', found', slotEq⟩
    exact store.not_tuple found owner found' slotEq

/-- A tuple, or a record whose link to the next one is zero. -/
def Redirectable (img : Image) (nodes : Nat → Option NodeImage)
    (source : Nat) : Prop :=
  (∃ id node, nodes id = some node ∧ node.slot = source) ∨
    ∃ record, img.recs source = some record ∧ record.header.nextNode = 0

/-- A record for which `swapNode` returns is a tuple or the last one of a
string: the link of any other record is taken for an id. -/
theorem WellFormed.redirectable (store : WellFormed img nodes world.file)
    (found : nodes id = some node) (owner : source ∈ node.slots)
    (behind : img.capacity ≤ target) (inside : target < img.top)
    (free : ∀ id node, nodes id = some node → target ∉ node.slots)
    (returns : wp (swapNode (img.slotOffset target) (img.slotOffset source)
      img.recordSize) post world) :
    Redirectable img nodes source := by
  rcases List.mem_append.mp owner with string | tuple
  swap
  · exact Or.inl ⟨id, node, found, (List.mem_singleton.mp tuple).symm⟩
  obtain ⟨field, fieldMember, fieldInside⟩ := List.mem_flatMap.mp string
  cases field with
  | num word => simp [FieldImage.slots] at fieldInside
  | str chain =>
      obtain ⟨⟨_, data⟩, entry, rfl⟩ := List.mem_map.mp fieldInside
      obtain ⟨before, after, known, linked⟩ :=
        ((store.nodeAt id node found).fieldsAt.chains chain
          fieldMember).2.exists_cell entry
      refine Or.inr ⟨_, known, ?_⟩
      rcases linked with ended | ⟨next, member, rfl⟩
      · exact ended
      · -- the link is an offset, and no offset is a position in the array
        exfalso
        obtain ⟨_, registered⟩ := store.holds.exists_of_swapNode known behind
          inside (ne_of_mem_of_not_mem owner (free id node found)) returns
        obtain ⟨bound, -⟩ := List.getElem?_eq_some_iff.mp registered
        obtain ⟨⟨_, _⟩, nextEntry, rfl⟩ := List.mem_map.mp member
        obtain ⟨_, _, nextKnown, -⟩ :=
          ((store.nodeAt id node found).fieldsAt.chains chain
            fieldMember).2.exists_cell nextEntry
        have short := store.holds.root_length_le
          (store.holds.record _ _ nextKnown).1
        exact absurd (lt_of_lt_of_le bound short) (Nat.lt_irrefl _)

/-- A record can be moved to a free slot exactly if it is a tuple or the last
record of a string. -/
theorem swapNode_redirects_iff (store : WellFormed img nodes file)
    (occupied : ∃ id node, nodes id = some node ∧ source ∈ node.slots)
    (behind : img.capacity ≤ target) (inside : target < img.top)
    (free : ∀ id node, nodes id = some node → target ∉ node.slots) :
    Redirects img nodes source target file ↔
      Redirectable img nodes source := by
  obtain ⟨id, node, found, owner⟩ := occupied
  constructor
  · intro redirects
    exact WellFormed.redirectable (by exact store) found owner behind inside
      free (redirects.moves (blankWorld file) rfl)
  · intro redirectable
    rcases List.mem_append.mp owner with string | tuple
    · obtain ⟨before, after, data, known⟩ :=
        (store.nodeAt id node found).fieldsAt.exists_stringRecord string
      rcases redirectable with ⟨other, node', found', slotEq⟩ |
        ⟨record, known', ended⟩
      · exact absurd slotEq (store.not_tuple found string found')
      · obtain rfl := Option.some.inj (known.symm.trans known')
        obtain rfl : after = 0 := ended
        exact store.redirects_last found string known behind inside free
    · obtain rfl := List.mem_singleton.mp tuple
      exact store.redirects_tuple found behind inside free

/-- A record at the end of the file is free. -/
theorem WellFormed.extend (store : WellFormed img nodes file)
    (small : file.length + img.recordSize < 2 ^ 63) :
    WellFormed (img.push (zeroRecord img.realSize)) nodes
      (resize file (file.length + img.recordSize)) where
  holds := store.holds.extend small
  live_iff := store.live_iff
  nodeAt id node found := (store.nodeAt id node found).frame fun _ own =>
    Function.update_of_ne ((store.liveNode found).slot_lt own).ne _ _
  nodup := store.nodup
  apart := store.apart

theorem WellFormed.top_free (store : WellFormed img nodes file) (id : Nat)
    (node : NodeImage) (found : nodes id = some node) : img.top ∉ node.slots :=
  fun own => Nat.lt_irrefl _ ((store.liveNode found).slot_lt own)

end Stores

/-- The tuple of the store with one string moves to the end of the file. -/
theorem swapNode_redirects_longString :
    ∃ img nodes source target file, WellFormed img nodes file ∧
      Redirects img nodes source target file := by
  obtain ⟨img, nodes, id, node, chain, store, found, -, -, size, -⟩ :=
    longString_stored
  have length := longString_length
  generalize longString = file at store length
  have small : file.length + img.recordSize < 2 ^ 63 := by
    rw [length, Image.recordSize, size]
    decide
  have extended := store.wellFormed.extend small
  exact ⟨_, _, node.slot, img.top, _, extended,
    (swapNode_redirects_iff extended
      ⟨id, node, found, by simp [NodeImage.slots]⟩
      store.holds.capacity_le (Nat.lt_succ_self _)
      store.wellFormed.top_free).mpr (Or.inl ⟨id, node, found, rfl⟩)⟩

/-- The first of two records of a string cannot be moved. -/
theorem not_always_redirects :
    ¬ ∀ (img : Image) (nodes : Nat → Option NodeImage) (file : List UInt8)
      (source target : Nat), WellFormed img nodes file →
        (∃ id node, nodes id = some node ∧ source ∈ node.slots) →
        img.capacity ≤ target → target < img.top →
        (∀ id node, nodes id = some node → target ∉ node.slots) →
        Redirects img nodes source target file := by
  intro always
  obtain ⟨img, nodes, id, node, chain, store, found, string, -, size,
    spells⟩ := longString_stored
  have length := longString_length
  generalize longString = file at store length
  have small : file.length + img.recordSize < 2 ^ 63 := by
    rw [length, Image.recordSize, size]
    decide
  have two : chain.length = 2 := by
    have count := spells.count
    rw [List.length_map, List.length_replicate] at count
    exact count
  obtain ⟨⟨first, data⟩, ⟨second, data'⟩, rfl⟩ := List.length_eq_two.mp two
  have own : first ∈ node.chainSlots :=
    NodeImage.chain_slots_subset string (by simp)
  have linked := ((store.liveNode found).string string).2.1
  have extended := store.wellFormed.extend small
  have redirects := always _ _ _ first img.top extended
    ⟨id, node, found, List.mem_append_left _ own⟩ store.holds.capacity_le
    (Nat.lt_succ_self _) store.wellFormed.top_free
  have redirectable : Redirectable (img.push (zeroRecord img.realSize))
      (fun id => nodes[id]?) first :=
    @WellFormed.redirectable (img.push (zeroRecord img.realSize)) _ _ img.top _
      node (blankWorld _) _ extended found (List.mem_append_left _ own)
      store.holds.capacity_le (Nat.lt_succ_self _) store.wellFormed.top_free
      (redirects.moves (blankWorld _) rfl)
  rcases redirectable with ⟨other, node', found', slotEq⟩ |
    ⟨record, known, ended⟩
  · exact store.wellFormed.not_tuple found own found' slotEq
  · have below := (store.holds.record _ _ linked.1).2.1
    have same : (img.push (zeroRecord img.realSize)).recs first =
        img.recs first := Function.update_of_ne below.ne _ _
    rw [same, linked.1] at known
    obtain rfl := Option.some.inj known
    exact Nat.ne_of_gt img.slotOffset_pos ended

end TreeStore
