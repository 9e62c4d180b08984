import TreeStore.WellFormed

/-!
# Stores as arrays of tuples

All that the readers and writers of tuples need of a file: its schema, and a
complete record wherever a live entry of the id array leads.  Strings may lie
anywhere.  Well-formed stores are of this kind.
-/

namespace TreeStore

open ByteFile ProgramLogic

/-- Every entry of the id array below the counter is zero or the offset of a
complete record. -/
structure Tuples (file : List UInt8) (schema : TreeSchema) : Prop where
  stored : SchemaAt file schema
  small : file.length < 2 ^ 63
  complete : ∀ id offset, LiveAt schema id offset →
    ∃ record, RecordAt file schema offset record

/-- The records of the live ids lie behind the id array, and no two of them
overlap. -/
structure ApartTuples (file : List UInt8) (schema : TreeSchema) : Prop
    extends Tuples file schema where
  behind : ∀ id offset, LiveAt schema id offset → schema.arrayEnd ≤ offset
  apart : ∀ id other offset offset', LiveAt schema id offset →
    LiveAt schema other offset' → id ≠ other →
      offset + schema.recordSize ≤ offset' ∨
        offset' + schema.recordSize ≤ offset

section Rules

variable {world : World} {schema : TreeSchema} {id offset position : Nat}
  {record : KeyNode}

theorem SchemaAt.wp_readTreeSchema {post : TreeSchema × ReadStatus → World → Prop}
    (stored : SchemaAt world.file schema)
    (next : ∀ blocks, post (schema, .success)
      { world with pos := schema.arrayEnd, blocks := blocks }) :
    wp readTreeSchema post world :=
  TreeStore.wp_readTreeSchema stored.valid stored.here next

theorem SchemaAt.wp_getTypes {post : List Nat × Nat → World → Prop}
    (stored : SchemaAt world.file schema)
    (next : ∀ blocks, post (schema.types, schema.treeMeta.templateSize)
      { world with pos := schema.arrayEnd, blocks := blocks }) :
    wp getTypes post world := by
  rw [getTypes, wp_bind, wp_fseekSet, if_pos le_rfl, wp_bind]
  apply SchemaAt.wp_readTreeSchema (by exact stored)
  intro blocks
  rw [wp_pure]
  exact next blocks

/-- Looking up a live id. -/
theorem SchemaAt.wp_convItoO {unset : Nat}
    {post : CrudStatus × Nat → World → Prop}
    (stored : SchemaAt world.file schema) (live : LiveAt schema id offset)
    (next : ∀ pos blocks, post (.success, offset)
      { world with pos := pos, blocks := blocks }) :
    wp (convItoO id unset) post world := by
  rw [convItoO, wp_bind, wp_fseekSet, if_pos le_rfl, wp_bind]
  apply SchemaAt.wp_readTreeSchema (by exact stored)
  intro blocks
  dsimp only
  rw [wp_bind]
  apply wp_index live.entry
  rw [if_neg live.nonzero, wp_pure]
  exact next _ blocks

/-- Reading the record at which the stream stands. -/
theorem RecordAt.wp_readNode {size : Nat}
    {post : KeyNode × ReadStatus → World → Prop}
    (here : RecordAt world.file schema offset record)
    (stands : world.pos = offset) (template : size = schema.treeMeta.templateSize)
    (next : ∀ data status pos blocks,
      data.take schema.realSize = record.data → schema.realSize ≤ data.length →
      post (⟨record.header, data⟩, status)
        { world with pos := pos, blocks := blocks }) :
    wp (readNode size) post world := by
  subst stands template
  apply wp_readNode_at here.here (by simp)
  · rw [here.fits.data_length]
    exact le_getRealNodeSize _
  · intro read status pos blocks started long
    rw [here.fits.data_length] at started long
    rw [NodeHeader.ofBytes_bytes here.fits.parentNode here.fits.allocNode]
    exact next read status pos blocks started long

/-- Reading a record never faults. -/
theorem wp_readNode_any {size : Nat}
    {post : KeyNode × ReadStatus → World → Prop}
    (next : ∀ result pos blocks, post result
      { world with pos := pos, blocks := blocks }) :
    wp (readNode size) post world := by
  rw [readNode, wp_bind]
  apply wp_malloc
  intro header blocks _
  rw [wp_bind, wp_readFile]
  dsimp only
  rw [wp_bind]
  apply wp_malloc
  intro data blocks _
  rw [wp_bind, wp_readFile, wp_pure]
  exact next _ _ _

/-- Where the file is long enough, there is a record. -/
theorem exists_recordAt {file : List UInt8}
    (inside : offset + schema.recordSize ≤ file.length) :
    ∃ record, RecordAt file schema offset record := by
  rw [TreeSchema.recordSize] at inside
  obtain ⟨size, sizeEq⟩ : ∃ size, size = schema.realSize := ⟨_, rfl⟩
  rw [← sizeEq] at inside
  have headLength : (readAt file offset nodeHeadSize).length = nodeHeadSize := by
    rw [readAt_length]
    omega
  have word_lt (position : Nat) :
      leValue (readAt (readAt file offset nodeHeadSize) position 8) < 2 ^ 64 := by
    apply lt_of_lt_of_le (leValue_lt _)
    rw [show (2 : Nat) ^ 64 = 256 ^ 8 by norm_num]
    apply Nat.pow_le_pow_right (by norm_num)
    rw [readAt_length]
    omega
  refine ⟨⟨NodeHeader.ofBytes (readAt file offset nodeHeadSize),
    readAt file (offset + nodeHeadSize) size⟩, ⟨word_lt 0, word_lt 8, ?_⟩, ?_⟩
  · rw [← sizeEq, readAt_length]
    omega
  · rw [KeyNode.bytes, NodeHeader.bytes_ofBytes headLength, at_append,
      headLength]
    exact ⟨at_readAt (by omega), at_readAt (by omega)⟩

theorem SchemaAt.types_length {file : List UInt8}
    (stored : SchemaAt file schema) :
    schema.types.length = schema.treeMeta.templateSize := by
  rw [List.length_map, stored.valid.template_length]

theorem SchemaAt.word_inside {file : List UInt8}
    (stored : SchemaAt file schema) (inside : position < schema.types.length) :
    8 * position + 8 ≤ schema.realSize := by
  have := stored.types_length
  have := mul_le_getRealNodeSize schema.treeMeta.templateSize
  simp only [TreeSchema.realSize]
  omega

end Rules

/-- A live id has one offset. -/
theorem LiveAt.unique {schema : TreeSchema} {id offset offset' : Nat}
    (live : LiveAt schema id offset) (live' : LiveAt schema id offset') :
    offset = offset' :=
  Option.some.inj (live.entry.symm.trans live'.entry)

/-- A write behind the id array leaves the schema. -/
theorem SchemaAt.writeAt {file bytes : List UInt8} {schema : TreeSchema}
    {offset : Nat} (stored : SchemaAt file schema)
    (behind : schema.arrayEnd ≤ offset) :
    SchemaAt (writeAt file offset bytes) schema :=
  ⟨stored.valid, stored.here.writeAt_frame (Or.inl (by rw [zero_add]; exact behind))⟩

/-- The live ids of a well-formed store lead to tuples. -/
theorem WellFormed.apartTuples {img : Image} {nodes : Nat → Option NodeImage}
    {file : List UInt8} (store : WellFormed img nodes file) :
    ApartTuples file img.schema where
  stored := store.schemaAt
  small := store.holds.small
  complete := by
    intro id offset live
    obtain ⟨node, found, rfl⟩ := (store.live_iff id offset).mp live
    obtain ⟨record, known, -⟩ := (store.nodeAt id node found).tuple
    obtain ⟨-, -, fits, here⟩ := store.holds.record _ _ known
    exact ⟨record, fits, here⟩
  behind := by
    intro id offset live
    obtain ⟨node, found, rfl⟩ := (store.live_iff id offset).mp live
    obtain ⟨record, known, -⟩ := (store.nodeAt id node found).tuple
    obtain ⟨behind, -, -, -⟩ := store.holds.record _ _ known
    rw [TreeSchema.arrayEnd, img.schema_length store.holds.valid]
    exact img.slotOffset_mono behind
  apart := by
    intro id other offset offset' live live' different
    obtain ⟨node, found, rfl⟩ := (store.live_iff id offset).mp live
    obtain ⟨node', found', rfl⟩ := (store.live_iff other offset').mp live'
    have slots : node.slot ≠ node'.slot := by
      intro same
      apply store.apart id other node node' found found' different
        (List.mem_append_right _ (List.mem_singleton_self node.slot))
      rw [same]
      exact List.mem_append_right _ (List.mem_singleton_self node'.slot)
    rcases Nat.lt_or_gt_of_ne slots with less | greater
    · exact Or.inl (img.slotOffset_apart less)
    · exact Or.inr (img.slotOffset_apart greater)

theorem Sound.apartTuples {file : List UInt8} {schema : TreeSchema}
    (sound : Sound file) (stored : SchemaAt file schema) :
    ApartTuples file schema := by
  obtain ⟨img, nodes, store⟩ := sound
  obtain rfl := stored.unique store.schemaAt
  exact store.apartTuples

end TreeStore
