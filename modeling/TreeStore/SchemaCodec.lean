import TreeStore.DataFile

/-!
# The schema codec

What `readTreeSchema` delivers from a file that holds the bytes of a schema,
and what `writeTreeSchema` puts there.
-/

namespace TreeStore

open ByteFile ProgramLogic

/-- The header and the name of an attribute, as written. -/
def NodeAttributeInfo.bytes (info : NodeAttributeInfo) : List UInt8 :=
  leBytes 4 info.size ++ leBytes 4 info.type ++ info.attributeName

def templateBytes (template : List NodeAttributeInfo) : List UInt8 :=
  template.flatMap NodeAttributeInfo.bytes

def TreeSchema.bytes (schema : TreeSchema) : List UInt8 :=
  schema.treeMeta.bytes ++ (templateBytes schema.nodesTemplate ++
    wordsBytes schema.root)

structure NodeAttributeInfo.Valid (info : NodeAttributeInfo) : Prop where
  size_pos : 0 < info.size
  size_lt : info.size < 2 ^ 32
  type_lt : info.type < 2 ^ 32
  name_length : info.attributeName.length = info.size

/-- An attribute as `readAttribute` delivers it from any file that is long
enough: the name may be empty. -/
structure NodeAttributeInfo.Sized (info : NodeAttributeInfo) : Prop where
  size_lt : info.size < 2 ^ 32
  type_lt : info.type < 2 ^ 32
  name_length : info.attributeName.length = info.size

theorem NodeAttributeInfo.Valid.sized {info : NodeAttributeInfo}
    (valid : info.Valid) : info.Sized :=
  ⟨valid.size_lt, valid.type_lt, valid.name_length⟩

structure TreeMeta.Valid (treeMeta : TreeMeta) : Prop where
  ASCIISign : treeMeta.ASCIISign < 2 ^ 64
  rootOffset : treeMeta.rootOffset < 2 ^ 64
  firstSeq : treeMeta.firstSeq < 2 ^ 64
  secondSeq : treeMeta.secondSeq < 2 ^ 64
  curId : treeMeta.curId < 2 ^ 64
  templateSize : treeMeta.templateSize < 2 ^ 64

/-- A schema as the store keeps it: every number fits its C type, every name
has the announced length, and the id array has the size that both sides
compute. -/
structure TreeSchema.Valid (schema : TreeSchema) : Prop where
  treeMeta : schema.treeMeta.Valid
  template_length : schema.nodesTemplate.length = schema.treeMeta.templateSize
  template : ∀ info ∈ schema.nodesTemplate, info.Valid
  root_length : schema.root.length =
    getIdArraySize schema.treeMeta.templateSize schema.treeMeta.curId
  root : ∀ entry ∈ schema.root, entry < 2 ^ 64

instance (info : NodeAttributeInfo) : Decidable info.Valid :=
  decidable_of_iff (0 < info.size ∧ info.size < 2 ^ 32 ∧ info.type < 2 ^ 32 ∧
      info.attributeName.length = info.size)
    ⟨fun ⟨positive, sizeFits, typeFits, length⟩ =>
      ⟨positive, sizeFits, typeFits, length⟩,
    fun ⟨positive, sizeFits, typeFits, length⟩ =>
      ⟨positive, sizeFits, typeFits, length⟩⟩

instance (treeMeta : TreeMeta) : Decidable treeMeta.Valid :=
  decidable_of_iff (treeMeta.ASCIISign < 2 ^ 64 ∧
      treeMeta.rootOffset < 2 ^ 64 ∧ treeMeta.firstSeq < 2 ^ 64 ∧
      treeMeta.secondSeq < 2 ^ 64 ∧ treeMeta.curId < 2 ^ 64 ∧
      treeMeta.templateSize < 2 ^ 64)
    ⟨fun ⟨sign, root, first, second, counter, size⟩ =>
      ⟨sign, root, first, second, counter, size⟩,
    fun ⟨sign, root, first, second, counter, size⟩ =>
      ⟨sign, root, first, second, counter, size⟩⟩

instance (schema : TreeSchema) : Decidable schema.Valid :=
  decidable_of_iff (schema.treeMeta.Valid ∧
      schema.nodesTemplate.length = schema.treeMeta.templateSize ∧
      (∀ info ∈ schema.nodesTemplate, info.Valid) ∧
      schema.root.length =
        getIdArraySize schema.treeMeta.templateSize schema.treeMeta.curId ∧
      ∀ entry ∈ schema.root, entry < 2 ^ 64)
    ⟨fun ⟨treeMeta, count, template, length, root⟩ =>
      ⟨treeMeta, count, template, length, root⟩,
    fun ⟨treeMeta, count, template, length, root⟩ =>
      ⟨treeMeta, count, template, length, root⟩⟩

section Bytes

@[simp]
theorem TreeMeta.bytes_length (treeMeta : TreeMeta) :
    treeMeta.bytes.length = metaSize := by
  simp [TreeMeta.bytes, metaSize]

@[simp]
theorem NodeHeader.bytes_length (header : NodeHeader) :
    header.bytes.length = nodeHeadSize := by
  simp [NodeHeader.bytes, nodeHeadSize]

theorem NodeAttributeInfo.Sized.bytes_length {info : NodeAttributeInfo}
    (sized : info.Sized) : info.bytes.length = attrHeadSize + info.size := by
  simp [NodeAttributeInfo.bytes, attrHeadSize, sized.name_length]
  omega

theorem NodeAttributeInfo.Valid.bytes_length {info : NodeAttributeInfo}
    (valid : info.Valid) : info.bytes.length = attrHeadSize + info.size :=
  valid.sized.bytes_length

theorem readAt_wordsBytes (words : List Nat) (position : Nat)
    (inside : position < words.length) (fits : words[position] < 2 ^ 64) :
    leValue (readAt (wordsBytes words) (8 * position) 8) = words[position] := by
  rw [readAt, wordsBytes_slice words position inside,
    leValue_leBytes (by simpa using fits)]

theorem TreeMeta.Valid.ofBytes_bytes {treeMeta : TreeMeta}
    (valid : treeMeta.Valid) : TreeMeta.ofBytes treeMeta.bytes = treeMeta := by
  have word (position : Nat) (inside : position < 6) :=
    readAt_wordsBytes [treeMeta.ASCIISign, treeMeta.rootOffset,
      treeMeta.firstSeq, treeMeta.secondSeq, treeMeta.curId,
      treeMeta.templateSize] position inside
  cases treeMeta
  simp only [TreeMeta.ofBytes, TreeMeta.bytes, TreeMeta.mk.injEq]
  exact ⟨word 0 (by omega) valid.ASCIISign, word 1 (by omega) valid.rootOffset,
    word 2 (by omega) valid.firstSeq, word 3 (by omega) valid.secondSeq,
    word 4 (by omega) valid.curId, word 5 (by omega) valid.templateSize⟩

theorem NodeHeader.ofBytes_bytes {header : NodeHeader}
    (parentFits : header.parentNode < 2 ^ 64)
    (allocFits : header.allocNode < 2 ^ 64) :
    NodeHeader.ofBytes header.bytes = header := by
  have word (position : Nat) (inside : position < 2) :=
    readAt_wordsBytes [header.parentNode, header.allocNode] position inside
  cases header
  simp only [NodeHeader.ofBytes, NodeHeader.bytes, NodeHeader.mk.injEq]
  exact ⟨word 0 (by omega) parentFits, word 1 (by omega) allocFits⟩

theorem NodeHeader.bytes_ofBytes {bytes : List UInt8}
    (exact_length : bytes.length = nodeHeadSize) :
    (NodeHeader.ofBytes bytes).bytes = bytes := by
  have whole : wordsBytes (leWords 2 bytes) = bytes :=
    wordsBytes_leWords (by simpa [nodeHeadSize] using exact_length)
  simpa [NodeHeader.bytes, NodeHeader.ofBytes, leWords, readAt,
    List.range_succ] using whole

theorem TreeSchema.bytes_length (schema : TreeSchema) :
    schema.bytes.length = metaSize +
      (templateBytes schema.nodesTemplate).length + 8 * schema.root.length := by
  simp only [TreeSchema.bytes, List.length_append, TreeMeta.bytes_length,
    wordsBytes_length]
  omega

end Bytes

section IdArray

theorem getRealNodeSize_eq_max (size : Nat) :
    getRealNodeSize size = max 256 (8 * size) := by
  simp only [getRealNodeSize, singleNodeSize, minNodeSize]
  split <;> omega

theorem getRealNodeSize_ge (size : Nat) : 256 ≤ getRealNodeSize size := by
  rw [getRealNodeSize_eq_max]
  omega

/-- Every field of a tuple lies inside the rounded record. -/
theorem mul_le_getRealNodeSize (size : Nat) :
    8 * size ≤ getRealNodeSize size := by
  rw [getRealNodeSize_eq_max]
  omega

theorem le_getRealNodeSize (size : Nat) : size ≤ getRealNodeSize size := by
  have := mul_le_getRealNodeSize size
  omega

/-- The number of id entries that one record holds. -/
def idUnit (size : Nat) : Nat :=
  (getRealNodeSize size + nodeHeadSize) / 8

theorem idUnit_mul (size : Nat) :
    8 * idUnit size = getRealNodeSize size + nodeHeadSize := by
  have rounded : getRealNodeSize size = 256 ∨
      getRealNodeSize size = 8 * size := by
    rw [getRealNodeSize_eq_max]
    omega
  simp only [idUnit, nodeHeadSize]
  omega

theorem idUnit_ge (size : Nat) : 34 ≤ idUnit size := by
  have := idUnit_mul size
  have := getRealNodeSize_ge size
  simp only [nodeHeadSize] at *
  omega

/-- The number of whole records that the id array takes with counter `curId`. -/
def idRecords (size curId : Nat) : Nat :=
  max 1 ((curId + idUnit size - 1) / idUnit size)

theorem getIdArraySize_eq (size curId : Nat) :
    getIdArraySize size curId = idUnit size * idRecords size curId := by
  have unit_ge := idUnit_ge size
  have unit_mul := idUnit_mul size
  simp only [getIdArraySize, offsetSize, minIdArraySize, idRecords]
  rw [← unit_mul]
  generalize idUnit size = unit at unit_ge unit_mul ⊢
  rcases Nat.eq_zero_or_pos curId with rfl | positive
  · have quotient : 1 * 8 / (8 * unit) = 0 :=
      Nat.div_eq_of_lt (by omega)
    have remainder : 1 * 8 % (8 * unit) ≠ 0 := by
      rw [Nat.mod_eq_of_lt (by omega)]
      omega
    have small : (unit - 1) / unit = 0 := Nat.div_eq_of_lt (by omega)
    simp [quotient, remainder, small]
  · have counter : (if curId = 0 then curId + 1 else curId) = curId :=
      if_neg (by omega)
    rw [counter, Nat.mul_comm curId 8, Nat.mul_div_mul_left _ _ (by omega),
      Nat.mul_mod_mul_left]
    have whole (count : Nat) : count * (8 * unit) / 8 = unit * count := by
      rw [show count * (8 * unit) = 8 * (unit * count) by ring]
      exact Nat.mul_div_cancel_left _ (by omega)
    rw [whole, whole]
    have ceiling : (if 8 * (curId % unit) ≠ 0 then 1 else 0) + curId / unit =
        (curId + unit - 1) / unit := by
      have split := Nat.div_add_mod curId unit
      have bound := Nat.mod_lt curId (show 0 < unit by omega)
      have swap := Nat.mul_comm unit (curId / unit)
      symm
      by_cases exact_multiple : curId % unit = 0
      · rw [if_neg (by omega), zero_add, Nat.div_eq_iff (by omega)]
        omega
      · rw [if_pos (by omega), Nat.div_eq_iff (by omega), Nat.add_mul]
        omega
    have atLeastOne : 1 ≤ (curId + unit - 1) / unit :=
      (Nat.one_le_div_iff (by omega)).mpr (by omega)
    rw [ceiling, Nat.mul_one, Nat.max_eq_left (by nlinarith),
      Nat.max_eq_right atLeastOne]

theorem idRecords_pos (size curId : Nat) : 0 < idRecords size curId := by
  simp [idRecords]

/-- The counter never passes the loaded id array. -/
theorem curId_le_getIdArraySize (size curId : Nat) :
    curId ≤ getIdArraySize size curId := by
  rw [getIdArraySize_eq]
  have unit_ge := idUnit_ge size
  have ceiling : curId ≤
      idUnit size * ((curId + idUnit size - 1) / idUnit size) := by
    have split := Nat.div_add_mod (curId + idUnit size - 1) (idUnit size)
    have bound := Nat.mod_lt (curId + idUnit size - 1)
      (show 0 < idUnit size by omega)
    omega
  exact le_trans ceiling (Nat.mul_le_mul_left _ (Nat.le_max_right _ _))

end IdArray

section Reading

variable {world : World}

theorem wp_readTreeMeta {treeMeta : TreeMeta}
    {post : TreeMeta × ReadStatus → World → Prop} (valid : treeMeta.Valid)
    (here : At world.file world.pos treeMeta.bytes)
    (holds : ∀ blocks, post (treeMeta, .success)
      { world with pos := world.pos + metaSize, blocks := blocks }) :
    wp readTreeMeta post world := by
  rw [readTreeMeta, wp_bind]
  refine wp_malloc fun block blocks sized => ?_
  rw [wp_bind]
  refine wp_readFile_at here (by simp) (by decide) (by omega) ?_
  rw [wp_pure, valid.ofBytes_bytes]
  exact holds blocks

theorem wp_readAttribute {info : NodeAttributeInfo}
    {post : NodeAttributeInfo × ReadStatus → World → Prop}
    (valid : info.Valid) (here : At world.file world.pos info.bytes)
    (holds : ∀ blocks, post (info, .success)
      { world with
        pos := world.pos + info.bytes.length
        blocks := blocks }) :
    wp readAttribute post world := by
  obtain ⟨headHere, nameHere⟩ := at_append.mp here
  have size_eq : leValue
      (readAt (leBytes 4 info.size ++ leBytes 4 info.type) 0 4) =
        info.size := by
    have fits : info.size < 256 ^ 4 := lt_of_lt_of_le valid.size_lt (by norm_num)
    rw [readAt, List.drop_zero, List.take_left' (leBytes_length 4 _),
      leValue_leBytes fits]
  have type_eq : leValue
      (readAt (leBytes 4 info.size ++ leBytes 4 info.type) 4 4) =
        info.type := by
    have fits : info.type < 256 ^ 4 := lt_of_lt_of_le valid.type_lt (by norm_num)
    rw [readAt, List.drop_left' (leBytes_length 4 _),
      List.take_of_length_le (by simp), leValue_leBytes fits]
  rw [readAttribute, wp_bind]
  refine wp_malloc fun block blocks sized => ?_
  rw [wp_bind]
  refine wp_readFile_at headHere (by simp [attrHeadSize]) (by decide)
    (by omega) ?_
  simp only [size_eq, type_eq, wp_bind]
  refine wp_malloc fun nameBlock blocks nameSized => ?_
  have delivered : readAt world.file (world.pos + attrHeadSize) info.size =
      info.attributeName := by
    refine At.readAt_eq ?_ valid.name_length.symm
    simpa [attrHeadSize] using nameHere
  rw [wp_readFile, delivered, valid.name_length, wp_pure,
    List.take_left' valid.name_length,
    if_neg (by have := valid.size_pos; omega)]
  have advanced : world.pos + attrHeadSize + info.size =
      world.pos + info.bytes.length := by
    rw [valid.bytes_length]
    omega
  simpa [ReadStatus.or, advanced] using holds blocks

theorem wp_readAttributes {template : List NodeAttributeInfo}
    {post : List NodeAttributeInfo × ReadStatus → World → Prop}
    (valid : ∀ info ∈ template, info.Valid)
    (here : At world.file world.pos (templateBytes template))
    (holds : ∀ blocks, post (template, .success)
      { world with
        pos := world.pos + (templateBytes template).length
        blocks := blocks }) :
    wp (readAttributes template.length .success) post world := by
  induction template generalizing world post with
  | nil =>
      simp only [List.length_nil, readAttributes, wp_pure]
      simpa [templateBytes] using holds world.blocks
  | cons info template ih =>
      have infoValid := valid info (by simp)
      rw [templateBytes, List.flatMap_cons] at here
      obtain ⟨infoHere, restHere⟩ := at_append.mp here
      rw [List.length_cons, readAttributes, wp_bind]
      refine wp_readAttribute infoValid infoHere fun blocks => ?_
      simp only [ReadStatus.or, wp_bind]
      refine ih (fun other member => valid other (by simp [member])) restHere
        fun blocks => ?_
      rw [wp_pure]
      simpa [templateBytes, add_assoc] using holds blocks

/-- Reading the schema that a file starts with. -/
theorem wp_readTreeSchema {schema : TreeSchema}
    {post : TreeSchema × ReadStatus → World → Prop} (valid : schema.Valid)
    (here : At world.file 0 schema.bytes)
    (holds : ∀ blocks, post (schema, .success)
      { world with pos := schema.bytes.length, blocks := blocks }) :
    wp readTreeSchema post world := by
  obtain ⟨metaHere, restHere⟩ := at_append.mp here
  obtain ⟨templateHere, rootHere⟩ := at_append.mp restHere
  have rootPositive : 0 < schema.root.length := by
    rw [valid.root_length, getIdArraySize_eq]
    exact Nat.mul_pos (by have := idUnit_ge schema.treeMeta.templateSize; omega)
      (idRecords_pos _ _)
  rw [readTreeSchema, wp_bind, wp_fseekSet, if_pos (by omega), wp_bind]
  refine wp_readTreeMeta valid.treeMeta metaHere fun blocks => ?_
  rw [wp_bind, ← valid.template_length]
  refine wp_readAttributes valid.template (by simpa using templateHere)
    fun blocks => ?_
  simp only [wp_bind, valid.template_length, ← valid.root_length]
  refine wp_malloc fun block blocks sized => ?_
  have rootBytesHere : At world.file
      (metaSize + (templateBytes schema.nodesTemplate).length)
      (wordsBytes schema.root) := by
    simpa using rootHere
  refine wp_readFile_at (by simpa using rootBytesHere) (by simp; omega)
    (by omega) (by omega) ?_
  have fits : ∀ entry ∈ schema.root, entry < 256 ^ 8 :=
    fun entry member => by simpa using valid.root entry member
  have entries := leWords_wordsBytes fits []
  rw [List.append_nil] at entries
  have advanced : metaSize + (templateBytes schema.nodesTemplate).length +
      schema.root.length * 8 = schema.bytes.length := by
    rw [TreeSchema.bytes_length]
    omega
  rw [wp_pure, entries]
  simpa [ReadStatus.or, advanced] using holds blocks

end Reading

section Writing

variable {world : World}

/-- Writing a block as a whole, which succeeds unless there is nothing to
write. -/
theorem wp_writeFile_whole {buffer : List UInt8} {size : Nat}
    {post : WriteStatus → World → Prop} (sized : buffer.length = size)
    (inside : world.pos ≤ world.file.length)
    (holds : ∀ status blocks, (0 < size → status = .success) →
      post status
        { world with
          file := writeAt world.file world.pos buffer
          pos := world.pos + size
          blocks := blocks }) :
    wp (writeFile buffer size) post world := by
  rcases Nat.eq_zero_or_pos size with empty | positive
  · subst empty
    obtain rfl := List.eq_nil_of_length_eq_zero sized
    have same : writeAt world.file world.pos [] = world.file := by
      rw [writeAt_eq_append _ _ _ inside]
      simp
    rw [same] at holds
    rw [writeFile, wp_bind]
    apply wp_malloc
    intro behind blocks _
    rw [wp_modifyGet]
    exact holds .lenError blocks fun absurdly => absurd absurdly (lt_irrefl _)
  · apply wp_writeFile sized.ge positive
    intro blocks
    rw [List.take_of_length_le sized.le]
    exact holds .success blocks fun _ => rfl

theorem wp_writeAttributesTemplate {template : List NodeAttributeInfo}
    {ret : WriteStatus} {post : WriteStatus → World → Prop}
    (sized : ∀ info ∈ template, info.Sized)
    (inside : world.pos ≤ world.file.length)
    (holds : ∀ status blocks,
      (ret = .success → (∀ info ∈ template, 0 < info.size) →
        status = .success) →
      post status
        { world with
          file := writeAt world.file world.pos (templateBytes template)
          pos := world.pos + (templateBytes template).length
          blocks := blocks }) :
    wp (writeAttributesTemplate template ret) post world := by
  induction template generalizing world ret with
  | nil =>
      have same : writeAt world.file world.pos [] = world.file := by
        rw [writeAt_eq_append _ _ _ inside]
        simp
      have outcome := holds ret world.blocks fun success _ => success
      simpa [writeAttributesTemplate, templateBytes, same] using outcome
  | cons info template ih =>
      have infoSized := sized info (by simp)
      rw [writeAttributesTemplate, wp_bind]
      apply wp_writeFile (by simp [attrHeadSize]) (by decide)
      intro blocks
      rw [wp_bind]
      apply wp_writeFile_whole infoSized.name_length (by simp [attrHeadSize])
      intro status blocks written
      have head : (leBytes 4 info.size ++ leBytes 4 info.type).take
          attrHeadSize = leBytes 4 info.size ++ leBytes 4 info.type :=
        List.take_of_length_le (by simp [attrHeadSize])
      have joined : writeAt (writeAt world.file world.pos
          (leBytes 4 info.size ++ leBytes 4 info.type))
          (world.pos + attrHeadSize) info.attributeName =
            writeAt world.file world.pos info.bytes := by
        have adjacent := writeAt_writeAt world.file world.pos
          (leBytes 4 info.size ++ leBytes 4 info.type) info.attributeName
        simpa [NodeAttributeInfo.bytes] using adjacent
      have advanced : world.pos + attrHeadSize + info.size =
          world.pos + info.bytes.length := by
        rw [infoSized.bytes_length]
        omega
      have all : templateBytes (info :: template) =
          info.bytes ++ templateBytes template := rfl
      simp only [head, joined, advanced]
      apply ih (fun other member => sized other (by simp [member])) (by simp)
      intro status' blocks success
      rw [writeAt_writeAt, ← all, add_assoc, ← List.length_append, ← all]
      refine holds status' blocks fun started positive => success ?_
        fun other member => positive other (by simp [member])
      rw [started, written (positive info (by simp))]
      rfl

/-- Writing a schema: past the entries in memory, the id array on disk gets
whatever lies behind them. -/
theorem wp_writeTreeSchema_sized {schema : TreeSchema}
    {post : WriteStatus → World → Prop}
    (sized : ∀ info ∈ schema.nodesTemplate, info.Sized)
    (fits : ∀ entry ∈ schema.root, entry < 2 ^ 64)
    (holds : ∀ status entries blocks,
      ((∀ info ∈ schema.nodesTemplate, 0 < info.size) → status = .success) →
      entries.length =
        getIdArraySize schema.treeMeta.templateSize schema.treeMeta.curId →
      (∀ entry ∈ entries, entry < 2 ^ 64) →
      entries.take schema.root.length = schema.root.take
        (getIdArraySize schema.treeMeta.templateSize schema.treeMeta.curId) →
      post status
        { world with
          file := writeAt world.file 0 { schema with root := entries }.bytes
          pos := { schema with root := entries }.bytes.length
          blocks := blocks }) :
    wp (writeTreeSchema schema) post world := by
  have arrayPositive : 0 < getIdArraySize schema.treeMeta.templateSize
      schema.treeMeta.curId := by
    rw [getIdArraySize_eq]
    exact Nat.mul_pos
      (by have := idUnit_ge schema.treeMeta.templateSize; omega)
      (idRecords_pos _ _)
  rw [writeTreeSchema, wp_bind, wp_fseekSet, if_pos (by omega), wp_bind,
    writeTreeMeta]
  refine wp_writeFile (by simp) (by decide) fun blocks => ?_
  rw [List.take_of_length_le (by simp), wp_bind, wp_fseekSet,
    if_pos (by simp), wp_bind]
  apply wp_writeAttributesTemplate sized (by simp)
  intro status blocks success
  rw [wp_bind, writeRoot]
  refine wp_writeFile_behind (by omega) fun rootBytes blocks sized agree => ?_
  have joined := writeAt_writeAt world.file 0 schema.treeMeta.bytes
    (templateBytes schema.nodesTemplate)
  have joinedRoot := writeAt_writeAt world.file 0
    (schema.treeMeta.bytes ++ templateBytes schema.nodesTemplate) rootBytes
  simp only [TreeMeta.bytes_length, zero_add, List.length_append,
    List.append_assoc] at joined joinedRoot
  have decoded : wordsBytes (leWords (getIdArraySize
      schema.treeMeta.templateSize schema.treeMeta.curId) rootBytes) =
        rootBytes := wordsBytes_leWords (by omega)
  obtain ⟨arraySize, sizeEq⟩ : ∃ arraySize, arraySize = getIdArraySize
      schema.treeMeta.templateSize schema.treeMeta.curId := ⟨_, rfl⟩
  rw [← sizeEq] at sized agree
  have inMemory : rootBytes.take (8 * min arraySize schema.root.length) =
      (wordsBytes schema.root).take
        (8 * min arraySize schema.root.length) := by
    rw [wordsBytes_length, Nat.mul_comm _ 8, Nat.mul_min_mul_left] at agree
    rw [agree]
    rcases Nat.le_total arraySize schema.root.length with long | short
    · rw [Nat.min_eq_left long]
    · rw [Nat.min_eq_right short, List.take_of_length_le (by simp; omega),
        List.take_of_length_le (by simp)]
  have fits64 : ∀ word ∈ schema.root, word < 256 ^ 8 :=
    fun word member => by simpa using fits word member
  have known := leWords_take fits64 inMemory (Nat.min_le_left _ _)
    (Nat.min_le_right _ _)
  have cut {source : List Nat} {bound other : Nat}
      (short : source.length ≤ bound) :
      source.take (min bound other) = source.take other := by
    rw [← List.take_take, List.take_of_length_le (by simp; omega)]
  rw [cut (by simp), Nat.min_comm, cut le_rfl, sizeEq] at known
  have outcome := holds (status.or .success) _ blocks
    (fun positive => by rw [success rfl positive]; rfl) (leWords_length _ _)
    (fun entry member => by simpa using leWords_lt member) known
  have allBytes : { schema with
      root := leWords (getIdArraySize schema.treeMeta.templateSize
        schema.treeMeta.curId) rootBytes }.bytes =
        schema.treeMeta.bytes ++ (templateBytes schema.nodesTemplate ++
          rootBytes) := by
    simp [TreeSchema.bytes, decoded]
  rw [allBytes] at outcome
  have advanced : metaSize + (templateBytes schema.nodesTemplate).length +
      getIdArraySize schema.treeMeta.templateSize schema.treeMeta.curId * 8 =
        (schema.treeMeta.bytes ++ (templateBytes schema.nodesTemplate ++
          rootBytes)).length := by
    simp only [List.length_append, TreeMeta.bytes_length]
    omega
  rw [wp_pure]
  simp only [joined, joinedRoot, advanced, Int.toNat_zero, Int.toNat_natCast]
  exact outcome

theorem wp_writeTreeSchema {schema : TreeSchema}
    {post : WriteStatus → World → Prop}
    (template : ∀ info ∈ schema.nodesTemplate, info.Valid)
    (fits : ∀ entry ∈ schema.root, entry < 2 ^ 64)
    (holds : ∀ entries blocks,
      entries.length =
        getIdArraySize schema.treeMeta.templateSize schema.treeMeta.curId →
      (∀ entry ∈ entries, entry < 2 ^ 64) →
      entries.take schema.root.length = schema.root.take
        (getIdArraySize schema.treeMeta.templateSize schema.treeMeta.curId) →
      post .success
        { world with
          file := writeAt world.file 0 { schema with root := entries }.bytes
          pos := { schema with root := entries }.bytes.length
          blocks := blocks }) :
    wp (writeTreeSchema schema) post world := by
  apply wp_writeTreeSchema_sized (fun info member =>
    (template info member).sized) fits
  intro status entries blocks success sized fitting agree
  rw [success fun info member => (template info member).size_pos]
  exact holds entries blocks sized fitting agree

end Writing

end TreeStore
