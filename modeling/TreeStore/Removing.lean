import TreeStore.Runs

/-!
# Removing a node

`removeNode` refuses an id whose entry is zero.  Otherwise it cuts the file off
at the end of the id array, because the seek in `swapLastNode` is refused; only
the removal of the last node of a store leaves a healthy store behind.
-/

namespace TreeStore

open ByteFile ProgramLogic LinkedRecords

/-- The schema after the only id has been removed. -/
def TreeSchema.cleared (schema : TreeSchema) : TreeSchema :=
  { schema with
    root := schema.root.set 0 0
    treeMeta := { schema.treeMeta with curId := 0 } }

section Bytes

variable {world : World} {header data : List UInt8}

/-- Writing a node back where it was read changes nothing. -/
theorem wp_writeNode_back {read : List UInt8} {size : Nat}
    {post : WriteStatus → World → Prop}
    (here : At world.file world.pos (header ++ data))
    (headerSized : header.length = nodeHeadSize)
    (started : read.take data.length = data) (long : data.length ≤ read.length)
    (size_eq : size = data.length) (positive : 0 < size)
    (next : ∀ pos blocks,
      post .success { world with pos := pos, blocks := blocks }) :
    wp (writeNode ⟨NodeHeader.ofBytes header, read⟩ size) post world := by
  subst size_eq
  have joined := writeAt_writeAt world.file world.pos header data
  have nonempty : header ++ data ≠ [] := by
    refine List.ne_nil_of_length_pos ?_
    rw [List.length_append]
    omega
  have same := here.writeAt_self (here.length_le nonempty)
  rw [headerSized] at joined
  rw [writeNode, wp_bind]
  refine wp_writeFile (by simp) (by decide) fun blocks => ?_
  rw [wp_bind]
  refine wp_writeFile long positive fun blocks => ?_
  rw [wp_pure]
  simp only [started, NodeHeader.bytes_ofBytes headerSized,
    List.take_of_length_le headerSized.le, joined, same]
  exact next _ _

/-- The redirection of `swapNode` for a record of zeros: what it takes for the
preceding record is the start of the file, and it finds no link to redirect
there. -/
theorem wp_swapString_hole {types : List Nat} {size dest src : Nat}
    {post : Unit → World → Prop}
    (start : At world.file 0 (header ++ data))
    (hole : At world.file src (List.replicate nodeHeadSize 0))
    (headerSized : header.length = nodeHeadSize)
    (dataSized : data.length = getRealNodeSize size)
    (small : src < 2 ^ 63)
    (notNext : (NodeHeader.ofBytes header).nextNode ≠ src)
    (notLinked : ∀ position < size, types[position]? = some STRING →
      leValue (readAt data (8 * position) 8) ≠ src)
    (next : ∀ pos blocks, post () { world with pos := pos, blocks := blocks }) :
    wp (swapString types size dest src) post world := by
  have zeros : NodeHeader.ofBytes (List.replicate nodeHeadSize 0) = ⟨0, 0⟩ := by
    decide
  have atStart : toLong 0 = 0 := rfl
  rw [swapString, wp_bind]
  refine wp_fseekSet_toLong small ?_
  rw [wp_bind]
  refine @wp_readNode_at _ _ (List.replicate nodeHeadSize 0) [] _
    (by rw [List.append_nil]; exact hole) (by simp) (Nat.zero_le _) ?_
  intro _ _ pos blocks _ _
  rw [zeros, wp_bind]
  refine wp_malloc fun block blocks sized => ?_
  simp only [ne_eq, not_true_eq_false, if_false, wp_bind, wp_pure, atStart,
    wp_fseekSet, le_refl, if_true]
  refine wp_readFile_at (by exact (at_append.mp start).1) headerSized
    (by decide) sized.le ?_
  rw [if_neg notNext]
  simp only [wp_bind, wp_fseekSet, le_refl, if_true]
  refine wp_readNode_at (by exact start) headerSized
    (by rw [dataSized]; exact le_getRealNodeSize _) ?_
  intro read status pos blocks started long
  have unchanged : redirectField ⟨NodeHeader.ofBytes header, read⟩ types size
      dest src = ⟨NodeHeader.ofBytes header, read⟩ := by
    have none : ((List.range size).find? fun position =>
        types[position]? = some STRING ∧
          (KeyNode.mk (NodeHeader.ofBytes header) read).word position = src) =
            none := by
      refine List.find?_eq_none.mpr fun position member linked => ?_
      obtain ⟨string, word⟩ := of_decide_eq_true linked
      have inside := List.mem_range.mp member
      have fieldInside : 8 * position + 8 ≤ data.length := by
        have := mul_le_getRealNodeSize size
        omega
      rw [@Image.word_of_take ⟨NodeHeader.ofBytes header, data⟩ _ _ _ _
        (NodeHeader.ofBytes header) started fieldInside] at word
      exact notLinked position inside string word
    rw [redirectField, none]
  rw [unchanged]
  refine wp_writeNode_back (by exact start) headerSized started long
    dataSized.symm ?_ ?_
  · have := getRealNodeSize_ge size
    omega
  · intro pos blocks
    rw [wp_pure]
    exact next pos blocks

end Bytes

namespace Image

variable {img : Image} {world : World} {id : Nat}

/-- An id whose entry is zero is refused, and the file stays as it is. -/
theorem Holds.wp_removeNode_absent {fuel : Nat}
    {post : CrudStatus → World → Prop} (holds : img.Holds world.file)
    (absent : img.schema.root[id]? = some 0)
    (next : ∀ pos blocks,
      post .fail { world with pos := pos, blocks := blocks }) :
    wp (removeNode (fuel + 1) id false) post world := by
  rw [removeNode, wp_bind]
  refine holds.wp_getTypes fun blocks => ?_
  simp only [Bool.false_eq_true, if_false]
  rw [wp_bind, removeFromIdArray, wp_bind, wp_fseekSet, if_pos le_rfl, wp_bind]
  refine Holds.wp_readTreeSchema (by exact holds) fun blocks => ?_
  rw [wp_bind]
  refine wp_index absent ?_
  rw [if_pos rfl, wp_pure, wp_pure]
  exact next _ blocks

/-- Removing the entry of the only id. -/
theorem Holds.wp_removeFromIdArray_only {offset : Nat}
    {post : Option Nat → World → Prop} (holds : img.Holds world.file)
    (only : img.curId = 1) (entry : img.schema.root[0]? = some offset)
    (nonzero : offset ≠ 0)
    (next : ∀ file pos blocks,
      Holds { img with schema := img.schema.cleared } file →
      post (some offset)
        { world with file := file, pos := pos, blocks := blocks }) :
    wp (removeFromIdArray 0) post world := by
  have capacity : img.capacity = 1 := by
    rw [Image.capacity, only, idRecords_one]
  rw [removeFromIdArray, wp_bind, wp_fseekSet, if_pos le_rfl, wp_bind]
  refine Holds.wp_readTreeSchema (by exact holds) fun blocks => ?_
  rw [wp_bind]
  refine wp_index entry ?_
  rw [if_neg nonzero]
  have counter : (if img.schema.treeMeta.curId = 0 + 1 then
      img.schema.treeMeta.curId - 1 else img.schema.treeMeta.curId) = 0 := by
    rw [if_pos (by exact only), show img.schema.treeMeta.curId = 1 from only]
  dsimp only
  rw [counter, wp_bind]
  refine Holds.wp_writeTreeSchema (by exact holds) rfl rfl ?_ ?_ ?_ ?_ ?_
  · exact { holds.valid.treeMeta with curId := by norm_num }
  · intro word member
    rcases List.mem_or_eq_of_mem_set member with old | rfl
    · exact holds.valid.root word old
    · norm_num
  · rw [idRecords_zero, ← capacity]
    exact holds.capacity_le
  · intro slot record known
    rw [idRecords_zero, ← capacity]
    exact (holds.record slot record known).1
  · intro entries file pos blocks sized agree written
    have sameLength : entries.length = (img.schema.root.set 0 0).length := by
      rw [List.length_set, holds.valid.root_length, sized, getIdArraySize_eq,
        getIdArraySize_eq, idRecords_zero,
        show img.schema.treeMeta.curId = 1 from only, idRecords_one]
    have same : entries = img.schema.root.set 0 0 := by
      rw [← sized, sameLength, List.take_length, ← sameLength,
        List.take_length] at agree
      exact agree
    subst same
    rw [wp_pure]
    exact next file pos blocks written

/-- A file that is cut off at the end of the id array. -/
theorem Holds.cut {file : List UInt8} (holds : img.Holds file) :
    Holds { img with top := img.capacity, recs := fun _ => none }
      (resize file (img.slotOffset img.capacity)) := by
  have ends := img.schema_length holds.valid
  have small := holds.slotOffset_small holds.capacity_le
  refine ⟨holds.valid, ?_, resize_length _ _, ?_, le_rfl, by rintro _ _ ⟨⟩⟩
  · exact holds.schemaHere.resize_frame (by rw [zero_add, ends])
  · rw [resize_length]
    exact small

/-- `swapLastNode` finds the stream at the end of the id array, and moves
nothing when that is where the hole is. -/
theorem Holds.wp_swapLastNode_end {nodeSize dest : Nat}
    {post : CrudStatus → World → Prop} (holds : img.Holds world.file)
    (atEnd : dest = img.slotOffset img.capacity)
    (next : ∀ pos blocks,
      Holds { img with top := img.capacity, recs := fun _ => none }
        (resize world.file (img.slotOffset img.capacity)) →
      post .success
        { world with
          file := resize world.file (img.slotOffset img.capacity)
          pos := pos
          blocks := blocks }) :
    wp (swapLastNode dest nodeSize) post world := by
  rw [swapLastNode, wp_bind]
  refine holds.wp_getTypes fun blocks => ?_
  have refused : ¬ (0 : Int) ≤ -((getRealNodeSize img.templateSize +
      nodeHeadSize : Nat) : Int) := by
    simp only [nodeHeadSize]
    omega
  dsimp only
  rw [wp_bind, wp_fseekSet, if_neg refused, wp_bind, wp_ftell, wp_bind, atEnd,
    swapNode, wp_bind]
  refine Holds.wp_getTypes (by exact holds) fun blocks => ?_
  simp only [ne_eq, not_true_eq_false, if_false]
  rw [wp_pure, wp_bind, wp_ftruncate, wp_pure]
  exact next _ blocks holds.cut

/-- Without a live id there are no children. -/
theorem Holds.wp_findByParent_none {parent : Nat}
    {post : List ResultSetNode → World → Prop} (holds : img.Holds world.file)
    (none : img.curId = 0)
    (next : ∀ pos blocks, post [] { world with pos := pos, blocks := blocks }) :
    wp (findByParent parent) post world := by
  rw [findByParent, wp_bind]
  refine holds.wp_readTreeSchema fun blocks => ?_
  dsimp only
  rw [show img.schema.treeMeta.curId = 0 from none]
  exact (wp_pure _).mpr (next _ blocks)

/-- What is taken for a record header at the start of the file. -/
def schemaHead (img : Image) : List UInt8 :=
  img.schema.bytes.take nodeHeadSize

/-- What is taken for the data of a record at the start of the file. -/
def schemaData (img : Image) : List UInt8 :=
  (img.schema.bytes.drop nodeHeadSize).take img.realSize

theorem Holds.record_le_schema {file : List UInt8} (holds : img.Holds file) :
    nodeHeadSize + img.realSize ≤ img.schema.bytes.length := by
  have one : 1 ≤ img.capacity := idRecords_pos _ _
  have first := img.slotOffset_mono one
  have start : img.slotOffset 1 = img.dataStart + img.recordSize := by
    rw [slotOffset, Nat.mul_one]
  rw [img.schema_length holds.valid, Nat.add_comm]
  exact le_trans (by rw [start]; exact Nat.le_add_left _ _) first

theorem Holds.schemaHead_length {file : List UInt8} (holds : img.Holds file) :
    img.schemaHead.length = nodeHeadSize := by
  have := holds.record_le_schema
  rw [schemaHead, List.length_take]
  omega

theorem Holds.schemaData_length {file : List UInt8} (holds : img.Holds file) :
    img.schemaData.length = img.realSize := by
  have := holds.record_le_schema
  rw [schemaData, List.length_take, List.length_drop]
  omega

theorem start_at {file' : List UInt8}
    (here : At file' 0 img.schema.bytes) :
    At file' 0 (img.schemaHead ++ img.schemaData) := by
  have split : img.schema.bytes = (img.schemaHead ++ img.schemaData) ++
      (img.schema.bytes.drop nodeHeadSize).drop img.realSize := by
    rw [schemaHead, schemaData, List.append_assoc, List.take_append_drop,
      List.take_append_drop]
  rw [split] at here
  exact (at_append.mp here).1

theorem schemaHead_next (valid : img.schema.Valid) :
    (NodeHeader.ofBytes img.schemaHead).nextNode =
      img.schema.treeMeta.rootOffset := by
  have prefixed : img.schemaHead = img.schema.treeMeta.bytes.take 16 := by
    rw [schemaHead, TreeSchema.bytes,
      List.take_append_of_le_length
        (by rw [TreeMeta.bytes_length]; decide)]
  have word := readAt_wordsBytes [img.schema.treeMeta.ASCIISign,
    img.schema.treeMeta.rootOffset, img.schema.treeMeta.firstSeq,
    img.schema.treeMeta.secondSeq, img.schema.treeMeta.curId,
    img.schema.treeMeta.templateSize] 1 (by simp) valid.treeMeta.rootOffset
  change leValue (readAt img.schemaHead 8 8) = _
  rw [prefixed, readAt, List.drop_take, List.take_take]
  exact word

theorem schemaData_word {position : Nat} (inside : position < img.templateSize) :
    leValue (readAt img.schemaData (8 * position) 8) =
      leValue (readAt img.schema.bytes (nodeHeadSize + 8 * position) 8) := by
  have := mul_le_getRealNodeSize img.templateSize
  rw [schemaData, readAt, readAt, List.drop_take, List.drop_drop,
    List.take_take, Nat.min_eq_left (by simp only [realSize]; omega)]

/-- A write behind the end of a file leaves zeros before it. -/
theorem at_hole {file bytes : List UInt8} {offset size : Nat}
    (behind : file.length + size ≤ offset) :
    At (writeAt file offset bytes) file.length (List.replicate size 0) := by
  refine at_iff.mpr fun index inside => ?_
  rw [List.length_replicate] at inside
  rw [writeAt_getElem?, if_pos (by omega), List.getElem?_eq_none (by omega),
    List.getElem?_replicate, if_pos inside]
  rfl

/-- `swapNode` on a file that ends with the id array: the record that should be
moved into the hole at `dest` is not there, and only the hole is written. -/
theorem Holds.wp_swapNode_hole {dest source : Nat}
    {post : CrudStatus → World → Prop} (holds : img.Holds world.file)
    (bare : img.top = img.capacity)
    (sourceEq : source = img.slotOffset img.capacity)
    (behind : source + img.recordSize ≤ dest) (small : dest < 2 ^ 63)
    (free : img.schema.root[0]? = some 0)
    (notNext : img.schema.treeMeta.rootOffset ≠ source)
    (notLinked : ∀ position < img.templateSize,
      img.types[position]? = some STRING →
        leValue (readAt img.schema.bytes (nodeHeadSize + 8 * position) 8) ≠
          source)
    (next : ∀ bytes pos blocks,
      post .success
        { world with
          file := writeAt world.file dest bytes
          pos := pos
          blocks := blocks }) :
    wp (swapNode dest source img.realSize) post world := by
  have ends := img.schema_length holds.valid
  have lengthEq := holds.length_eq
  rw [bare, ← sourceEq] at lengthEq
  have recordPositive := img.recordSize_ge
  have realPositive := getRealNodeSize_ge img.templateSize
  have positive : 0 < img.realSize := by
    simp only [realSize]
    omega
  have apart : source ≠ dest := by omega
  have sourceSmall : source < 2 ^ 63 := by omega
  have sourcePositive : source ≠ 0 := by
    rw [sourceEq]
    exact Nat.ne_of_gt img.slotOffset_pos
  rw [swapNode, wp_bind]
  refine holds.wp_getTypes fun blocks => ?_
  dsimp only
  rw [if_pos apart, wp_bind]
  refine wp_fseekSet_toLong sourceSmall ?_
  rw [wp_bind]
  refine wp_malloc fun block blocks blockSized => ?_
  rw [wp_bind, wp_readFile, wp_bind]
  refine wp_fseekSet_toLong small ?_
  have nothing : readAt world.file source img.realSize = [] := by
    rw [readAt, List.drop_eq_nil_of_le lengthEq.le, List.take_nil]
  rw [nothing, wp_bind]
  have sized : img.realSize ≤
      ([] ++ block.drop ([] : List UInt8).length).length := by
    simp [blockSized]
  refine wp_writeFile (by exact sized) (by exact positive) fun blocks => ?_
  rw [wp_bind, wp_fseekSet, if_pos le_rfl, wp_bind]
  dsimp only
  obtain ⟨file, fileEq⟩ : ∃ file, file = writeAt world.file dest
      (([] ++ block.drop ([] : List UInt8).length).take img.realSize) :=
    ⟨_, rfl⟩
  have next' := next
    (([] ++ block.drop ([] : List UInt8).length).take img.realSize)
  rw [← fileEq] at next' ⊢
  have schemaHere : At file 0 img.schema.bytes := by
    rw [fileEq]
    exact holds.schemaHere.writeAt_frame (Or.inl (by omega))
  have hole : At file source (List.replicate nodeHeadSize 0) := by
    rw [fileEq, ← lengthEq]
    refine at_hole ?_
    simp only [nodeHeadSize]
    omega
  refine TreeStore.wp_readTreeSchema holds.valid (by exact schemaHere)
    fun blocks => ?_
  dsimp only
  rw [wp_bind, getIdOffset, wp_bind]
  refine TreeStore.wp_readTreeSchema holds.valid (by exact schemaHere)
    fun blocks => ?_
  dsimp only
  rw [wp_bind]
  refine wp_fseekSet_toLong sourceSmall ?_
  rw [wp_bind]
  refine @wp_readNode_at _ _ (List.replicate nodeHeadSize 0) [] _
    (by rw [List.append_nil]; exact hole) (by simp) (Nat.zero_le _) ?_
  intro _ _ pos blocks _ _
  have zeros : NodeHeader.ofBytes (List.replicate nodeHeadSize 0) = ⟨0, 0⟩ := by
    decide
  rw [zeros]
  dsimp only
  rw [wp_bind]
  refine wp_index free ?_
  rw [if_neg sourcePositive.symm, wp_pure]
  dsimp only
  rw [wp_bind]
  refine wp_swapString_hole (by exact start_at schemaHere) (by exact hole)
    (by exact holds.schemaHead_length) (by exact holds.schemaData_length)
    sourceSmall ?_ ?_ ?_
  · rw [img.schemaHead_next holds.valid]
    exact notNext
  · intro position inside string
    rw [img.schemaData_word inside]
    exact notLinked position inside string
  · intro pos blocks
    rw [wp_pure]
    exact next' pos blocks

/-- `swapLastNode` on a file that ends with the id array writes into a hole and
cuts it off again. -/
theorem Holds.wp_swapLastNode_hole {dest nodeSize : Nat}
    {post : CrudStatus → World → Prop} (holds : img.Holds world.file)
    (bare : img.top = img.capacity) (template : nodeSize = img.realSize)
    (behind : img.slotOffset img.capacity + img.recordSize ≤ dest)
    (small : dest < 2 ^ 63) (free : img.schema.root[0]? = some 0)
    (notNext : img.schema.treeMeta.rootOffset ≠ img.slotOffset img.capacity)
    (notLinked : ∀ position < img.templateSize,
      img.types[position]? = some STRING →
        leValue (readAt img.schema.bytes (nodeHeadSize + 8 * position) 8) ≠
          img.slotOffset img.capacity)
    (next : ∀ file pos blocks,
      Holds { img with top := img.capacity, recs := fun _ => none } file →
      post .success
        { world with file := file, pos := pos, blocks := blocks }) :
    wp (swapLastNode dest nodeSize) post world := by
  subst template
  have ends := img.schema_length holds.valid
  have refused : ¬ (0 : Int) ≤ -((getRealNodeSize img.templateSize +
      nodeHeadSize : Nat) : Int) := by
    simp only [nodeHeadSize]
    omega
  rw [swapLastNode, wp_bind]
  refine holds.wp_getTypes fun blocks => ?_
  dsimp only
  rw [wp_bind, wp_fseekSet, if_neg refused, wp_bind, wp_ftell, wp_bind]
  refine Holds.wp_swapNode_hole (by exact holds) bare rfl behind small free
    notNext notLinked fun bytes pos blocks => ?_
  rw [wp_bind, wp_ftruncate, wp_pure]
  refine next _ _ _ ⟨holds.valid, ?_, resize_length _ _, ?_, le_rfl,
    by rintro _ _ ⟨⟩⟩
  · refine At.resize_frame (holds.schemaHere.writeAt_frame (Or.inl ?_)) ?_
    · rw [zero_add, ends]
      omega
    · rw [zero_add, ends]
  · rw [resize_length]
    exact holds.slotOffset_small holds.capacity_le

end Image

section Store

variable {img : Image} {nodes : List NodeImage} {world : World}

/-- The image of a store whose only node has been removed. -/
def Image.clearedImage (img : Image) : Image where
  schema := img.schema.cleared
  top := 1
  recs := fun _ => none

theorem storeAt_cleared {file : List UInt8} (only : img.curId = 1)
    (fresh : FreshFrom img img.curId) (holds : img.clearedImage.Holds file) :
    StoreAt img.clearedImage [] file := by
  refine ⟨holds, ⟨by simp, by simp, fun slot => ?_⟩, rfl, by simp, ?_⟩
  · have reserved : img.clearedImage.reserved = 1 := idRecords_one _
    rw [reserved]
    simp [Image.clearedImage]
    omega
  · intro id _ below
    change (img.schema.root.set 0 0)[id]? = some 0
    cases id with
    | zero =>
        have length := holds.valid.root_length
        change (img.schema.root.set 0 0).length = getIdArraySize _ 0 at length
        rw [List.length_set, getIdArraySize_eq] at length
        refine List.getElem?_set_self ?_
        rw [length]
        exact Nat.mul_pos (Nat.zero_lt_of_lt (idUnit_ge _)) (idRecords_pos _ _)
    | succ id =>
        rw [List.getElem?_set_ne (Nat.succ_ne_zero id).symm]
        exact fresh (id + 1) (only.trans_le (Nat.succ_pos id)) below

/-- Without strings a node takes no slot but its own. -/
theorem StoreAt.chainSlots_eq {file : List UInt8} {id : Nat} {node : NodeImage}
    (store : StoreAt img nodes file)
    (numbers : ∀ position : Nat, img.types[position]? ≠ some STRING)
    (found : nodes[id]? = some node) : node.chainSlots = [] := by
  have nodeAt := store.layout.nodeAt id node found
  refine List.flatMap_eq_nil_iff.mpr fun field member => ?_
  cases field with
  | num word => rfl
  | str chain =>
      obtain ⟨position, here⟩ := List.getElem?_of_mem member
      exact absurd ((nodeAt.fieldsAt.typed _ _ here).mpr ⟨chain, rfl⟩)
        (numbers position)

/-- The only node of a store without strings lies behind the id array. -/
theorem StoreAt.only_slot {file : List UInt8} {node : NodeImage}
    (store : StoreAt img nodes file) (only : img.curId = 1)
    (numbers : ∀ position : Nat, img.types[position]? ≠ some STRING)
    (found : nodes[0]? = some node) : node.slot = 1 := by
  have nodesEq : nodes = [node] := by
    have count := store.count
    rw [only, List.length_eq_one_iff] at count
    obtain ⟨other, rfl⟩ := count
    simpa using found
  have reserved : img.reserved = 1 := by
    rw [Image.reserved, only]
    have := idUnit_ge img.templateSize
    rw [idRecords_succ, Nat.div_eq_of_lt (by omega)]
  have noStrings := store.chainSlots_eq numbers found
  have covers := (store.layout.covers 1).mpr
    ⟨reserved.le, reserved ▸ store.reserved_lt (by omega)⟩
  rw [nodesEq] at covers
  simpa [NodeImage.slots, noStrings, eq_comm] using covers

/-- Removing the only node of a store without strings. -/
theorem StoreAt.wp_removeNode_number {fuel : Nat}
    {post : CrudStatus → World → Prop} (store : StoreAt img nodes world.file)
    (only : img.curId = 1)
    (numbers : ∀ position : Nat, img.types[position]? ≠ some STRING)
    (next : ∀ file pos blocks, StoreAt img.clearedImage [] file →
      post .success
        { world with file := file, pos := pos, blocks := blocks }) :
    wp (removeNode (fuel + 1) 0 false) post world := by
  obtain ⟨node, found⟩ := store.exists_node (by omega : 0 < img.curId)
  have slotEq : node.slot = 1 := store.only_slot only numbers found
  have nonzero : img.slotOffset node.slot ≠ 0 :=
    Nat.ne_of_gt img.slotOffset_pos
  rw [removeNode, wp_bind]
  refine store.holds.wp_getTypes fun blocks => ?_
  simp only [Bool.false_eq_true, if_false]
  rw [wp_bind]
  refine Image.Holds.wp_removeFromIdArray_only (by exact store.holds) only
    (store.root 0 node found) nonzero fun file pos blocks holds => ?_
  dsimp only
  rw [wp_bind]
  refine wp_mono (wp_forM_range (fun _ middle =>
    middle = { world with file := file, pos := pos, blocks := blocks })
    img.templateSize rfl ?_) ?_
  · rintro index - _ rfl
    rw [if_neg (numbers index), wp_pure]
  · rintro _ _ rfl
    let after : Image := { img with schema := img.schema.cleared }
    have capacity : after.capacity = 1 := idRecords_zero _
    rw [wp_bind]
    refine @Image.Holds.wp_swapLastNode_end after _ _ _ _ holds
      (congrArg after.slotOffset (slotEq.trans capacity.symm)) ?_
    intro pos blocks cut
    rw [capacity] at cut
    have cleared : img.clearedImage.Holds
        (resize file (after.slotOffset 1)) := cut
    rw [capacity, wp_bind]
    refine Image.Holds.wp_findByParent_none (by exact cleared) rfl ?_
    intro pos blocks
    rw [wp_bind]
    refine (wp_pure _).mpr ?_
    rw [wp_pure]
    exact next _ _ _ (storeAt_cleared only store.fresh cleared)

/-- Removing a string of one record that stands behind the id array. -/
theorem Image.Holds.wp_removeNode_record {fuel id before : Nat}
    {data : List UInt8} {post : CrudStatus → World → Prop}
    (holds : img.Holds world.file)
    (atEnd : id = img.slotOffset img.capacity)
    (known : img.recs img.capacity = some (stringRecord before 0 data))
    (next : ∀ pos blocks,
      Image.Holds { img with top := img.capacity, recs := fun _ => none }
        (resize world.file (img.slotOffset img.capacity)) →
      post .success
        { world with
          file := resize world.file (img.slotOffset img.capacity)
          pos := pos
          blocks := blocks }) :
    wp (removeNode (fuel + 3) id true) post world := by
  subst atEnd
  have nonzero : img.slotOffset img.capacity ≠ 0 :=
    Nat.ne_of_gt img.slotOffset_pos
  rw [removeNode, wp_bind]
  refine holds.wp_getTypes fun blocks => ?_
  simp only [if_true]
  rw [wp_bind, removeString, if_neg nonzero, wp_bind]
  refine Image.Holds.wp_seek (by exact holds) holds.capacity_le rfl ?_
  rw [wp_bind]
  refine Image.Holds.wp_readNode_template (by exact holds) known rfl rfl ?_
  intro read status pos blocks started long
  dsimp only
  rw [wp_bind]
  refine Image.Holds.wp_swapLastNode_end (by exact holds) rfl ?_
  intro pos blocks cut
  have ended : (stringRecord before 0 data).header.nextNode = 0 := rfl
  rw [ended, removeString, if_pos rfl, wp_pure, wp_pure]
  exact next pos blocks cut

/-- Removing the only node of a store, when its only string takes the record
behind the id array. -/
theorem StoreAt.wp_removeNode_string {fuel position : Nat} {node : NodeImage}
    {data : List UInt8} {post : CrudStatus → World → Prop}
    (store : StoreAt img nodes world.file) (only : img.curId = 1)
    (single : ∀ other : Nat,
      img.types[other]? = some STRING ↔ other = position)
    (found : nodes[0]? = some node)
    (field : node.fields[position]? = some (.str [(1, data)]))
    (notNext : img.schema.treeMeta.rootOffset ≠ img.slotOffset 1)
    (notLinked : leValue (readAt img.schema.cleared.bytes
      (nodeHeadSize + 8 * position) 8) ≠ img.slotOffset 1)
    (next : ∀ file pos blocks, StoreAt img.clearedImage [] file →
      post .success
        { world with file := file, pos := pos, blocks := blocks }) :
    wp (removeNode (fuel + 4) 0 false) post world := by
  have nodeAt := store.layout.nodeAt 0 node found
  have member := List.mem_of_getElem? found
  obtain ⟨record, known, tupleAt⟩ := nodeAt.tuple
  have inside := (store.holds.record _ _ known).2.1
  have linked := (nodeAt.fieldsAt.chains _ (List.mem_of_getElem? field)).2
  have nonzero : img.slotOffset node.slot ≠ 0 :=
    Nat.ne_of_gt img.slotOffset_pos
  have positionSmall : position < img.templateSize := by
    rw [← store.holds.types_length]
    exact (List.getElem?_eq_some_iff.mp ((single position).mpr rfl)).1
  let after : Image := { img with schema := img.schema.cleared }
  have capacity : after.capacity = 1 := idRecords_zero _
  rw [removeNode, wp_bind]
  refine store.holds.wp_getTypes fun blocks => ?_
  simp only [Bool.false_eq_true, if_false]
  rw [wp_bind]
  refine Image.Holds.wp_removeFromIdArray_only (by exact store.holds) only
    (store.root 0 node found) nonzero fun file pos blocks holds => ?_
  have afterHolds : after.Holds file := holds
  dsimp only
  rw [wp_bind]
  refine wp_mono (wp_forM_range (fun index middle => ∃ pos blocks, middle =
    { world with
      file := if index ≤ position then file
        else resize file (after.slotOffset 1)
      pos := pos
      blocks := blocks }) img.templateSize ?_ ?_) ?_
  · exact ⟨pos, blocks, by rw [if_pos (Nat.zero_le _)]⟩
  · rintro index small _ ⟨pos, blocks, rfl⟩
    by_cases here : index = position
    · subst here
      rw [if_pos ((single index).mpr rfl), if_pos le_rfl, wp_bind]
      refine @Image.Holds.wp_seek after _ node.slot _ _ afterHolds inside.le
        rfl ?_
      rw [wp_bind]
      refine @Image.Holds.wp_readNode_template after _ _ record _ _ afterHolds
        known rfl rfl ?_
      intro read status pos blocks started long
      have fieldInside : 8 * index + 8 ≤ img.realSize := by
        have := mul_le_getRealNodeSize img.templateSize
        simp only [Image.realSize]
        omega
      have word : (KeyNode.mk record.header read).word index =
          after.slotOffset after.capacity := by
        rw [Image.word_of_take started fieldInside, capacity]
        exact tupleAt.words index _ field
      dsimp only
      rw [wp_bind]
      refine @Image.Holds.wp_removeNode_record after _ _ _ _ data _ afterHolds
        word (capacity ▸ linked.1) ?_
      intro pos blocks _
      rw [wp_pure, capacity, if_neg (by omega)]
      exact ⟨pos, blocks, rfl⟩
    · rw [if_neg (mt (single index).mp here), wp_pure]
      refine ⟨pos, blocks, ?_⟩
      have same : (if index + 1 ≤ position then file
          else resize file (after.slotOffset 1)) =
            if index ≤ position then file
            else resize file (after.slotOffset 1) :=
        if_congr (by omega) rfl rfl
      rw [same]
  · rintro _ _ ⟨pos, blocks, rfl⟩
    rw [if_neg (by omega)]
    let bare : Image := { after with top := after.capacity, recs := fun _ => none }
    have cut : bare.Holds (resize file (after.slotOffset 1)) := by
      rw [← capacity]
      exact afterHolds.cut
    have behindString : 1 < node.slot := by
      have nodup := store.layout.node_nodup member
      have stringOwned : 1 ∈ node.chainSlots :=
        NodeImage.chain_slots_subset (List.mem_of_getElem? field) (by simp)
      have different : 1 ≠ node.slot := fun same =>
        (List.nodup_append.mp nodup).2.2 _ stringOwned _ (by simp) same
      have one : 1 ≤ img.capacity := idRecords_pos _ _
      exact lt_of_le_of_ne (one.trans (store.holds.record _ _ known).1)
        different
    have behind := img.slotOffset_apart behindString
    have offsetSmall := store.holds.slotOffset_small inside.le
    have entries : 0 < img.schema.root.length :=
      (List.getElem?_eq_some_iff.mp (store.root 0 node found)).1
    rw [wp_bind]
    refine @Image.Holds.wp_swapLastNode_hole bare _ _ _ _ cut rfl rfl
      (by exact capacity.symm ▸ behind) offsetSmall
      (List.getElem?_set_self entries) (by exact capacity.symm ▸ notNext) ?_ ?_
    · intro other _ string
      obtain rfl := (single other).mp string
      exact capacity.symm ▸ notLinked
    · intro file pos blocks holds
      have cleared : img.clearedImage.Holds file := by
        have same : Image.mk bare.schema bare.capacity (fun _ => none) =
            img.clearedImage := by
          rw [show bare.capacity = 1 from capacity]
          rfl
        exact same ▸ holds
      rw [wp_bind]
      refine Image.Holds.wp_findByParent_none (by exact cleared) rfl ?_
      intro pos blocks
      rw [wp_bind]
      refine (wp_pure _).mpr ?_
      rw [wp_pure]
      exact next _ _ _ (storeAt_cleared only store.fresh cleared)

end Store

end TreeStore
