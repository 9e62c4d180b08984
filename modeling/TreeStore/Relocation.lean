import TreeStore.Layout

/-!
# Moving one record

What `swapNode` does to the record that growth moves out of the way of the id
array: it is copied to a free slot without its last bytes, and whoever refers
to it learns its new offset.
-/

namespace TreeStore

open ByteFile ProgramLogic LinkedRecords

/-- The data of a record after `realSize` bytes of it, header included, were
copied over zeros. -/
def cutData (realSize : Nat) (data : List UInt8) : List UInt8 :=
  data.take (realSize - nodeHeadSize) ++ List.replicate nodeHeadSize 0

/-- A record of zeros, as `ftruncate` makes it. -/
def zeroRecord (realSize : Nat) : KeyNode :=
  ⟨⟨0, 0⟩, List.replicate realSize 0⟩

namespace Image

variable {img : Image} {world : World} {slot source target : Nat}
  {record : KeyNode}

theorem realSize_ge (img : Image) : 256 ≤ img.realSize :=
  getRealNodeSize_ge _

theorem zeroRecord_fits (realSize : Nat) : (zeroRecord realSize).Fits realSize :=
  ⟨by simp [zeroRecord], by simp [zeroRecord], by simp [zeroRecord]⟩

theorem zeroRecord_bytes (realSize : Nat) :
    (zeroRecord realSize).bytes =
      List.replicate (nodeHeadSize + realSize) 0 := by
  have header : (zeroRecord realSize).header.bytes =
      List.replicate nodeHeadSize 0 := by
    change NodeHeader.bytes ⟨0, 0⟩ = List.replicate 16 0
    decide
  rw [KeyNode.bytes, header, List.replicate_add]
  rfl

/-- Extending the file by one record appends zeros. -/
theorem Holds.extend {file : List UInt8} (holds : img.Holds file)
    (small : file.length + img.recordSize < 2 ^ 63) :
    (img.push (zeroRecord img.realSize)).Holds
      (resize file (file.length + img.recordSize)) := by
  have pushed := holds.push (zeroRecord_fits img.realSize) small
  have same : writeAt (resize file (file.length + img.recordSize)) file.length
      (zeroRecord img.realSize).bytes =
        resize file (file.length + img.recordSize) := by
    refine At.writeAt_self ?_ ?_
    · rw [zeroRecord_bytes, at_iff]
      intro index inside
      rw [List.length_replicate] at inside
      rw [resize_getElem?, if_pos (by simp only [recordSize]; omega),
        List.getElem?_eq_none (by omega), List.getElem?_replicate,
        if_pos inside]
      rfl
    · rw [zeroRecord_bytes, List.length_replicate, resize_length]
      simp only [recordSize]
      omega
  rw [same] at pushed
  exact pushed

/-- `getIdOffset` looks the record's second word up in the id array. -/
theorem Holds.wp_getIdOffset {entry : Nat} {offset : Nat}
    {post : Option Nat → World → Prop} (holds : img.Holds world.file)
    (known : img.recs slot = some record)
    (registered : img.schema.root[record.header.allocNode]? = some entry)
    (target : offset = img.slotOffset slot)
    (next : ∀ pos blocks,
      post (if entry = offset then some record.header.allocNode else none)
        { world with pos := pos, blocks := blocks }) :
    wp (getIdOffset offset) post world := by
  have inside := (holds.record _ _ known).2.1
  rw [getIdOffset, wp_bind]
  refine holds.wp_readTreeSchema fun blocks => ?_
  rw [wp_bind]
  refine Holds.wp_seek holds inside.le target ?_
  rw [wp_bind]
  refine Holds.wp_readNode_template holds known (by exact target)
    rfl ?_
  intro read status pos blocks started long
  rw [wp_bind]
  refine wp_index registered ?_
  rw [wp_pure]
  exact next pos blocks

/-- `swapNode` copies a part of a record to another slot, and then fixes the
references to it, as the tuple of an id or as a string record. -/
theorem Holds.wp_swapNode_copy {entry nodeSize : Nat} {copy : KeyNode}
    {post : CrudStatus → World → Prop} (holds : img.Holds world.file)
    (known : img.recs source = some record) (inside : target < img.top)
    (moved : source ≠ target) (positive : 0 < nodeSize)
    (part : nodeSize ≤ img.recordSize)
    (registered : img.schema.root[record.header.allocNode]? = some entry)
    (written : (img.setRec target copy).Holds
      (writeAt world.file (img.slotOffset target)
        (record.bytes.take nodeSize)))
    (next : ∀ file pos blocks, (img.setRec target copy).Holds file →
      wp (if entry = img.slotOffset source then
          swapTuple img.schema img.templateSize (img.slotOffset target)
            (img.slotOffset source) record.header.allocNode
        else
          swapString img.types img.templateSize (img.slotOffset target)
            (img.slotOffset source))
        (fun _ final => post .success final)
        { world with file := file, pos := pos, blocks := blocks }) :
    wp (swapNode (img.slotOffset target) (img.slotOffset source)
      nodeSize) post world := by
  obtain ⟨-, sourceInside, fits, here⟩ := holds.record _ _ known
  have different : img.slotOffset source ≠ img.slotOffset target :=
    fun same => moved (img.slotOffset_inj.mp same)
  have sized := img.bytes_length record fits
  have bufferLength : (record.bytes.take nodeSize).length = nodeSize := by
    rw [List.length_take, sized, Nat.min_eq_left part]
  have copied : At world.file (img.slotOffset source)
      (record.bytes.take nodeSize) :=
    (at_append.mp ((List.take_append_drop nodeSize record.bytes).symm ▸ here)).1
  rw [swapNode, wp_bind]
  refine holds.wp_getTypes fun blocks => ?_
  simp only [wp_bind, if_pos different]
  refine Holds.wp_seek holds sourceInside.le rfl ?_
  refine wp_malloc fun block blocks sized => ?_
  refine wp_readFile_at copied bufferLength (by omega) (by omega) ?_
  refine Holds.wp_seek holds inside.le rfl ?_
  refine wp_writeFile bufferLength.ge (by omega) fun blocks => ?_
  rw [List.take_of_length_le bufferLength.le]
  have sourceKnown : (img.setRec target copy).recs source = some record := by
    rw [setRec_recs_of_ne img moved]
    exact known
  rw [wp_fseekSet, if_pos le_rfl]
  refine Holds.wp_readTreeSchema written fun blocks => ?_
  refine Holds.wp_getIdOffset written sourceKnown
    (by exact registered) (by rfl) fun pos blocks => ?_
  have outcome := next _ pos blocks written
  by_cases tuple : entry = img.slotOffset source
  · rw [if_pos tuple] at outcome ⊢
    simpa [Image.setRec] using outcome
  · rw [if_neg tuple] at outcome ⊢
    simpa [Image.setRec] using outcome

/-- Growth copies a record without its last bytes to a zeroed slot. -/
theorem Holds.wp_swapNode {entry : Nat} {post : CrudStatus → World → Prop}
    (holds : img.Holds world.file) (known : img.recs source = some record)
    (free : img.recs target = some (zeroRecord img.realSize))
    (moved : source ≠ target)
    (registered : img.schema.root[record.header.allocNode]? = some entry)
    (next : ∀ file pos blocks,
      (img.setRec target
        ⟨record.header, cutData img.realSize record.data⟩).Holds file →
      wp (if entry = img.slotOffset source then
          swapTuple img.schema img.templateSize (img.slotOffset target)
            (img.slotOffset source) record.header.allocNode
        else
          swapString img.types img.templateSize (img.slotOffset target)
            (img.slotOffset source))
        (fun _ final => post .success final)
        { world with file := file, pos := pos, blocks := blocks }) :
    wp (swapNode (img.slotOffset target) (img.slotOffset source)
      img.realSize) post world := by
  have fits := (holds.record _ _ known).2.2.1
  have large := img.realSize_ge
  have headSize : nodeHeadSize = 16 := rfl
  have headLength : (record.data.take (img.realSize - nodeHeadSize)).length =
      img.realSize - nodeHeadSize := by
    rw [List.length_take, fits.data_length]
    omega
  have cutEq : (record.data.take (img.realSize - nodeHeadSize) ++
      (zeroRecord img.realSize).data.drop
        (record.data.take (img.realSize - nodeHeadSize)).length) =
          cutData img.realSize record.data := by
    rw [headLength, cutData, zeroRecord, List.drop_replicate]
    congr 2
    omega
  have cutFits : (KeyNode.mk record.header
      (record.data.take (img.realSize - nodeHeadSize) ++
        (zeroRecord img.realSize).data.drop
          (record.data.take (img.realSize - nodeHeadSize)).length)).Fits
            img.realSize := by
    refine ⟨fits.parentNode, fits.allocNode, ?_⟩
    rw [cutEq, cutData, List.length_append, headLength,
      List.length_replicate]
    omega
  have written := holds.setRec_head free (by rw [headLength]; omega) cutFits
  rw [cutEq] at written
  have copied : record.bytes.take img.realSize = record.header.bytes ++
      record.data.take (img.realSize - nodeHeadSize) := by
    rw [KeyNode.bytes, List.take_append, NodeHeader.bytes_length,
      List.take_of_length_le (by rw [NodeHeader.bytes_length]; omega)]
  exact holds.wp_swapNode_copy known (holds.record _ _ free).2.1 moved
    (by omega) (Nat.le_add_right _ _) registered (by rw [copied]; exact written)
    next

/-- The whole record is copied to a slot that may hold anything. -/
theorem Holds.wp_swapNode_whole {entry : Nat}
    {post : CrudStatus → World → Prop} (holds : img.Holds world.file)
    (known : img.recs source = some record) (behind : img.capacity ≤ target)
    (inside : target < img.top) (moved : source ≠ target)
    (registered : img.schema.root[record.header.allocNode]? = some entry)
    (next : ∀ file pos blocks, (img.setRec target record).Holds file →
      wp (if entry = img.slotOffset source then
          swapTuple img.schema img.templateSize (img.slotOffset target)
            (img.slotOffset source) record.header.allocNode
        else
          swapString img.types img.templateSize (img.slotOffset target)
            (img.slotOffset source))
        (fun _ final => post .success final)
        { world with file := file, pos := pos, blocks := blocks }) :
    wp (swapNode (img.slotOffset target) (img.slotOffset source)
      img.recordSize) post world := by
  have fits := (holds.record _ _ known).2.2.1
  have whole : record.bytes.take img.recordSize = record.bytes :=
    List.take_of_length_le (img.bytes_length record fits).le
  refine holds.wp_swapNode_copy known inside moved
    (lt_of_lt_of_le (by norm_num) img.recordSize_ge) le_rfl registered ?_ next
  rw [whole]
  exact holds.setRec behind inside fits

/-- The tuple of an id has moved: its strings and the id array learn the new
offset. -/
theorem Holds.wp_swapTuple {fields : List FieldImage} {previous dest id : Nat}
    {post : Unit → World → Prop} (holds : img.Holds world.file)
    (known : img.recs source = some record)
    (fieldsAt : FieldsAt img.slotOffset img.recs img.types previous fields)
    (words : ∀ (position : Nat) (field : FieldImage),
      fields[position]? = some field →
        record.word position = field.word img.slotOffset)
    (nodup : (fields.flatMap FieldImage.slots).Nodup) (small : dest < 2 ^ 63)
    (next : ∀ recs file pos blocks,
      Holds { schema := { img.schema with root := img.schema.root.set id dest }
              top := img.top
              recs := recs } file →
      (∀ slot, slot ∉ fields.flatMap FieldImage.slots →
        recs slot = img.recs slot) →
      FieldsAt img.slotOffset recs img.types dest fields →
      post () { world with file := file, pos := pos, blocks := blocks }) :
    wp (swapTuple img.schema img.templateSize dest (img.slotOffset source) id)
      post world := by
  have inside := (holds.record _ _ known).2.1
  rw [swapTuple, wp_bind]
  refine holds.wp_seek inside.le rfl ?_
  rw [wp_bind]
  refine Holds.wp_readNode_template holds known rfl rfl ?_
  intro read status pos blocks started long
  rw [wp_bind]
  have wordsRead : ∀ (position : Nat) (field : FieldImage),
      fields[position]? = some field →
        (KeyNode.mk record.header read).word position =
          field.word img.slotOffset := by
    intro position field found
    have small : position < img.templateSize := by
      have := (List.getElem?_eq_some_iff.mp found).1
      rw [fieldsAt.count, holds.types_length] at this
      exact this
    have fieldInside : 8 * position + 8 ≤ img.realSize := by
      have := mul_le_getRealNodeSize img.templateSize
      simp only [realSize]
      omega
    rw [word_of_take started fieldInside]
    exact words position field found
  refine Holds.wp_linkSton holds fieldsAt wordsRead nodup
    (by omega) ?_
  intro recs file pos blocks kept frame linked
  rw [wp_bind]
  have entriesFit : ∀ entry ∈ img.schema.root.set id dest, entry < 2 ^ 64 := by
    intro entry member
    rcases List.mem_or_eq_of_mem_set member with old | rfl
    · exact holds.valid.root entry old
    · omega
  refine Holds.wp_writeTreeSchema kept (by rfl) (by rfl)
    holds.valid.treeMeta entriesFit holds.capacity_le
    (fun slot node here => (kept.record slot node here).1) ?_
  intro entries file pos blocks sized agree written
  rw [wp_pure]
  have rootLength : (img.schema.root.set id dest).length =
      getIdArraySize img.templateSize img.curId := by
    rw [List.length_set]
    exact holds.valid.root_length
  have same : entries = img.schema.root.set id dest := by
    rw [← rootLength, List.take_length, rootLength,
      List.take_of_length_le sized.le] at agree
    exact agree
  rw [same] at written
  exact next recs file pos blocks written frame linked

theorem writeAt_header (header : NodeHeader) (word : Nat) :
    writeAt header.bytes 8 (leBytes 8 word) =
      NodeHeader.bytes ⟨header.parentNode, word⟩ := by
  have lengths : header.bytes.length = 16 := header.bytes_length
  have first : header.bytes.take 8 = leBytes 8 header.parentNode := by
    simp [NodeHeader.bytes, wordsBytes]
  rw [writeAt, first, lengths, List.drop_of_length_le (by simp [lengths])]
  simp [NodeHeader.bytes, wordsBytes]

/-- The predecessor of a moved last record learns its new offset. -/
theorem Holds.wp_swapString_chunk {data : List UInt8} {before : Nat}
    {beforeRecord : KeyNode} {dest : Nat} {post : Unit → World → Prop}
    (holds : img.Holds world.file) (known : img.recs source =
      some (stringRecord (img.slotOffset before) 0 data))
    (beforeKnown : img.recs before = some beforeRecord)
    (linked : beforeRecord.header.allocNode = img.slotOffset source)
    (small : dest < 2 ^ 63) (next : ∀ file pos blocks,
      (img.setRec before
        ⟨⟨beforeRecord.header.parentNode, dest⟩, beforeRecord.data⟩).Holds
          file →
      post () { world with file := file, pos := pos, blocks := blocks }) :
    wp (swapString img.types img.templateSize dest (img.slotOffset source))
      post world := by
  have inside := (holds.record _ _ known).2.1
  have beforeInside := (holds.record _ _ beforeKnown).2.1
  have beforeFits := (holds.record _ _ beforeKnown).2.2.1
  have decoded := holds.ofBytes_bytes beforeKnown
  rw [swapString, wp_bind]
  refine holds.wp_seek inside.le rfl ?_
  rw [wp_bind]
  refine Holds.wp_readNode_template holds known rfl rfl ?_
  intro read status pos blocks started long
  rw [wp_bind]
  refine wp_malloc fun header blocks sized => ?_
  simp only [stringRecord, ne_eq, not_true_eq_false, if_false, wp_bind,
    wp_pure]
  refine Holds.wp_seek holds beforeInside.le rfl ?_
  refine Holds.wp_readHeader holds beforeKnown rfl sized
    fun pos => ?_
  rw [decoded, if_pos linked, wp_bind]
  refine Holds.wp_seek holds beforeInside.le rfl ?_
  rw [wp_bind, writeAt_header]
  refine Holds.wp_writeHeader holds beforeKnown rfl
    ⟨beforeFits.parentNode, by exact small.trans (by norm_num)⟩
      fun file pos blocks written => ?_
  rw [wp_pure]
  exact next file pos blocks written

theorem find?_range_unique {condition : Nat → Bool} {count position : Nat}
    (inside : position < count) (satisfied : condition position)
    (unique : ∀ other < count, condition other → other = position) :
    (List.range count).find? condition = some position := by
  cases found : (List.range count).find? condition with
  | none =>
      have := List.find?_eq_none.mp found position (List.mem_range.mpr inside)
      exact absurd satisfied this
  | some other =>
      have member := List.mem_range.mp (List.mem_of_find?_eq_some found)
      rw [unique other member (List.find?_some found)]

/-- The tuple that a moved single record belongs to learns its new offset. -/
theorem Holds.wp_swapString_head {data : List UInt8} {owner : Nat}
    {ownerRecord : KeyNode} {dest position : Nat} {post : Unit → World → Prop}
    (holds : img.Holds world.file) (known : img.recs source =
      some (stringRecord (img.slotOffset owner) 0 data))
    (ownerKnown : img.recs owner = some ownerRecord)
    (notLinked : ownerRecord.header.allocNode ≠ img.slotOffset source)
    (string : img.types[position]? = some STRING)
    (field : ownerRecord.word position = img.slotOffset source)
    (unique : ∀ other, img.types[other]? = some STRING →
      ownerRecord.word other = img.slotOffset source → other = position)
    (next : ∀ file pos blocks,
      (img.setRec owner (ownerRecord.setWord position dest)).Holds file →
      post () { world with file := file, pos := pos, blocks := blocks }) :
    wp (swapString img.types img.templateSize dest (img.slotOffset source))
      post world := by
  have inside := (holds.record _ _ known).2.1
  have ownerInside := (holds.record _ _ ownerKnown).2.1
  have ownerFits := (holds.record _ _ ownerKnown).2.2.1
  have decoded := holds.ofBytes_bytes ownerKnown
  have positionSmall : position < img.templateSize := by
    rw [← holds.types_length]
    exact (List.getElem?_eq_some_iff.mp string).1
  have fieldInside (other : Nat) (small : other < img.templateSize) :
      8 * other + 8 ≤ img.realSize := by
    have := mul_le_getRealNodeSize img.templateSize
    simp only [realSize]
    omega
  rw [swapString, wp_bind]
  refine holds.wp_seek inside.le rfl ?_
  rw [wp_bind]
  refine Holds.wp_readNode_template holds known rfl rfl ?_
  intro read status pos blocks started long
  rw [wp_bind]
  refine wp_malloc fun header blocks sized => ?_
  simp only [stringRecord, ne_eq, not_true_eq_false, if_false, wp_bind,
    wp_pure]
  refine Holds.wp_seek holds ownerInside.le rfl ?_
  refine Holds.wp_readHeader holds ownerKnown rfl sized
    fun pos => ?_
  rw [decoded, if_neg notLinked, wp_bind]
  refine Holds.wp_seek holds ownerInside.le rfl ?_
  rw [wp_bind]
  refine Holds.wp_readNode_template holds ownerKnown rfl rfl ?_
  intro parent status pos blocks parentStarted parentLong
  have parentWord (other : Nat) (small : other < img.templateSize) :
      (KeyNode.mk ownerRecord.header parent).word other =
        ownerRecord.word other :=
    word_of_take parentStarted (fieldInside other small)
  have redirected : redirectField ⟨ownerRecord.header, parent⟩ img.types
      img.templateSize dest (img.slotOffset source) =
        (KeyNode.mk ownerRecord.header parent).setWord position dest := by
    rw [redirectField, find?_range_unique positionSmall]
    · simp [string, parentWord position positionSmall, field]
    · intro other otherSmall satisfied
      simp only [decide_eq_true_eq] at satisfied
      rw [parentWord other otherSmall] at satisfied
      exact unique other satisfied.1 satisfied.2
  rw [redirected, wp_bind]
  refine Holds.wp_seek holds ownerInside.le rfl ?_
  have fitsInParent : 8 * position + 8 ≤ parent.length :=
    (fieldInside position positionSmall).trans parentLong
  rw [wp_bind]
  refine Holds.wp_writeNode holds ownerKnown (by rfl)
    (by have := img.realSize_ge; exact Nat.lt_of_lt_of_le (by omega) this)
    le_rfl ⟨ownerFits.parentNode, ownerFits.allocNode⟩
    (by rw [KeyNode.setWord_length fitsInParent]; exact parentLong)
    fun file blocks written => ?_
  rw [wp_pure]
  have same : (KeyNode.mk ownerRecord.header
      (((KeyNode.mk ownerRecord.header parent).setWord position dest).data.take
          img.realSize ++ ownerRecord.data.drop img.realSize)) =
        ownerRecord.setWord position dest := by
    rw [List.drop_of_length_le ownerFits.data_length.le, List.append_nil]
    simp only [KeyNode.setWord]
    rw [take_writeAt (by rw [leBytes_length]; exact fieldInside _ positionSmall),
      parentStarted]
  have updated : (img.setRec owner (ownerRecord.setWord position dest)).Holds
      file := by
    rw [← same]
    exact written
  exact next file _ blocks updated

end Image

end TreeStore
