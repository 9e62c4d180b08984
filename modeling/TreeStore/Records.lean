import TreeStore.SchemaCodec
import TreeStore.StorageInner

/-!
# The store as an array of records

Behind the schema's attributes the file is an array of slots of one record
each: the id array takes the first ones, tuples and string records the others.
An `Image` says which record each slot is known to hold; the rules of this file
run the readers and writers of the store on an image instead of on bytes.
-/

namespace TreeStore

open ByteFile ProgramLogic

def KeyNode.bytes (node : KeyNode) : List UInt8 :=
  node.header.bytes ++ node.data

/-- A node that fills a record with `realSize` data bytes exactly. -/
structure KeyNode.Fits (realSize : Nat) (node : KeyNode) : Prop where
  parentNode : node.header.parentNode < 2 ^ 64
  allocNode : node.header.allocNode < 2 ^ 64
  data_length : node.data.length = realSize

namespace KeyNode

variable {node : KeyNode} {position word : Nat}

@[simp]
theorem setWord_header : (node.setWord position word).header = node.header :=
  rfl

theorem setWord_length (inside : 8 * position + 8 ≤ node.data.length) :
    (node.setWord position word).data.length = node.data.length := by
  simp only [setWord, writeAt_length, leBytes_length]
  omega

theorem word_setWord (fits : word < 2 ^ 64) :
    (node.setWord position word).word position = word := by
  have here := at_writeAt node.data (8 * position) (leBytes 8 word)
  rw [KeyNode.word, setWord, here.readAt_eq (by simp),
    leValue_leBytes (by simpa using fits)]

theorem word_setWord_of_ne {other : Nat} (different : other ≠ position)
    (inside : 8 * other + 8 ≤ node.data.length) :
    (node.setWord position word).word other = node.word other := by
  have here := at_readAt inside
  have sized : (readAt node.data (8 * other) 8).length = 8 := by
    rw [readAt_length]
    omega
  have kept : At (writeAt node.data (8 * position) (leBytes 8 word))
      (8 * other) (readAt node.data (8 * other) 8) :=
    here.writeAt_frame (by rw [sized, leBytes_length]; omega)
  rw [KeyNode.word, setWord, kept.readAt_eq sized.symm, KeyNode.word]

/-- All words of the data. -/
def words (node : KeyNode) : List Nat :=
  leWords (node.data.length / 8) node.data

theorem words_length (node : KeyNode) :
    node.words.length = node.data.length / 8 :=
  leWords_length _ _

theorem words_getElem? (inside : 8 * position + 8 ≤ node.data.length) :
    node.words[position]? = some (node.word position) := by
  rw [words, leWords, List.getElem?_map, List.getElem?_range (by omega)]
  rfl

theorem words_setWord (whole : 8 ∣ node.data.length)
    (inside : 8 * position + 8 ≤ node.data.length) (fits : word < 2 ^ 64) :
    (node.setWord position word).words = node.words.set position word := by
  rw [words, setWord_length inside]
  exact leWords_writeAt (by omega) (by simpa using fits)

/-- A node is known by its header and its words. -/
theorem eq_of_words {other : KeyNode} (whole : 8 ∣ node.data.length)
    (length : other.data.length = node.data.length)
    (header : other.header = node.header) (same : other.words = node.words) :
    other = node := by
  have sized : node.data.length = 8 * (node.data.length / 8) := by omega
  have data : other.data = node.data := by
    rw [words, words, length] at same
    rw [← wordsBytes_leWords sized, ← same,
      wordsBytes_leWords (length.trans sized)]
  cases other
  cases node
  exact congrArg₂ KeyNode.mk header data

end KeyNode

/-- Reading a node where the file holds `header` and `data`.  More may be read,
and past the end of the file less, so only these bytes are determined. -/
theorem wp_readNode_at {world : World} {size : Nat}
    {header data : List UInt8}
    {post : KeyNode × ReadStatus → World → Prop}
    (here : At world.file world.pos (header ++ data))
    (headerSized : header.length = nodeHeadSize)
    (room : data.length ≤ getRealNodeSize (getRealNodeSize size))
    (next : ∀ read status pos blocks, read.take data.length = data →
      data.length ≤ read.length →
      post (⟨NodeHeader.ofBytes header, read⟩, status)
        { world with pos := pos, blocks := blocks }) :
    wp (readNode size) post world := by
  obtain ⟨headerHere, dataHere⟩ := at_append.mp here
  rw [readNode, wp_bind]
  refine wp_malloc fun block blocks sized => ?_
  rw [wp_bind]
  refine wp_readFile_at (by exact headerHere) headerSized (by decide)
    (by omega) ?_
  simp only [wp_bind]
  refine wp_malloc fun dataBlock blocks dataSized => ?_
  rw [wp_readFile, wp_pure]
  have started := dataHere.readAt_take room
  rw [headerSized] at started
  have startedLength : data.length ≤ (readAt world.file
      (world.pos + nodeHeadSize)
      (getRealNodeSize (getRealNodeSize size))).length := by
    have := congrArg List.length started
    rw [List.length_take] at this
    omega
  refine next _ _ _ _ ?_ ?_
  · rw [List.take_append_of_le_length startedLength]
    exact started
  · rw [List.length_append]
    exact startedLength.trans (Nat.le_add_right _ _)

/-- Writing the header and the first `size` data bytes of a node. -/
theorem wp_writeNode_at {world : World} {node : KeyNode} {size : Nat}
    {post : WriteStatus → World → Prop} (positive : 0 < size)
    (enough : size ≤ node.data.length)
    (next : ∀ blocks, post .success
      { world with
        file := writeAt world.file world.pos
          (node.header.bytes ++ node.data.take size)
        pos := world.pos + nodeHeadSize + size
        blocks := blocks }) :
    wp (writeNode node size) post world := by
  rw [writeNode, wp_bind]
  refine wp_writeFile (by simp) (by decide) fun blocks => ?_
  rw [wp_bind]
  refine wp_writeFile enough positive fun blocks => ?_
  rw [wp_pure, List.take_of_length_le (by simp)]
  have joined := writeAt_writeAt world.file world.pos node.header.bytes
    (node.data.take size)
  rw [NodeHeader.bytes_length] at joined
  simp only [joined]
  exact next blocks

/-- Writing a node whose data may be short: the memory behind is written too. -/
theorem wp_writeNode_past {world : World} {node : KeyNode} {size : Nat}
    {post : WriteStatus → World → Prop} (positive : 0 < size)
    (next : ∀ bytes blocks, bytes.length = size →
      bytes.take (min size node.data.length) = node.data.take size →
      post .success
        { world with
          file := writeAt world.file world.pos (node.header.bytes ++ bytes)
          pos := world.pos + nodeHeadSize + size
          blocks := blocks }) :
    wp (writeNode node size) post world := by
  rw [writeNode, wp_bind]
  refine wp_writeFile (by simp) (by decide) fun blocks => ?_
  rw [wp_bind]
  refine wp_writeFile_behind positive fun bytes blocks sized agree => ?_
  rw [wp_pure, List.take_of_length_le (by simp)]
  have joined := writeAt_writeAt world.file world.pos node.header.bytes bytes
  rw [NodeHeader.bytes_length] at joined
  simp only [joined]
  exact next bytes blocks sized agree

/-- The schema of a store, the number of its slots, and the records known to be
in them. -/
structure Image where
  schema : TreeSchema
  top : Nat
  recs : Nat → Option KeyNode

namespace Image

variable (img : Image)

abbrev templateSize : Nat := img.schema.treeMeta.templateSize
abbrev curId : Nat := img.schema.treeMeta.curId
abbrev types : List Nat := img.schema.nodesTemplate.map (·.type)

/-- The data bytes of a record. -/
abbrev realSize : Nat := getRealNodeSize img.templateSize

/-- The bytes of a record. -/
abbrev recordSize : Nat := img.realSize + nodeHeadSize

/-- Where the array of slots starts. -/
abbrev dataStart : Nat :=
  metaSize + (templateBytes img.schema.nodesTemplate).length

/-- The number of slots that the id array takes. -/
abbrev capacity : Nat := idRecords img.templateSize img.curId

def slotOffset (slot : Nat) : Nat :=
  img.dataStart + img.recordSize * slot

def setRec (slot : Nat) (node : KeyNode) : Image :=
  { img with recs := Function.update img.recs slot (some node) }

theorem setRec_recs_of_ne {slot other : Nat} (different : other ≠ slot)
    (node : KeyNode) : (img.setRec slot node).recs other = img.recs other :=
  Function.update_of_ne different _ _

/-- One more slot, holding `node`. -/
def push (node : KeyNode) : Image :=
  { img with
    top := img.top + 1
    recs := Function.update img.recs img.top (some node) }

/-- The file is the one that the image describes. -/
structure Holds (file : List UInt8) : Prop where
  valid : img.schema.Valid
  schemaHere : At file 0 img.schema.bytes
  length_eq : file.length = img.slotOffset img.top
  small : file.length < 2 ^ 63
  capacity_le : img.capacity ≤ img.top
  record : ∀ slot node, img.recs slot = some node →
    img.capacity ≤ slot ∧ slot < img.top ∧ node.Fits img.realSize ∧
      At file (img.slotOffset slot) node.bytes

section Geometry

variable {file : List UInt8} {slot other : Nat}

theorem recordSize_eq : img.recordSize = 8 * idUnit img.templateSize :=
  (idUnit_mul img.templateSize).symm

theorem eight_dvd_realSize : 8 ∣ img.realSize := by
  have := img.recordSize_eq
  simp only [recordSize, nodeHeadSize] at this
  omega

theorem realSize_pos : 0 < img.realSize := by
  have := getRealNodeSize_ge img.templateSize
  simp only [realSize]
  omega

theorem recordSize_ge : 272 ≤ img.recordSize := by
  have := getRealNodeSize_ge img.templateSize
  simp only [recordSize, realSize, nodeHeadSize]
  omega

theorem slotOffset_succ : img.slotOffset (slot + 1) =
    img.slotOffset slot + img.recordSize := by
  simp only [slotOffset, Nat.mul_add, Nat.mul_one]
  omega

theorem slotOffset_mono (le : slot ≤ other) :
    img.slotOffset slot ≤ img.slotOffset other := by
  simp only [slotOffset]
  exact Nat.add_le_add_left (Nat.mul_le_mul_left _ le) _

/-- Different slots do not overlap. -/
theorem slotOffset_apart (less : slot < other) :
    img.slotOffset slot + img.recordSize ≤ img.slotOffset other := by
  rw [← slotOffset_succ]
  exact img.slotOffset_mono less

theorem slotOffset_lt_iff :
    img.slotOffset slot < img.slotOffset other ↔ slot < other := by
  constructor
  · intro less
    by_contra notLess
    exact absurd (img.slotOffset_mono (Nat.le_of_not_lt notLess))
      (by omega)
  · intro less
    have := img.slotOffset_apart less
    have := img.recordSize_ge
    omega

theorem slotOffset_inj :
    img.slotOffset slot = img.slotOffset other ↔ slot = other := by
  constructor
  · intro equal
    have notLess : ¬ slot < other := fun less => by
      have := img.slotOffset_lt_iff.mpr less
      omega
    have notGreater : ¬ other < slot := fun greater => by
      have := img.slotOffset_lt_iff.mpr greater
      omega
    omega
  · rintro rfl
    rfl

theorem dataStart_ge : 48 ≤ img.dataStart := by
  simp [dataStart, metaSize]

theorem slotOffset_pos : 0 < img.slotOffset slot := by
  have := img.dataStart_ge
  simp only [slotOffset]
  omega

theorem bytes_length (node : KeyNode) (fits : node.Fits img.realSize) :
    node.bytes.length = img.recordSize := by
  simp only [KeyNode.bytes, List.length_append, NodeHeader.bytes_length,
    fits.data_length, recordSize]
  omega

/-- The id array ends where the first data slot begins. -/
theorem schema_length (valid : img.schema.Valid) :
    img.schema.bytes.length = img.slotOffset img.capacity := by
  rw [TreeSchema.bytes_length, valid.root_length, getIdArraySize_eq,
    slotOffset, recordSize_eq, Nat.mul_assoc]

variable {img} (holds : img.Holds file)

include holds

theorem Holds.slotOffset_lt (inside : slot < img.top) :
    img.slotOffset slot + img.recordSize ≤ file.length := by
  rw [holds.length_eq]
  exact img.slotOffset_apart inside

/-- The file has a byte for every record. -/
theorem Holds.top_le_length : img.top ≤ file.length := by
  have := img.recordSize_ge
  have := Nat.le_mul_of_pos_left img.top (show 0 < img.recordSize by omega)
  rw [holds.length_eq, slotOffset]
  omega

/-- No offset of a record is a position in the id array. -/
theorem Holds.root_length_le (behind : img.capacity ≤ slot) :
    img.schema.root.length ≤ img.slotOffset slot := by
  have length : img.schema.root.length =
      idUnit img.templateSize * img.capacity := by
    rw [holds.valid.root_length, getIdArraySize_eq]
  refine le_trans ?_ (img.slotOffset_mono behind)
  rw [length, slotOffset, recordSize_eq, Nat.mul_assoc]
  omega

theorem Holds.slotOffset_small (inside : slot ≤ img.top) :
    img.slotOffset slot < 2 ^ 63 := by
  have := img.slotOffset_mono inside
  have := holds.small
  have := holds.length_eq
  omega

end Geometry

section Updates

variable {img} {file : List UInt8} {slot : Nat} {node : KeyNode}

/-- A record written into a slot behind the id array. -/
theorem Holds.setRec (holds : img.Holds file) (behind : img.capacity ≤ slot)
    (inside : slot < img.top) (fits : node.Fits img.realSize) :
    (img.setRec slot node).Holds
      (writeAt file (img.slotOffset slot) node.bytes) := by
  have sized := img.bytes_length node fits
  have room := holds.slotOffset_lt inside
  have lengthEq : (writeAt file (img.slotOffset slot) node.bytes).length =
      file.length := by
    rw [writeAt_length]
    omega
  refine ⟨holds.valid, ?_, ?_, ?_, holds.capacity_le, ?_⟩
  · refine holds.schemaHere.writeAt_frame (Or.inl ?_)
    rw [img.schema_length holds.valid, zero_add]
    exact img.slotOffset_mono behind
  · rw [lengthEq]
    exact holds.length_eq
  · rw [lengthEq]
    exact holds.small
  · intro other otherNode known
    by_cases same : other = slot
    · subst same
      have : otherNode = node := by
        simpa [Image.setRec] using known.symm
      subst this
      exact ⟨behind, inside, fits, at_writeAt _ _ _⟩
    · have old : img.recs other = some otherNode := by
        simpa [Image.setRec, Function.update_of_ne same] using known
      obtain ⟨otherBehind, otherInside, otherFits, here⟩ :=
        holds.record other otherNode old
      refine ⟨otherBehind, otherInside, otherFits, here.writeAt_frame ?_⟩
      have otherSized := img.bytes_length otherNode otherFits
      rw [sized, otherSized]
      rcases Nat.lt_or_gt_of_ne same with less | greater
      · exact Or.inl (img.slotOffset_apart less)
      · exact Or.inr (img.slotOffset_apart greater)

/-- A write that covers only the head of a known record. -/
theorem Holds.setRec_head (holds : img.Holds file)
    {old : KeyNode} (known : img.recs slot = some old) {header : NodeHeader}
    {head : List UInt8} (short : head.length ≤ img.realSize)
    (fits : (KeyNode.mk header (head ++ old.data.drop head.length)).Fits
      img.realSize) :
    (img.setRec slot ⟨header, head ++ old.data.drop head.length⟩).Holds
      (writeAt file (img.slotOffset slot) (header.bytes ++ head)) := by
  obtain ⟨behind, inside, oldFits, here⟩ := holds.record slot old known
  have room := holds.slotOffset_lt inside
  have written := holds.setRec behind inside fits
  have dataHere : At file (img.slotOffset slot + nodeHeadSize) old.data := by
    simpa [KeyNode.bytes] using (at_append.mp here).2
  have restHere : At file
      (img.slotOffset slot + (header.bytes ++ head).length)
      (old.data.drop head.length) := by
    rw [← List.take_append_drop head.length old.data] at dataHere
    have rest := (at_append.mp dataHere).2
    rw [List.length_take, Nat.min_eq_left
      (by rw [oldFits.data_length]; exact short)] at rest
    simpa [add_assoc] using rest
  have extended : writeAt file (img.slotOffset slot)
      ((header.bytes ++ head) ++ old.data.drop head.length) =
        writeAt file (img.slotOffset slot) (header.bytes ++ head) :=
    restHere.writeAt_extend (by
      simp only [List.length_append, NodeHeader.bytes_length,
        List.length_drop, oldFits.data_length, recordSize] at room ⊢
      omega)
  rw [KeyNode.bytes, ← List.append_assoc, extended] at written
  exact written

/-- A record appended behind the last slot. -/
theorem Holds.push (holds : img.Holds file) (fits : node.Fits img.realSize)
    (small : file.length + img.recordSize < 2 ^ 63) :
    (img.push node).Holds
      (writeAt (resize file (file.length + img.recordSize)) file.length
        node.bytes) := by
  have sized := img.bytes_length node fits
  have lengthEq : (writeAt (resize file (file.length + img.recordSize))
      file.length node.bytes).length = file.length + img.recordSize := by
    rw [writeAt_length, resize_length, sized, Nat.max_self]
  have behindSchema : img.slotOffset img.capacity ≤ file.length := by
    rw [holds.length_eq]
    exact img.slotOffset_mono holds.capacity_le
  refine ⟨holds.valid, ?_, ?_, ?_, Nat.le_succ_of_le holds.capacity_le, ?_⟩
  · refine At.writeAt_frame (holds.schemaHere.resize_frame ?_) (Or.inl ?_) <;>
    · rw [img.schema_length holds.valid]
      omega
  · rw [lengthEq, holds.length_eq]
    exact img.slotOffset_succ.symm
  · rw [lengthEq]
    exact small
  · intro other otherNode known
    by_cases same : other = img.top
    · subst same
      have : otherNode = node := by
        simpa [Image.push] using known.symm
      subst this
      refine ⟨holds.capacity_le, Nat.lt_succ_self _, fits, ?_⟩
      have here := at_writeAt (resize file (file.length + img.recordSize))
        file.length otherNode.bytes
      rw [holds.length_eq] at here ⊢
      exact here
    · have old : img.recs other = some otherNode := by
        simpa [Image.push, Function.update_of_ne same] using known
      obtain ⟨otherBehind, otherInside, otherFits, here⟩ :=
        holds.record other otherNode old
      refine ⟨otherBehind, Nat.lt_succ_of_lt otherInside, otherFits, ?_⟩
      have otherSized := img.bytes_length otherNode otherFits
      have room := holds.slotOffset_lt otherInside
      refine At.writeAt_frame (here.resize_frame ?_) (Or.inl ?_) <;>
      · rw [otherSized]
        omega

end Updates

section Programs

variable {img} {world : World} {slot : Nat} {node : KeyNode}

theorem Holds.wp_readTreeSchema {post : TreeSchema × ReadStatus → World → Prop}
    (holds : img.Holds world.file) (next : ∀ blocks, post (img.schema, .success)
      { world with pos := img.slotOffset img.capacity, blocks := blocks }) :
    wp readTreeSchema post world := by
  refine TreeStore.wp_readTreeSchema holds.valid holds.schemaHere ?_
  intro blocks
  rw [img.schema_length holds.valid]
  exact next blocks

theorem Holds.wp_getTypes {post : List Nat × Nat → World → Prop}
    (holds : img.Holds world.file)
    (next : ∀ blocks, post (img.types, img.templateSize)
      { world with pos := img.slotOffset img.capacity, blocks := blocks }) :
    wp getTypes post world := by
  rw [getTypes, wp_bind, wp_fseekSet, if_pos le_rfl, wp_bind]
  have here : img.Holds { world with pos := (0 : Int).toNat }.file := holds
  refine here.wp_readTreeSchema fun blocks => ?_
  rw [wp_pure]
  exact next blocks

theorem Holds.wp_seek {offset : Nat} {post : Unit → World → Prop}
    (holds : img.Holds world.file) (inside : slot ≤ img.top)
    (target : offset = img.slotOffset slot)
    (next : post () { world with pos := offset }) :
    wp (fseekSet (toLong offset)) post world :=
  wp_fseekSet_toLong (target ▸ holds.slotOffset_small inside) next

/-- Reading the node in a known slot. -/
theorem Holds.wp_readNode {size : Nat}
    {post : KeyNode × ReadStatus → World → Prop} (holds : img.Holds world.file)
    (known : img.recs slot = some node)
    (stands : world.pos = img.slotOffset slot)
    (enough : img.realSize ≤ getRealNodeSize (getRealNodeSize size))
    (next : ∀ data status pos blocks, data.take img.realSize = node.data →
      img.realSize ≤ data.length →
      post (⟨node.header, data⟩, status)
        { world with pos := pos, blocks := blocks }) :
    wp (readNode size) post world := by
  obtain ⟨-, -, fits, here⟩ := holds.record slot node known
  refine wp_readNode_at (by rw [stands]; exact here) (by simp)
    (by rw [fits.data_length]; exact enough) ?_
  intro read status pos blocks started long
  rw [fits.data_length] at started long
  rw [NodeHeader.ofBytes_bytes fits.parentNode fits.allocNode]
  exact next read status pos blocks started long

theorem le_double (size : Nat) :
    getRealNodeSize size ≤ getRealNodeSize (getRealNodeSize size) :=
  le_getRealNodeSize _

/-- Reading with the template size, as every tuple is read. -/
theorem Holds.wp_readNode_template {size : Nat}
    {post : KeyNode × ReadStatus → World → Prop} (holds : img.Holds world.file)
    (known : img.recs slot = some node)
    (stands : world.pos = img.slotOffset slot)
    (template : size = img.templateSize)
    (next : ∀ data status pos blocks, data.take img.realSize = node.data →
      img.realSize ≤ data.length →
      post (⟨node.header, data⟩, status)
        { world with pos := pos, blocks := blocks }) :
    wp (readNode size) post world :=
  holds.wp_readNode known stands (template ▸ le_double _) next

/-- A field that lies inside the record is the same in the record and in what
was read for it. -/
theorem word_of_take {data : List UInt8} {size position : Nat}
    {header header' : NodeHeader} (started : data.take size = node.data)
    (inside : 8 * position + 8 ≤ size) :
    (KeyNode.mk header data).word position =
      (KeyNode.mk header' node.data).word position := by
  simp only [KeyNode.word, readAt, ← started]
  rw [List.drop_take, List.take_take, Nat.min_eq_left (by omega)]

/-- Writing a header and the first `size` data bytes into a known slot. -/
theorem Holds.wp_writeNode {old : KeyNode} {size : Nat}
    {post : WriteStatus → World → Prop} (holds : img.Holds world.file)
    (known : img.recs slot = some old)
    (stands : world.pos = img.slotOffset slot) (positive : 0 < size)
    (short : size ≤ img.realSize)
    (header : node.header.parentNode < 2 ^ 64 ∧ node.header.allocNode < 2 ^ 64)
    (enough : size ≤ node.data.length) (next : ∀ file blocks,
      (img.setRec slot
        ⟨node.header, node.data.take size ++ old.data.drop size⟩).Holds file →
      post .success
        { world with
          file := file
          pos := img.slotOffset slot + nodeHeadSize + size
          blocks := blocks }) :
    wp (writeNode node size) post world := by
  obtain ⟨-, -, oldFits, -⟩ := holds.record slot old known
  have headLength : (node.data.take size).length = size := by
    rw [List.length_take]
    omega
  have fits : (KeyNode.mk node.header
      (node.data.take size ++ old.data.drop (node.data.take size).length)).Fits
        img.realSize := by
    refine ⟨header.1, header.2, ?_⟩
    simp only [List.length_append, List.length_drop, oldFits.data_length,
      headLength]
    omega
  have written := holds.setRec_head known (by omega) fits
  rw [headLength, ← stands] at written
  refine wp_writeNode_at positive enough fun blocks => ?_
  rw [← stands] at next
  exact next _ _ written

/-- Writing a whole record, whatever the memory behind the data holds. -/
theorem Holds.wp_writeNode_behind {old : KeyNode} {size : Nat}
    {post : WriteStatus → World → Prop} (holds : img.Holds world.file)
    (known : img.recs slot = some old)
    (stands : world.pos = img.slotOffset slot) (template : size = img.realSize)
    (header : node.header.parentNode < 2 ^ 64 ∧ node.header.allocNode < 2 ^ 64)
    (next : ∀ data file pos blocks, data.length = img.realSize →
      (img.setRec slot ⟨node.header, data⟩).Holds file →
      post .success { world with file := file, pos := pos, blocks := blocks }) :
    wp (writeNode node size) post world := by
  subst template
  obtain ⟨behind, inside, -, -⟩ := holds.record slot old known
  refine wp_writeNode_past img.realSize_pos fun data blocks sized _ => ?_
  have fits : (KeyNode.mk node.header data).Fits img.realSize :=
    ⟨header.1, header.2, sized⟩
  have written := holds.setRec behind inside fits
  rw [← stands] at written
  exact next data _ _ blocks sized written

/-- Reading the header in a known slot into a header block. -/
theorem Holds.wp_readHeader {buffer : List UInt8}
    {post : List UInt8 × ReadStatus → World → Prop}
    (holds : img.Holds world.file) (known : img.recs slot = some node)
    (stands : world.pos = img.slotOffset slot)
    (sized : buffer.length = nodeHeadSize)
    (next : ∀ pos, post (node.header.bytes, .success)
      { world with pos := pos }) :
    wp (readFile buffer nodeHeadSize) post world := by
  obtain ⟨-, -, fits, here⟩ := holds.record slot node known
  refine wp_readFile_at (by rw [stands]; exact (at_append.mp here).1) (by simp)
    (by decide) (by omega) (next _)

/-- Writing the header of a known slot. -/
theorem Holds.wp_writeHeader {header : NodeHeader}
    {post : WriteStatus → World → Prop} (holds : img.Holds world.file)
    (known : img.recs slot = some node)
    (stands : world.pos = img.slotOffset slot)
    (fits : header.parentNode < 2 ^ 64 ∧ header.allocNode < 2 ^ 64)
    (next : ∀ file pos blocks, (img.setRec slot ⟨header, node.data⟩).Holds file →
      post .success { world with file := file, pos := pos, blocks := blocks }) :
    wp (writeFile header.bytes nodeHeadSize) post world := by
  obtain ⟨-, -, oldFits, -⟩ := holds.record slot node known
  have emptyHead : (KeyNode.mk header ([] ++ node.data.drop 0)).Fits
      img.realSize := ⟨fits.1, fits.2, by simpa using oldFits.data_length⟩
  have written := holds.setRec_head known (by simp) emptyHead
  simp only [List.append_nil, List.nil_append, List.length_nil,
    List.drop_zero] at written
  refine wp_writeFile (by simp) (by decide) fun blocks => ?_
  rw [List.take_of_length_le (by simp), stands]
  exact next _ _ _ written

/-- Appending a record. -/
theorem Holds.wp_insertNode {size : Nat}
    {post : CrudStatus × Nat → World → Prop} (holds : img.Holds world.file)
    (fullSize : size = img.recordSize)
    (header : node.header.parentNode < 2 ^ 64 ∧ node.header.allocNode < 2 ^ 64)
    (small : world.file.length + img.recordSize < 2 ^ 63)
    (next : ∀ data file blocks, data.length = img.realSize →
      data.take (min img.realSize node.data.length) =
        node.data.take img.realSize →
      (img.push ⟨node.header, data⟩).Holds file →
      file.length = world.file.length + img.recordSize →
      post (.success, img.slotOffset img.top)
        { world with
          file := file
          pos := file.length
          blocks := blocks }) :
    wp (insertNode node size) post world := by
  subst fullSize
  have sizeEq : img.recordSize - nodeHeadSize = img.realSize := by
    simp only [recordSize]
    omega
  rw [insertNode, wp_bind, wp_fseekEnd, wp_bind, wp_ftell, wp_bind,
    wp_ftruncate, wp_bind, sizeEq]
  refine wp_writeNode_past img.realSize_pos fun data blocks sized agree => ?_
  rw [wp_pure]
  have fits : (KeyNode.mk node.header data).Fits img.realSize :=
    ⟨header.1, header.2, sized⟩
  have pushed := holds.push fits small
  have lengthEq : (writeAt
      (resize world.file (world.file.length + img.recordSize))
      world.file.length (KeyNode.mk node.header data).bytes).length =
        world.file.length + img.recordSize := by
    rw [writeAt_length, resize_length,
      img.bytes_length ⟨node.header, data⟩
        ⟨header.1, header.2, sized⟩, Nat.max_self]
  have advanced : world.file.length + nodeHeadSize + img.realSize =
      (writeAt (resize world.file (world.file.length + img.recordSize))
        world.file.length (KeyNode.mk node.header data).bytes).length := by
    rw [lengthEq]
    simp only [recordSize]
    omega
  have outcome := next data _ blocks sized agree pushed lengthEq
  rw [← holds.length_eq] at outcome
  rw [advanced]
  exact outcome

/-- Only the records of some slots are kept in mind. -/
theorem Holds.restrict {file : List UInt8} (holds : img.Holds file)
    {recs : Nat → Option KeyNode}
    (fewer : ∀ slot node, recs slot = some node → img.recs slot = some node) :
    Holds { img with recs := recs } file :=
  ⟨holds.valid, holds.schemaHere, holds.length_eq, holds.small,
    holds.capacity_le,
    fun slot node known => holds.record slot node (fewer slot node known)⟩

/-- Rewriting the schema: attributes stay, and no known record lies where the
id array ends up. -/
theorem Holds.wp_writeTreeSchema {schema : TreeSchema}
    {post : WriteStatus → World → Prop} (holds : img.Holds world.file)
    (sameTemplate : schema.nodesTemplate = img.schema.nodesTemplate)
    (sameSize : schema.treeMeta.templateSize = img.templateSize)
    (metaValid : schema.treeMeta.Valid)
    (rootFits : ∀ entry ∈ schema.root, entry < 2 ^ 64)
    (room : idRecords img.templateSize schema.treeMeta.curId ≤ img.top)
    (behind : ∀ slot node, img.recs slot = some node →
      idRecords img.templateSize schema.treeMeta.curId ≤ slot)
    (next : ∀ entries file pos blocks,
      entries.length =
        getIdArraySize img.templateSize schema.treeMeta.curId →
      entries.take schema.root.length = schema.root.take
        (getIdArraySize img.templateSize schema.treeMeta.curId) →
      Holds { img with schema := { schema with root := entries } } file →
      post .success
        { world with file := file, pos := pos, blocks := blocks }) :
    wp (writeTreeSchema schema) post world := by
  refine TreeStore.wp_writeTreeSchema
    (by rw [sameTemplate]; exact holds.valid.template) rootFits ?_
  intro entries blocks sized fits agree
  rw [sameSize] at sized agree
  have valid : TreeSchema.Valid { schema with root := entries } :=
    ⟨metaValid, by simp [sameTemplate, sameSize, holds.valid.template_length],
      by simpa [sameTemplate] using holds.valid.template,
      by simp [sized, sameSize], fits⟩
  let written : Image := { img with schema := { schema with root := entries } }
  have offsets (slot : Nat) : written.slotOffset slot = img.slotOffset slot := by
    simp [written, slotOffset, dataStart, recordSize, realSize, templateSize,
      sameTemplate, sameSize]
  have capacityEq : written.capacity =
      idRecords img.templateSize schema.treeMeta.curId := by
    simp [written, capacity, templateSize, curId, sameSize]
  have ends : ({ schema with root := entries } : TreeSchema).bytes.length =
      img.slotOffset (idRecords img.templateSize schema.treeMeta.curId) := by
    rw [← offsets, ← capacityEq]
    exact written.schema_length valid
  have lengthEq : (writeAt world.file 0
      { schema with root := entries }.bytes).length = world.file.length := by
    have := img.slotOffset_mono room
    have := holds.length_eq
    rw [writeAt_length, ends]
    omega
  refine next entries _ _ blocks sized agree ⟨valid, at_writeAt _ _ _, ?_, ?_,
    ?_, ?_⟩
  · rw [lengthEq, holds.length_eq]
    exact (offsets _).symm
  · rw [lengthEq]
    exact holds.small
  · exact capacityEq.le.trans room
  · intro slot node known
    obtain ⟨-, inside, nodeFits, here⟩ := holds.record slot node known
    refine ⟨capacityEq.le.trans (behind slot node known), inside, ?_, ?_⟩
    · have : written.realSize = img.realSize := by
        simp [written, realSize, templateSize, sameSize]
      exact this ▸ nodeFits
    · have kept : At (writeAt world.file 0 { schema with root := entries }.bytes)
          (img.slotOffset slot) node.bytes := by
        refine here.writeAt_frame (Or.inr ?_)
        rw [ends, zero_add]
        exact img.slotOffset_mono (behind slot node known)
      exact (offsets slot).symm ▸ kept

end Programs

end Image

end TreeStore
