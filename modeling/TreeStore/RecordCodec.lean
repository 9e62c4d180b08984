import TreeStore.Chains
import TreeStore.FailedUpdates
import TreeStore.Tuples

/-!
# Single records

`readNode` rounds the size of the data twice, so it asks for more bytes than a
record has; whether they are there depends on what follows the record.
`linkSton` writes back only the first bytes of the data that it has read.
-/

namespace TreeStore

open ByteFile ProgramLogic

/-- The read succeeds, and what it delivers begins with the record. -/
def ReadsRecord (size : Nat) (record : KeyNode)
    (outcome : KeyNode × ReadStatus) : Prop :=
  outcome.2 = .success ∧ outcome.1.header = record.header ∧
    outcome.1.data.take (getRealNodeSize size) = record.data

/-- `insertNode`, and `readNode` at the position that it delivers. -/
def insertThenRead (node : KeyNode) (size : Nat) :
    Prog (KeyNode × ReadStatus) := do
  let (_, nodePos) ← insertNode node (getRealNodeSize size + nodeHeadSize)
  fseekSet (toLong nodePos)
  readNode size

section Codec

variable {world : World} {size : Nat} {record node : KeyNode}

theorem KeyNode.Fits.bytes_length (fits : record.Fits size) :
    record.bytes.length = nodeHeadSize + size := by
  rw [KeyNode.bytes, List.length_append, NodeHeader.bytes_length,
    fits.data_length]

/-- The header and the data of a complete record are read in any case; the
status tells whether the file has as many bytes as are asked for. -/
theorem KeyNode.Fits.wp_readNode_status
    (fits : record.Fits (getRealNodeSize size))
    (here : At world.file world.pos record.bytes) :
    wp (readNode size) (fun outcome _ =>
      (outcome.2 = .success ↔ world.pos + nodeHeadSize +
        getRealNodeSize (getRealNodeSize size) ≤ world.file.length) ∧
      outcome.1.header = record.header ∧
      outcome.1.data.take (getRealNodeSize size) = record.data) world := by
  obtain ⟨headerHere, dataHere⟩ := at_append.mp here
  rw [NodeHeader.bytes_length] at dataHere
  have positive := getRealNodeSize_ge (getRealNodeSize size)
  have twice := le_getRealNodeSize (getRealNodeSize size)
  have inside := here.length_le (List.ne_nil_of_length_pos (by
    rw [fits.bytes_length, nodeHeadSize]
    omega))
  rw [fits.bytes_length] at inside
  rw [readNode, wp_bind]
  apply wp_malloc
  intro block blocks sized
  rw [wp_bind]
  apply wp_readFile_at (by exact headerHere) (by simp) (by decide) (by omega)
  simp only [wp_bind]
  apply wp_malloc
  intro dataBlock blocks dataSized
  rw [wp_readFile, wp_pure]
  have started := dataHere.readAt_take (fits.data_length.trans_le twice)
  have length := readAt_length world.file (world.pos + nodeHeadSize)
    (getRealNodeSize (getRealNodeSize size))
  rw [fits.data_length] at started
  refine ⟨?_, NodeHeader.ofBytes_bytes fits.parentNode fits.allocNode, ?_⟩
  · dsimp only [ReadStatus.or]
    rw [length]
    split_ifs with short
    · apply iff_of_false (by decide)
      omega
    · apply iff_of_true rfl
      omega
  · have long := congrArg List.length started
    rw [List.length_take, fits.data_length] at long
    rw [List.take_append_of_le_length (by
      dsimp only
      omega)]
    exact started

/-- Reading a complete record succeeds exactly if the file has as many bytes
behind the header as a size takes that is rounded twice. -/
theorem KeyNode.Fits.readsRecord_iff
    (fits : record.Fits (getRealNodeSize size))
    (here : At world.file world.pos record.bytes) :
    wp (readNode size) (fun outcome _ => ReadsRecord size record outcome)
        world ↔
      world.pos + nodeHeadSize + getRealNodeSize (getRealNodeSize size) ≤
        world.file.length := by
  have known := fits.wp_readNode_status here
  constructor
  · intro reads
    obtain ⟨outcome, -, -, ⟨success, -⟩, status, -⟩ := wp_and reads known
    exact status.mp success
  · intro enough
    apply wp_mono known
    rintro outcome final ⟨status, header, data⟩
    exact ⟨status.mpr enough, header, data⟩

/-- The last record of a file is read with an error. -/
theorem KeyNode.Fits.insertThenRead_fails
    (fits : node.Fits (getRealNodeSize size))
    (small : world.file.length + nodeHeadSize + getRealNodeSize size < 2 ^ 63) :
    wp (insertThenRead node size) (fun outcome _ => outcome.2 = .lenError ∧
      outcome.1.header = node.header ∧
      outcome.1.data.take (getRealNodeSize size) = node.data) world := by
  have positive := getRealNodeSize_ge size
  rw [insertThenRead, wp_bind, insertNode, wp_bind, wp_fseekEnd, wp_bind,
    wp_ftell, wp_bind, wp_ftruncate, wp_bind, Nat.add_sub_cancel]
  apply wp_writeNode_at (by omega) fits.data_length.ge
  intro blocks
  rw [wp_pure]
  dsimp only
  rw [wp_bind]
  apply wp_fseekSet_toLong (by omega)
  have whole : node.header.bytes ++ node.data.take (getRealNodeSize size) =
      node.bytes := by
    rw [← fits.data_length, List.take_length]
    rfl
  rw [whole]
  have known := @KeyNode.Fits.wp_readNode_status ⟨writeAt
    (resize world.file (world.file.length + (getRealNodeSize size +
      nodeHeadSize))) world.file.length node.bytes, world.file.length,
    world.heap, blocks⟩ size node fits (at_writeAt _ _ _)
  apply wp_mono known
  rintro outcome final ⟨status, header, data⟩
  refine ⟨?_, header, data⟩
  have long := mul_le_getRealNodeSize (getRealNodeSize size)
  cases read : outcome.2 with
  | success =>
      have enough := status.mp read
      rw [writeAt_length, resize_length, fits.bytes_length] at enough
      dsimp only at enough
      omega
  | lenError => rfl

/-- Reading a complete record succeeds exactly if the file has as many bytes
behind its header as a size takes that is rounded twice; so it never does for a
node that has just been inserted, whose bytes are read all the same. -/
theorem readNode_reads_iff (size : Nat) :
    (∀ (world : World) (record : KeyNode),
      record.Fits (getRealNodeSize size) →
      At world.file world.pos record.bytes →
      (wp (readNode size) (fun outcome _ => ReadsRecord size record outcome)
          world ↔
        world.pos + nodeHeadSize + getRealNodeSize (getRealNodeSize size) ≤
          world.file.length)) ∧
    ∀ (world : World) (node : KeyNode), node.Fits (getRealNodeSize size) →
      world.file.length + nodeHeadSize + getRealNodeSize size < 2 ^ 63 →
      ¬ wp (insertThenRead node size)
        (fun outcome _ => ReadsRecord size node outcome) world ∧
      wp (insertThenRead node size) (fun outcome _ =>
        outcome.1.header = node.header ∧
        outcome.1.data.take (getRealNodeSize size) = node.data) world := by
  constructor
  · intro world record fits here
    exact fits.readsRecord_iff here
  · intro world node fits small
    have fails := fits.insertThenRead_fails small
    constructor
    · intro reads
      obtain ⟨outcome, -, -, ⟨success, -⟩, failed, -⟩ := wp_and reads fails
      rw [success] at failed
      cases failed
    · apply wp_mono fails
      rintro outcome final ⟨-, header, data⟩
      exact ⟨header, data⟩

end Codec

theorem sevenRecord_fits : sevenRecord.Fits (getRealNodeSize 1) :=
  ⟨by decide, by decide, by decide +kernel⟩

/-- A record with 2048 bytes behind its header. -/
theorem readNode_reads_seven :
    wp (readNode 1) (fun outcome _ => ReadsRecord 1 sevenRecord outcome)
      (blankWorld (sevenRecord.bytes ++ List.replicate 1792 0)) := by
  have here : At (sevenRecord.bytes ++ List.replicate 1792 0) 0
      sevenRecord.bytes := by
    decide +kernel
  have enough : 0 + nodeHeadSize + getRealNodeSize (getRealNodeSize 1) ≤
      (sevenRecord.bytes ++ List.replicate 1792 0).length := by
    decide +kernel
  generalize sevenRecord.bytes ++ List.replicate 1792 0 = file
    at here enough ⊢
  exact ((readNode_reads_iff 1).1 (blankWorld file) sevenRecord
    sevenRecord_fits here).mpr enough

/-- The last record of a file is not read with success. -/
theorem not_always_reads :
    ¬ ∀ (world : World) (size : Nat) (record : KeyNode),
      record.Fits (getRealNodeSize size) →
      At world.file world.pos record.bytes →
        wp (readNode size) (fun outcome _ => ReadsRecord size record outcome)
          world := by
  intro always
  obtain ⟨file, here, short⟩ : ∃ file, At file 0 sevenRecord.bytes ∧
      file.length < 0 + nodeHeadSize + getRealNodeSize (getRealNodeSize 1) :=
    ⟨sevenRecord.bytes, by decide +kernel⟩
  have reads := always (blankWorld file) 1 sevenRecord sevenRecord_fits here
  have enough := (@KeyNode.Fits.readsRecord_iff (blankWorld file) 1 sevenRecord
    sevenRecord_fits here).mp reads
  exact absurd enough (Nat.not_le_of_lt short)

section Relinking

variable {world : World} {schema : TreeSchema} {file : List UInt8}
  {node record : KeyNode} {head offset : Nat}

/-- The words that a tuple has for its strings. -/
def StringHead (schema : TreeSchema) (node : KeyNode) (head : Nat) : Prop :=
  ∃ position, schema.types[position]? = some STRING ∧ node.word position = head

/-- The fields of the tuple for strings lead to complete records behind the id
array, and two of them to the same record or to two that do not overlap. -/
structure HasHeads (file : List UInt8) (schema : TreeSchema) (node : KeyNode) :
    Prop where
  complete : ∀ head, StringHead schema node head →
    ∃ record, RecordAt file schema head record
  behind : ∀ head, StringHead schema node head → schema.arrayEnd ≤ head
  apart : ∀ head other, StringHead schema node head →
    StringHead schema node other → head = other ∨
      head + schema.recordSize ≤ other ∨ other + schema.recordSize ≤ head

/-- The first words of the heads are `offset`, and no other byte differs. -/
structure Relinked (file file' : List UInt8) (schema : TreeSchema)
    (node : KeyNode) (offset : Nat) : Prop where
  linked : ∀ head, StringHead schema node head →
    At file' head (leBytes 8 offset)
  frame : ∀ index, (∀ head, StringHead schema node head →
    index < head ∨ head + 8 ≤ index) → file'[index]? = file[index]?
  length_eq : file'.length = file.length

/-- The record is read and written back with another first word; there are less
attributes than bytes in a record, so all that is written has been read. -/
theorem RecordAt.wp_relink {post : PUnit → World → Prop}
    (stored : RecordAt world.file schema head record)
    (small : world.file.length < 2 ^ 63)
    (fields : 0 < schema.treeMeta.templateSize)
    (next : ∀ pos blocks, post ⟨⟩
      { world with
        file := writeAt world.file head (leBytes 8 offset)
        pos := pos
        blocks := blocks }) :
    wp (do
      fseekSet (toLong head)
      let (str, _) ← readNode schema.treeMeta.templateSize
      fseekSet (toLong head)
      let _ ← writeNode
        { str with header := { str.header with parentNode := offset } }
        schema.treeMeta.templateSize) post world := by
  have inside := stored.length_le
  have short : schema.treeMeta.templateSize ≤ schema.realSize :=
    le_getRealNodeSize _
  have seeks : head < 2 ^ 63 := by omega
  rw [wp_bind]
  apply wp_fseekSet_toLong seeks
  rw [wp_bind]
  apply RecordAt.wp_readNode (by exact stored) rfl rfl
  intro data status pos blocks started long
  dsimp only
  rw [wp_bind]
  apply wp_fseekSet_toLong seeks
  rw [wp_bind]
  apply wp_writeNode_at fields (short.trans long)
  intro blocks
  rw [wp_pure]
  have begins : data.take schema.treeMeta.templateSize =
      record.data.take schema.treeMeta.templateSize := by
    rw [← started, List.take_take, Nat.min_eq_left short]
  -- behind the first word everything is as it was
  have words : record.bytes = leBytes 8 record.header.parentNode ++
      (leBytes 8 record.header.allocNode ++ record.data) := by
    simp [KeyNode.bytes, NodeHeader.bytes, wordsBytes]
  have rest := (at_append.mp (words ▸ stored.here)).2
  have other : At world.file (head + (leBytes 8 offset).length)
      (leBytes 8 record.header.allocNode ++
        record.data.take schema.treeMeta.templateSize) := by
    rw [← List.take_append_drop schema.treeMeta.templateSize record.data,
      ← List.append_assoc] at rest
    simpa using (at_append.mp rest).1
  have written : writeAt world.file head
      ((NodeHeader.mk offset record.header.allocNode).bytes ++
        data.take schema.treeMeta.templateSize) =
      writeAt world.file head (leBytes 8 offset) := by
    have bytes : (NodeHeader.mk offset record.header.allocNode).bytes =
        leBytes 8 offset ++ leBytes 8 record.header.allocNode := by
      simp [NodeHeader.bytes, wordsBytes]
    rw [bytes, begins, List.append_assoc]
    apply other.writeAt_extend
    rw [List.length_append, List.length_take, leBytes_length, leBytes_length]
    have := stored.fits.data_length
    rw [TreeSchema.recordSize, nodeHeadSize] at inside
    omega
  rw [written]
  exact next _ _

/-- The fields for strings before a position. -/
def StringHeadBelow (schema : TreeSchema) (node : KeyNode) (index head : Nat) :
    Prop :=
  ∃ position < index, schema.types[position]? = some STRING ∧
    node.word position = head

/-- Relinking a tuple writes the first words of its heads and nothing else. -/
theorem HasHeads.wp_linkSton (stored : SchemaAt world.file schema)
    (small : world.file.length < 2 ^ 63)
    (heads : HasHeads world.file schema node) :
    wp (linkSton node offset) (fun status final => status = .success ∧
      Relinked world.file final.file schema node offset) world := by
  rw [linkSton, wp_bind]
  apply SchemaAt.wp_getTypes stored
  intro blocks
  dsimp only
  rw [wp_bind]
  apply wp_mono (wp_forM_range (fun index middle =>
    (∀ head, StringHeadBelow schema node index head →
      At middle.file head (leBytes 8 offset)) ∧
    (∀ index, (∀ head, StringHead schema node head →
      index < head ∨ head + 8 ≤ index) →
        middle.file[index]? = world.file[index]?) ∧
    middle.file.length = world.file.length)
    schema.treeMeta.templateSize ?_ ?_)
  · rintro _ final ⟨linked, frame, length⟩
    rw [wp_pure]
    refine ⟨rfl, fun head heads => ?_, frame, length⟩
    obtain ⟨position, string, rfl⟩ := heads
    apply linked
    refine ⟨position, ?_, string, rfl⟩
    rw [← stored.types_length]
    exact (List.getElem?_eq_some_iff.mp string).1
  · refine ⟨?_, fun _ _ => rfl, rfl⟩
    rintro head ⟨position, none, -⟩
    exact absurd none (Nat.not_lt_zero _)
  · rintro index counted middle ⟨linked, frame, length⟩
    by_cases string : schema.types[index]? = some STRING
    · rw [if_pos string]
      have this : StringHead schema node (node.word index) :=
        ⟨index, string, rfl⟩
      obtain ⟨record, here⟩ := heads.complete _ this
      have room := here.length_le
      rw [← length] at room
      obtain ⟨record', here'⟩ := exists_recordAt room
      apply here'.wp_relink (by omega) (Nat.zero_lt_of_lt counted)
      intro pos blocks
      dsimp only
      rw [TreeSchema.recordSize, nodeHeadSize] at room
      refine ⟨?_, ?_, ?_⟩
      · rintro head ⟨position, below, typed, rfl⟩
        rcases heads.apart _ _ ⟨position, typed, rfl⟩ this with same | apart
        · rw [same]
          exact at_writeAt _ _ _
        · have before : position < index := by
            by_contra later
            obtain rfl : position = index := by omega
            rw [TreeSchema.recordSize, nodeHeadSize] at apart
            omega
          apply (linked _ ⟨position, before, typed, rfl⟩).writeAt_frame
          rw [leBytes_length]
          rw [TreeSchema.recordSize, nodeHeadSize] at apart
          omega
      · intro place outside
        rw [← frame place outside, writeAt_getElem?, leBytes_length]
        rcases outside _ this with before | behind
        · rw [if_pos before, List.getElem?_eq_getElem (by omega),
            Option.getD_some]
        · rw [if_neg (by omega), if_neg (by omega)]
      · rw [writeAt_length, leBytes_length, ← length]
        omega
    · rw [if_neg string, wp_pure]
      refine ⟨?_, frame, length⟩
      rintro head ⟨position, below, typed, rfl⟩
      apply linked
      refine ⟨position, ?_, typed, rfl⟩
      by_contra later
      obtain rfl : position = index := by omega
      exact string typed

/-- A tuple that is linked already stays as it is. -/
theorem wp_linkSton_linked (stored : SchemaAt world.file schema)
    (small : world.file.length < 2 ^ 63)
    (linked : ∀ head, StringHead schema node head →
      head + schema.recordSize ≤ world.file.length ∧
        At world.file head (leBytes 8 offset)) :
    wp (linkSton node offset) (fun status final => status = .success ∧
      final.file = world.file) world := by
  rw [linkSton, wp_bind]
  apply SchemaAt.wp_getTypes stored
  intro blocks
  dsimp only
  rw [wp_bind]
  apply wp_mono (wp_forM_range (fun index middle => middle.file = world.file)
    schema.treeMeta.templateSize rfl ?_)
  · rintro _ final same
    rw [wp_pure]
    exact ⟨rfl, same⟩
  · rintro index counted middle same
    by_cases string : schema.types[index]? = some STRING
    · rw [if_pos string]
      obtain ⟨room, here⟩ := linked _ ⟨index, string, rfl⟩
      rw [← same] at room here
      obtain ⟨record, there⟩ := exists_recordAt room
      apply there.wp_relink (by rw [same]; exact small)
        (Nat.zero_lt_of_lt counted)
      intro pos blocks
      dsimp only
      rw [TreeSchema.recordSize, nodeHeadSize] at room
      rw [here.writeAt_self (by rw [leBytes_length]; omega), same]
    · rw [if_neg string, wp_pure]
      exact same

/-- Relinking a tuple sets the back pointers of the heads of its strings and
changes no other byte, and doing it once more changes nothing. -/
theorem linkSton_relinks (stored : SchemaAt world.file schema)
    (small : world.file.length < 2 ^ 63)
    (heads : HasHeads world.file schema node) :
    wp (linkSton node offset) (fun status middle => status = .success ∧
      Relinked world.file middle.file schema node offset ∧
      ∀ again : World, again.file = middle.file →
        wp (linkSton node offset) (fun status final => status = .success ∧
          final.file = middle.file) again) world := by
  apply wp_mono (heads.wp_linkSton stored small)
  rintro status middle ⟨success, relinked⟩
  refine ⟨success, relinked, ?_⟩
  rintro again same
  have schemaHere : At middle.file 0 schema.bytes := by
    have here := stored.here
    rw [at_iff] at here ⊢
    intro index inside
    rw [relinked.frame, here index inside]
    intro head string
    have behind : schema.bytes.length ≤ head := heads.behind head string
    omega
  have known := @wp_linkSton_linked again schema node offset
    ⟨stored.valid, by rw [same]; exact schemaHere⟩
    (by rw [same, relinked.length_eq]; exact small)
    (by
      intro head string
      obtain ⟨record, here⟩ := heads.complete head string
      rw [same, relinked.length_eq]
      exact ⟨here.length_le, relinked.linked head string⟩)
  rw [same] at known
  exact known

end Relinking

/-- The only tuple of `longString`, whose string is at 332. -/
theorem linkSton_relinks_longString :
    wp (linkSton ⟨⟨0, 0⟩, leBytes 8 332⟩ 7) (fun status middle =>
      status = .success ∧
      Relinked longString middle.file (schemaOf longString)
        ⟨⟨0, 0⟩, leBytes 8 332⟩ 7 ∧
      ∀ again : World, again.file = middle.file →
        wp (linkSton ⟨⟨0, 0⟩, leBytes 8 332⟩ 7) (fun status final =>
          status = .success ∧ final.file = middle.file) again)
      (blankWorld longString) := by
  have evaluated : SchemaAt longString (schemaOf longString) ∧
      (schemaOf longString).types = [STRING] ∧
      (schemaOf longString).arrayEnd = 332 ∧
      (schemaOf longString).recordSize = 272 := by
    decide +kernel
  have length := longString_length
  generalize longString = file at evaluated length ⊢
  obtain ⟨stored, types, arrayEnd, recordSize⟩ := evaluated
  have only (head : Nat) (string : StringHead (schemaOf file)
      ⟨⟨0, 0⟩, leBytes 8 332⟩ head) : head = 332 := by
    obtain ⟨position, typed, rfl⟩ := string
    rw [types] at typed
    obtain rfl : position = 0 := by
      have := (List.getElem?_eq_some_iff.mp typed).1
      simpa using this
    decide
  apply @linkSton_relinks (blankWorld file) (schemaOf file)
    ⟨⟨0, 0⟩, leBytes 8 332⟩ 7 stored
  · change file.length < _
    omega
  · refine ⟨?_, ?_, ?_⟩
    · intro head string
      rw [only head string]
      apply exists_recordAt
      change _ ≤ file.length
      omega
    · intro head string
      rw [only head string, arrayEnd]
    · intro head other string string'
      rw [only head string, only other string']
      exact Or.inl rfl

end TreeStore
