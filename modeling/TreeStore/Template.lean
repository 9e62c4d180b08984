import TreeStore.Chains
import TreeStore.Tuples

/-!
# The template in a run

In a run whose calls fit, no call changes the attributes, the counter moves by
one with an addition and with the removal of the last id, and growth writes no
record header into the schema.
-/

namespace TreeStore

open ByteFile ProgramLogic LinkedRecords

/-- The removals that move no record: refused ones, and the removal of the only
node of a store without strings. -/
def RemoveMovesNothing (_file : List UInt8) (schema : TreeSchema) (id : Nat) :
    Prop :=
  schema.root[id]? = some 0 ∨ RemovesNumbers schema id

/-- The offsets at which `swapNode` writes a record header when it moves
`record` away from `source`: the strings of a tuple, or the neighbours of a
string record. -/
def headersWritten (schema : TreeSchema) (source : Nat) (record : KeyNode) :
    List Nat :=
  if schema.root[record.header.allocNode]? = some source then
    ((List.range schema.treeMeta.templateSize).filter fun position =>
      schema.types[position]? = some STRING).map record.word
  else
    (if record.header.nextNode ≠ 0 then [record.header.nextNode] else []) ++
      [record.header.prevNode]

/-- Growth, if the call makes the id array grow, writes no header below the end
of the id array. -/
def GrowthWritesBehind (op : Op) (file : List UInt8) (schema : TreeSchema) :
    Prop :=
  ∀ values parent, op = .add values parent →
    idUnit schema.treeMeta.templateSize ∣ schema.treeMeta.curId + 1 →
      ∀ record, RecordAt file schema schema.arrayEnd record →
        ∀ offset ∈ headersWritten schema schema.arrayEnd record,
          schema.arrayEnd ≤ offset

/-- A removal, unless it is refused, takes the only node of the store, which has
no strings and lies where `swapLastNode` looks for the last record: nothing is
moved. -/
def RemovalInPlace (op : Op) (schema : TreeSchema) : Prop :=
  ∀ id, op = .remove id → schema.root[id]? = some 0 ∨
    schema.treeMeta.curId = 1 ∧ schema.root[id]? = some schema.arrayEnd ∧
      ∀ position : Nat, schema.types[position]? ≠ some STRING

/-- How a call may move the counter. -/
inductive CounterMoves : Op → Nat → Nat → Prop
  | stays {op : Op} {curId : Nat} : CounterMoves op curId curId
  | added {values : List Slot} {parent : UInt64} {curId : Nat} :
      CounterMoves (.add values parent) curId (curId + 1)
  | removed {id : Nat} : CounterMoves (.remove id) (id + 1) id

/-- The call leaves the attributes as they are, byte for byte, and moves the
counter as it may. -/
def KeepsTemplate (op : Op) (file file' : List UInt8) : Prop :=
  ∀ schema, SchemaAt file schema →
    GrowthWritesBehind op file schema ∧ RemovalInPlace op schema ∧
    At file' metaSize (templateBytes schema.nodesTemplate) ∧
    ∃ schema', SchemaAt file' schema' ∧
      schema'.treeMeta.templateSize = schema.treeMeta.templateSize ∧
      schema'.nodesTemplate = schema.nodesTemplate ∧
      CounterMoves op schema.treeMeta.curId schema'.treeMeta.curId

section Writes

variable {world : World} {schema : TreeSchema} {byte : UInt8} {position : Nat}

/-- The attributes follow the meta data. -/
theorem SchemaAt.template_here {file : List UInt8}
    (stored : SchemaAt file schema) :
    At file metaSize (templateBytes schema.nodesTemplate) := by
  have restHere := (at_append.mp stored.here).2
  rw [TreeMeta.bytes_length, zero_add] at restHere
  exact (at_append.mp restHere).1

theorem wp_writeNode_outside {node : KeyNode} {size : Nat}
    {post : WriteStatus → World → Prop}
    (here : world.file[position]? = some byte)
    (outside : ¬ (world.pos ≤ position ∧
      position < world.pos + (size + nodeHeadSize)))
    (next : ∀ status final, final.file[position]? = some byte →
      post status final) :
    wp (writeNode node size) post world := by
  rw [writeNode, wp_bind]
  apply wp_writeFile_outside
  intro status middle same pos
  have here' := same _ _ here (by omega)
  rw [wp_bind]
  apply wp_writeFile_outside
  intro status final same' _
  rw [wp_pure]
  exact next _ _ (same' _ _ here' (by omega))

/-- The strings of a tuple are linked where its fields say. -/
theorem SchemaAt.wp_linkSton_outside {node : KeyNode} {offset : Nat}
    {post : CrudStatus → World → Prop} (stored : SchemaAt world.file schema)
    (here : world.file[position]? = some byte)
    (reachable : ∀ i : Nat, schema.types[i]? = some STRING → node.word i < 2 ^ 63 ∧
      ¬ (node.word i ≤ position ∧ position < node.word i + schema.recordSize))
    (next : ∀ final, final.file[position]? = some byte →
      post .success final) :
    wp (linkSton node offset) post world := by
  rw [linkSton, wp_bind]
  apply stored.wp_getTypes
  intro blocks
  rw [wp_bind]
  apply wp_mono (wp_forM_range
    (fun _ middle => middle.file[position]? = some byte) _ here _)
  · intro _ final here
    rw [wp_pure]
    exact next final here
  · intro i small middle here
    apply wp_ite
    · intro string
      obtain ⟨reach, apart⟩ := reachable i string
      have size : schema.treeMeta.templateSize ≤ schema.realSize :=
        le_getRealNodeSize _
      rw [wp_bind]
      apply wp_fseekSet_toLong reach
      rw [wp_bind]
      apply wp_readNode_any
      intro str pos blocks
      rw [wp_bind]
      apply wp_fseekSet_toLong reach
      rw [wp_bind]
      apply wp_writeNode_outside (by exact here)
      · simp only [TreeSchema.recordSize] at apart
        dsimp only
        omega
      · intro status final here
        rw [wp_pure]
        exact here
    · intro _
      rw [wp_pure]
      exact here

theorem RecordAt.wp_swapString_outside {record : KeyNode} {src dest : Nat}
    {types : List Nat} {post : Unit → World → Prop}
    (record_here : RecordAt world.file schema src record)
    (seeks : src < 2 ^ 63) (here : world.file[position]? = some byte)
    (next_reachable : record.header.nextNode ≠ 0 →
      record.header.nextNode < 2 ^ 63 ∧
      ¬ (record.header.nextNode ≤ position ∧
        position < record.header.nextNode + schema.recordSize))
    (prev_reachable : record.header.prevNode < 2 ^ 63 ∧
      ¬ (record.header.prevNode ≤ position ∧
        position < record.header.prevNode + schema.recordSize))
    (next : ∀ final, final.file[position]? = some byte → post () final) :
    wp (swapString types schema.treeMeta.templateSize dest src) post world := by
  obtain ⟨reach, apart⟩ := prev_reachable
  -- the rest of the program, from the header of the predecessor on
  have rest (header : List UInt8) (middle : World)
      (here : middle.file[position]? = some byte) :
      wp (do
        fseekSet (toLong record.header.prevNode)
        let read ← readFile header nodeHeadSize
        if (NodeHeader.ofBytes read.1).nextNode = src then
          fseekSet (toLong record.header.prevNode)
          let _ ← writeFile (writeAt read.1 8 (leBytes 8 dest)) nodeHeadSize
        else
          fseekSet (toLong record.header.prevNode)
          let parent ← readNode schema.treeMeta.templateSize
          fseekSet (toLong record.header.prevNode)
          let _ ← writeNode
            (redirectField parent.1 types schema.treeMeta.templateSize dest src)
            (getRealNodeSize schema.treeMeta.templateSize)) post middle := by
    rw [wp_bind]
    apply wp_fseekSet_toLong reach
    rw [wp_bind, wp_readFile]
    dsimp only
    apply wp_ite
    · intro _
      rw [wp_bind]
      apply wp_fseekSet_toLong reach
      rw [wp_bind]
      apply wp_writeFile_outside
      intro status final same _
      rw [wp_pure]
      apply next final
      apply same _ _ here
      simp only [TreeSchema.recordSize] at apart
      dsimp only
      omega
    · intro _
      rw [wp_bind]
      apply wp_fseekSet_toLong reach
      rw [wp_bind]
      apply wp_readNode_any
      intro parent pos blocks
      rw [wp_bind]
      apply wp_fseekSet_toLong reach
      rw [wp_bind]
      apply wp_writeNode_outside (by exact here) (by exact apart)
      intro status final here
      rw [wp_pure]
      exact next final here
  rw [swapString, wp_bind]
  apply wp_fseekSet_toLong seeks
  rw [wp_bind]
  apply RecordAt.wp_readNode (by exact record_here) rfl rfl
  intro data status pos blocks _ _
  dsimp only
  rw [wp_bind]
  apply wp_malloc
  intro header blocks _
  apply wp_ite
  · intro linked
    obtain ⟨reach, apart⟩ := next_reachable linked
    rw [wp_bind]
    apply wp_fseekSet_toLong reach
    rw [wp_bind, wp_readFile]
    dsimp only
    rw [wp_bind]
    apply wp_fseekSet_toLong reach
    rw [wp_bind]
    apply wp_writeFile_outside
    intro status final same _
    rw [wp_bind, wp_pure]
    apply rest _ final
    apply same _ _ here
    simp only [TreeSchema.recordSize] at apart
    dsimp only
    omega
  · intro _
    rw [wp_bind, wp_pure]
    exact rest _ _ here

/-- Writing the schema back with another id array keeps what lies in front of
the array and behind it. -/
theorem SchemaAt.wp_writeRoot_outside {root : List Nat}
    {post : WriteStatus → World → Prop} {file : List UInt8}
    (stored : SchemaAt file schema) (same : file[position]? = some byte)
    (here : world.file[position]? = some byte)
    (count : root.length = schema.root.length)
    (fits : ∀ entry ∈ root, entry < 2 ^ 64)
    (array : position < metaSize + (templateBytes schema.nodesTemplate).length ∨
      schema.arrayEnd ≤ position)
    (next : ∀ status final, final.file[position]? = some byte →
      post status final) :
    wp (writeTreeSchema { schema with root := root }) post world := by
  apply wp_writeTreeSchema (by exact stored.valid.template) (by exact fits)
  intro entries blocks sized _ agree
  have sameRoot : entries = root := by
    dsimp only at sized agree
    rw [← stored.valid.root_length] at sized agree
    rw [count, ← sized, List.take_length, sized, ← count, List.take_length]
      at agree
    exact agree
  subst sameRoot
  apply next
  dsimp only
  have length : ({ schema with root := entries } : TreeSchema).bytes.length =
      schema.arrayEnd := by
    rw [TreeSchema.bytes_length, TreeSchema.arrayEnd, TreeSchema.bytes_length,
      count]
  rw [writeAt_getElem?, if_neg (Nat.not_lt_zero _), zero_add, length]
  split_ifs with inside
  · have front := array.resolve_right (Nat.not_le.mpr inside)
    have old := at_iff.mp stored.here position inside
    rw [zero_add, same] at old
    rw [Nat.sub_zero, old]
    have split (words : List Nat) :
        ({ schema with root := words } : TreeSchema).bytes =
          (schema.treeMeta.bytes ++ templateBytes schema.nodesTemplate) ++
            wordsBytes words := by
      rw [TreeSchema.bytes, List.append_assoc]
    have short : position < (schema.treeMeta.bytes ++
        templateBytes schema.nodesTemplate).length := by
      rw [List.length_append, TreeMeta.bytes_length]
      exact front
    have whole := split schema.root
    rw [split, List.getElem?_append_left short]
    change schema.bytes = _ at whole
    rw [whole, List.getElem?_append_left short]
  · exact here

/-- The id of a record is its second word, if the array leads back to it. -/
theorem RecordAt.ends_getIdOffset {record : KeyNode} {src : Nat}
    (here : RecordAt world.file schema src record)
    (stored : SchemaAt world.file schema) (seeks : src < 2 ^ 63) :
    ends (getIdOffset src) (fun result final => final.file = world.file ∧
      result = if schema.root[record.header.allocNode]? = some src
        then some record.header.allocNode else none)
      (fun _ => True) world := by
  rw [getIdOffset]
  apply ends_bind
  apply ends_of_wp
  apply stored.wp_readTreeSchema
  intro blocks
  apply ends_bind
  apply ends_of_wp
  apply wp_fseekSet_toLong seeks
  apply ends_bind
  apply ends_of_wp
  apply RecordAt.wp_readNode (by exact here) rfl rfl
  intro data status pos blocks _ _
  dsimp only
  apply ends_bind
  cases found : schema.root[record.header.allocNode]? with
  | none =>
      rw [index_of_none found]
      exact ends_throw trivial
  | some entry =>
      apply ends_of_wp
      apply wp_index found
      apply ends_pure
      exact ⟨rfl, by simp⟩

theorem RecordAt.wp_swapTuple_outside {record : KeyNode} {src dest id : Nat}
    {post : Unit → World → Prop}
    (record_here : RecordAt world.file schema src record)
    (stored : SchemaAt world.file schema)
    (here : world.file[position]? = some byte)
    (seeks : src < 2 ^ 63) (fits : dest < 2 ^ 64)
    (array : position < metaSize + (templateBytes schema.nodesTemplate).length ∨
      schema.arrayEnd ≤ position)
    (strings : ∀ i : Nat, schema.types[i]? = some STRING →
      record.word i < 2 ^ 63 ∧ ¬ (record.word i ≤ position ∧
        position < record.word i + schema.recordSize))
    (next : ∀ final, final.file[position]? = some byte → post () final) :
    wp (swapTuple schema schema.treeMeta.templateSize dest src id) post
      world := by
  rw [swapTuple, wp_bind]
  apply wp_fseekSet_toLong seeks
  rw [wp_bind]
  apply RecordAt.wp_readNode (by exact record_here) rfl rfl
  intro data status pos blocks taken long
  rw [wp_bind]
  apply SchemaAt.wp_linkSton_outside (by exact stored) (by exact here)
  · intro i string
    have inside := (List.getElem?_eq_some_iff.mp string).1
    have word : (KeyNode.mk record.header data).word i = record.word i :=
      Image.word_of_take taken (stored.word_inside inside)
    rw [word]
    exact strings i string
  · intro linked here'
    rw [wp_bind]
    apply SchemaAt.wp_writeRoot_outside (by exact stored) here
      (by exact here') (by simp) _ array
    · intro status final here
      rw [wp_pure]
      exact next final here
    · intro entry member
      rcases List.mem_or_eq_of_mem_set member with old | rfl
      · exact stored.valid.root entry old
      · exact fits

/-- Moving a record changes the copy, the id array and the records at the
offsets of `headersWritten`, and nothing else. -/
theorem SchemaAt.ends_swapNode_outside {record : KeyNode}
    {src dest nodeSize : Nat} (stored : SchemaAt world.file schema)
    (record_here : RecordAt world.file schema src record)
    (apart : src + schema.recordSize ≤ dest) (behind : schema.arrayEnd ≤ dest)
    (seeks : dest < 2 ^ 63)
    (reachable : ∀ offset ∈ headersWritten schema src record, offset < 2 ^ 63)
    (inside : position < world.file.length)
    (copy : ¬ (dest ≤ position ∧ position < dest + nodeSize))
    (array : position < metaSize + (templateBytes schema.nodesTemplate).length ∨
      schema.arrayEnd ≤ position)
    (headers : ∀ offset ∈ headersWritten schema src record,
      ¬ (offset ≤ position ∧ position < offset + schema.recordSize)) :
    ends (swapNode dest src nodeSize)
      (fun _ final => final.file[position]? = world.file[position]?)
      (fun _ => True) world := by
  obtain ⟨byte, here⟩ : ∃ byte, world.file[position]? = some byte :=
    ⟨_, List.getElem?_eq_getElem inside⟩
  have positive : 0 < schema.recordSize := by
    simp [TreeSchema.recordSize, nodeHeadSize]
  rw [here, swapNode]
  apply ends_bind
  apply ends_of_wp
  apply stored.wp_getTypes
  intro blocks
  dsimp only
  rw [if_pos (by omega)]
  apply ends_bind
  apply ends_of_wp
  apply wp_fseekSet_toLong (by omega)
  apply ends_bind
  apply ends_of_wp
  apply wp_malloc
  intro buffer blocks _
  apply ends_bind
  apply ends_of_wp
  rw [wp_readFile]
  dsimp only
  apply ends_bind
  apply ends_of_wp
  apply wp_fseekSet_toLong seeks
  apply ends_bind
  apply ends_of_wp
  apply wp_writeFile_outside
  intro status copied same _
  have here := same _ _ here (by exact copy)
  have stored : SchemaAt copied.file schema :=
    ⟨stored.valid, same.at stored.here (by rw [zero_add]; exact behind)⟩
  have record_here : RecordAt copied.file schema src record :=
    ⟨record_here.fits, same.at record_here.here (by
      rw [record_here.bytes_length]
      exact apart)⟩
  apply ends_bind
  apply ends_of_wp
  rw [wp_fseekSet, if_pos le_rfl]
  apply ends_bind
  apply ends_of_wp
  apply SchemaAt.wp_readTreeSchema (by exact stored)
  intro blocks
  dsimp only
  apply ends_bind
  apply ends_mono (RecordAt.ends_getIdOffset (by exact record_here)
    (by exact stored) (by omega)) _ fun _ fault => fault
  rintro result found ⟨fileEq, rfl⟩
  rw [← fileEq] at here record_here stored
  apply ends_of_wp
  by_cases registered : schema.root[record.header.allocNode]? = some src
  · rw [headersWritten, if_pos registered] at reachable headers
    rw [if_pos registered]
    dsimp only
    rw [wp_bind]
    apply RecordAt.wp_swapTuple_outside (by exact record_here)
      (by exact stored) (by exact here) (by omega) (by omega) array
    · intro i string
      have inside := (List.getElem?_eq_some_iff.mp string).1
      rw [stored.types_length] at inside
      have member : record.word i ∈
          ((List.range schema.treeMeta.templateSize).filter fun position =>
            schema.types[position]? = some STRING).map record.word :=
        List.mem_map.mpr ⟨i, List.mem_filter.mpr
          ⟨List.mem_range.mpr inside, decide_eq_true string⟩, rfl⟩
      exact ⟨reachable _ member, headers _ member⟩
    · intro final here
      rw [wp_pure]
      exact here
  · rw [headersWritten, if_neg registered] at reachable headers
    rw [if_neg registered]
    dsimp only
    rw [wp_bind]
    apply RecordAt.wp_swapString_outside (by exact record_here) (by omega)
      (by exact here)
    · intro linked
      rw [if_pos linked] at reachable headers
      exact ⟨reachable _ (by simp), headers _ (by simp)⟩
    · exact ⟨reachable _ (by simp), headers _ (by simp)⟩
    · intro final here
      rw [wp_pure]
      exact here

/-- Moving the first record leaves the attributes alone if these offsets lie
behind the id array. -/
theorem SchemaAt.ends_swapNode_template {record : KeyNode} {dest nodeSize : Nat}
    (stored : SchemaAt world.file schema)
    (record_here : RecordAt world.file schema schema.arrayEnd record)
    (apart : schema.arrayEnd + schema.recordSize ≤ dest) (seeks : dest < 2 ^ 63)
    (headers : ∀ offset ∈ headersWritten schema schema.arrayEnd record,
      schema.arrayEnd ≤ offset ∧ offset < 2 ^ 63) :
    ends (swapNode dest schema.arrayEnd nodeSize)
      (fun _ final => At final.file metaSize
        (templateBytes schema.nodesTemplate))
      (fun _ => True) world := by
  have short : metaSize + (templateBytes schema.nodesTemplate).length ≤
      schema.arrayEnd := by
    rw [TreeSchema.arrayEnd, TreeSchema.bytes_length]
    exact Nat.le_add_right _ _
  apply ends_intro _ fun _ _ => trivial
  intro status final ran
  have old := stored.template_here
  rw [at_iff] at old ⊢
  intro index inside
  have here := old index inside
  rw [List.getElem?_eq_getElem inside] at here
  have kept := ends_of_run (stored.ends_swapNode_outside record_here apart
    (by omega) seeks (fun offset member => (headers offset member).2)
    (List.getElem?_eq_some_iff.mp here).1 (by omega) (Or.inl (by omega))
    fun offset member => by
      have := (headers offset member).1
      omega) ran
  rw [kept, here, List.getElem?_eq_getElem inside]

end Writes

section Store

variable {img : Image} {nodes : List NodeImage} {file file' : List UInt8}

theorem StoreAt.arrayEnd_le (store : StoreAt img nodes file) {slot : Nat}
    (inside : slot ∈ nodes.flatMap NodeImage.slots) :
    img.schema.arrayEnd ≤ img.slotOffset slot := by
  rw [store.arrayEnd_eq]
  exact img.slotOffset_mono
    (img.capacity_le_reserved.trans ((store.layout.covers slot).mp inside).1)

/-- No record that growth moves refers to an offset inside the schema. -/
theorem StoreAt.headersWritten_behind (store : StoreAt img nodes file)
    {slot : Nat} {record : KeyNode} (known : img.recs slot = some record)
    (inside : slot ∈ nodes.flatMap NodeImage.slots)
    (movable : Movable img.schema (img.slotOffset slot) record)
    {offset : Nat}
    (written : offset ∈ headersWritten img.schema (img.slotOffset slot) record) :
    img.schema.arrayEnd ≤ offset := by
  obtain ⟨node, member, owner⟩ := List.mem_flatMap.mp inside
  obtain ⟨id, found⟩ := List.getElem?_of_mem member
  have nodeAt := store.layout.nodeAt id node found
  have ofNode {other : Nat} (owned : other ∈ node.slots) :
      img.schema.arrayEnd ≤ img.slotOffset other :=
    store.arrayEnd_le (List.mem_flatMap.mpr ⟨node, member, owned⟩)
  by_cases string : slot ∈ node.chainSlots
  · have notRegistered := store.string_not_registered found string known
    rw [Movable, if_neg notRegistered] at movable
    rw [headersWritten, if_neg notRegistered,
      if_neg (not_not_intro movable), List.nil_append,
      List.mem_singleton] at written
    obtain ⟨field, fieldMember, fieldInside⟩ := List.mem_flatMap.mp string
    cases field with
    | num word => simp [FieldImage.slots] at fieldInside
    | str chain =>
        obtain ⟨⟨_, data⟩, entry, rfl⟩ := List.mem_map.mp fieldInside
        obtain ⟨before, after, here, previous⟩ :=
          (nodeAt.fieldsAt.chains chain fieldMember).2.exists_before entry
        rw [known] at here
        cases here
        rw [written]
        rcases previous with rfl | ⟨prior, priorInside, rfl⟩
        · exact ofNode (by simp [NodeImage.slots])
        · exact ofNode (List.mem_append_left _
            (NodeImage.chain_slots_subset fieldMember priorInside))
  · have slotEq : slot = node.slot := by
      simpa [NodeImage.slots, string] using owner
    subst slotEq
    obtain ⟨tuple, here, tupleAt⟩ := nodeAt.tuple
    rw [known] at here
    cases here
    have registered : img.schema.root[record.header.allocNode]? =
        some (img.slotOffset node.slot) := by
      rw [tupleAt.header]
      exact store.root id node found
    rw [headersWritten, if_pos registered] at written
    obtain ⟨position, filtered, rfl⟩ := List.mem_map.mp written
    obtain ⟨chain, field⟩ := nodeAt.fieldsAt.field_of_string
      (of_decide_eq_true (List.mem_filter.mp filtered).2)
    have fieldMember := List.mem_of_getElem? field
    obtain ⟨⟨first, data⟩, rest, rfl⟩ := List.exists_cons_of_ne_nil
      (nodeAt.fieldsAt.chains chain fieldMember).1
    rw [tupleAt.words position _ field]
    exact ofNode (List.mem_append_left _
      (NodeImage.chain_slots_subset fieldMember (by simp)))

/-- An addition that fits writes no header into the schema when it grows. -/
theorem StoreAt.growthWritesBehind {values : List Slot} {parent : UInt64}
    (store : StoreAt img nodes file) (fits : AddFits file img.schema values) :
    GrowthWritesBehind (.add values parent) file img.schema := by
  rintro _ _ ⟨⟩ grows record here offset written
  obtain ⟨arrayEnd, id, node, found, owner⟩ := store.exists_moved grows
  have inside : img.reserved ∈ nodes.flatMap NodeImage.slots :=
    List.mem_flatMap.mpr ⟨node, List.mem_of_getElem? found, owner⟩
  obtain ⟨known, here'⟩ :=
    (store.layout.nodeAt id node found).exists_record owner
  obtain rfl := here.unique (arrayEnd ▸ store.recordAt here')
  have movable := fits.movable grows record here
  rw [arrayEnd] at movable written
  exact store.headersWritten_behind here' inside movable written

/-- A call that leaves a healthy store with the old attributes keeps the
template. -/
theorem StoreAt.keepsTemplate {after : Image} {nodes' : List NodeImage}
    {file' : List UInt8} {op : Op} (store : StoreAt img nodes file)
    (behind : GrowthWritesBehind op file img.schema)
    (inPlace : RemovalInPlace op img.schema)
    (store' : StoreAt after nodes' file')
    (size : after.templateSize = img.templateSize)
    (template : after.schema.nodesTemplate = img.schema.nodesTemplate)
    (moves : CounterMoves op img.curId after.curId) :
    KeepsTemplate op file file' := by
  intro schema stored
  obtain rfl := store.schema_eq stored
  refine ⟨behind, inPlace, ?_, after.schema, store'.schemaAt, size, template,
    moves⟩
  rw [← template]
  exact store'.schemaAt.template_here

end Store

/-- In a run of calls that fit and move no record on removal, a further one
keeps the template. -/
theorem call_keepsTemplate {specs : List AttributeSpec} {world : World}
    {op : Op} {fuel : Nat}
    (reached : Reached specs (CallsFit RemoveMovesNothing) world.file)
    (allowed : CallsFit RemoveMovesNothing op world.file)
    (enough : world.file.length ≤ fuel) :
    wp (op.exec fuel) (fun _ final => KeepsTemplate op world.file final.file)
      world := by
  obtain ⟨img, nodes, store, noRoot⟩ := healthy_of_calls
    (reached.mono fun op file allowed => allowed.weaken
      fun _ _ _ fits => fits.imp_right Or.inl)
  cases op with
  | add values parent =>
      obtain ⟨schema, stored, fits⟩ := allowed
      obtain rfl := store.schema_eq stored
      refine wp_mono (store.add fits) fun status final added => ?_
      obtain ⟨-, node, target, root, top, recs, -, -, store'⟩ := added
      exact store.keepsTemplate (store.growthWritesBehind fits)
        (by simp [RemovalInPlace])
        store' rfl rfl .added
  | update fieldNumber newValue id =>
      obtain ⟨schema, stored, fits⟩ := allowed
      obtain rfl := store.schema_eq stored
      refine wp_mono (store.update_fits fits enough)
        fun status final updated => ?_
      obtain ⟨-, node, field, field', recs, -, -, -, store'⟩ := updated
      exact store.keepsTemplate (by simp [GrowthWritesBehind])
        (by simp [RemovalInPlace]) store' rfl rfl .stays
  | remove id =>
      obtain ⟨schema, stored, fits⟩ := allowed
      obtain rfl := store.schema_eq stored
      rcases fits with refused | fits
      · refine wp_mono (store.remove_refused refused enough)
          fun status final outcome => ?_
        rw [outcome.2]
        refine store.keepsTemplate (by simp [GrowthWritesBehind]) ?_ store rfl
          rfl .stays
        rintro _ ⟨⟩
        exact Or.inl refused
      · refine wp_mono (store.remove_only noRoot (Or.inl fits) enough)
          fun status final outcome => ?_
        obtain ⟨only, rfl, numbers⟩ := fits
        refine store.keepsTemplate (by simp [GrowthWritesBehind]) ?_ outcome.2
          rfl rfl ?_
        · rintro _ ⟨⟩
          obtain ⟨node, found⟩ := store.exists_node
            (show 0 < img.schema.treeMeta.curId by omega)
          refine Or.inr ⟨only, ?_, numbers⟩
          rw [store.root 0 node found, store.only_slot only numbers found,
            store.arrayEnd_eq, Image.capacity, show img.curId = 1 from only,
            idRecords_one]
        · rw [show img.curId = 0 + 1 from only]
          exact .removed

theorem shortValues_letter :
    ShortValues (singleSchema STRING).nodesTemplate [⟨0, [65, 0]⟩] where
  complete := by decide
  terminated := by
    intro position value _ given
    obtain rfl := List.mem_singleton.mp (List.mem_of_getElem? given)
    decide
  short := by decide
  copied := by
    intro position inside _
    obtain rfl : position = 0 := Nat.lt_one_iff.mp inside
    decide

/-- A store of thirty-three letters, in which the id array is about to grow. -/
theorem exists_letters : ∃ img nodes file,
    Copies [singleSpec STRING string_lt] (singleSchema STRING).nodesTemplate
      [⟨0, [65, 0]⟩] 33 img nodes file ∧
    idUnit img.templateSize ∣ img.curId + 1 ∧
    AddFits file img.schema [⟨0, [65, 0]⟩] := by
  have room : metaSize +
      (templateBytes (singleSchema STRING).nodesTemplate).length +
      (getRealNodeSize (singleSchema STRING).nodesTemplate.length +
        nodeHeadSize) * (34 + 2 + (34 + 1) *
          addRecords ((singleSchema STRING).nodesTemplate.map (·.type))
            (getRealNodeSize (singleSchema STRING).nodesTemplate.length)
            [⟨0, [65, 0]⟩]) < 2 ^ 63 := by
    decide +kernel
  have start : Copies [singleSpec STRING string_lt]
      (singleSchema STRING).nodesTemplate [⟨0, [65, 0]⟩] 0
      (emptyImage (singleSchema STRING).nodesTemplate) []
      (createdFile [singleSpec STRING string_lt]) :=
    copies_zero (by decide) (by simp [singleSpec_fits]) createdFile_string
      (schemaAt_single (by norm_num)).valid (by
        rw [show emptySchema (singleSchema STRING).nodesTemplate =
          singleSchema STRING from rfl, singleSchema_length]
        norm_num)
  obtain ⟨img, nodes, file, copies⟩ :=
    exists_copies start shortValues_letter room
  refine ⟨img, nodes, file, copies, ?_, ?_⟩
  · rw [copies.size_eq, copies.count_eq]
    decide
  · apply copies.addFits shortValues_letter
    apply lt_of_le_of_lt _ room
    gcongr <;> decide

/-- The thirty-fourth node of one letter makes the id array grow, which moves a
record that others refer to. -/
theorem call_keepsTemplate_letter : ∃ file schema record,
    SchemaAt file schema ∧
    idUnit schema.treeMeta.templateSize ∣ schema.treeMeta.curId + 1 ∧
    RecordAt file schema schema.arrayEnd record ∧
    headersWritten schema schema.arrayEnd record ≠ [] ∧
    wp (Op.exec file.length (.add [⟨0, [65, 0]⟩] 0)) (fun _ final =>
      KeepsTemplate (.add [⟨0, [65, 0]⟩] 0) file final.file)
      (blankWorld file) := by
  obtain ⟨img, nodes, file, copies, grows, fits⟩ := exists_letters
  have store := copies.store
  obtain ⟨arrayEnd, id, node, found, owner⟩ := store.exists_moved grows
  obtain ⟨record, known⟩ :=
    (store.layout.nodeAt id node found).exists_record owner
  refine ⟨file, img.schema, record, store.schemaAt, grows,
    arrayEnd ▸ store.recordAt known, ?_, ?_⟩
  · have size : img.schema.treeMeta.templateSize = 1 := copies.size_eq
    have types : img.schema.types = [STRING] := by
      rw [TreeSchema.types, copies.template_eq]
      rfl
    rw [headersWritten, size, types]
    split_ifs <;> simp [List.range_succ]
  · exact @call_keepsTemplate _ (blankWorld file) (.add [⟨0, [65, 0]⟩] 0)
      file.length (copies.reached.mono fun _ _ => AddsFit.calls)
      ⟨_, store.schemaAt, fits⟩ le_rfl

/-- Calls that a caller may make: values of the right kind, updates of the
fields of live ids, and any removal. -/
def CallsProper : Op → List UInt8 → Prop
  | .remove .., _ => True
  | op, file => EditsProper op file

section Overwritten

/-- A store with one string, which is empty. -/
def emptyString : List UInt8 :=
  Op.fileAfter (.add [⟨0, [0]⟩] 0) (singleSchema STRING).bytes

def emptyStrings : List UInt8 := Op.fileAfter (.add [⟨0, [0]⟩] 0) emptyString

/-- One letter, at the start of a block of 701 bytes. -/
def oneLetter : CharPtr := 120 :: List.replicate 700 0

/-- The loop of `changeStrNode` follows the id of the second tuple as if it
were the offset of a record. -/
theorem keepsTemplate_not_always :
    ¬ ∀ (specs : List AttributeSpec) (file file' : List UInt8) (op : Op),
      Reached specs CallsProper file → CallsProper op file →
        op.Returns file file' → KeepsTemplate op file file' := by
  intro always
  have evaluated : (SchemaAt emptyString (schemaOf emptyString) ∧
      SchemaAt emptyStrings (schemaOf emptyStrings)) ∧
      ((schemaOf emptyString).types = [STRING] ∧
        (schemaOf emptyStrings).types = [STRING] ∧
        LiveAt (schemaOf emptyStrings) 1 604) ∧
      (emptyString ≠ [] ∧ emptyStrings ≠ [] ∧
        Op.fileAfter (.update 0 oneLetter 1) emptyStrings ≠ []) ∧
      ¬ At (Op.fileAfter (.update 0 oneLetter 1) emptyStrings) metaSize
        (templateBytes (schemaOf emptyStrings).nodesTemplate) := by
    decide +kernel
  obtain ⟨⟨first, second⟩, ⟨firstTypes, secondTypes, live⟩,
    ⟨firstLeft, secondLeft, thirdLeft⟩, changed⟩ := evaluated
  have proper {schema : TreeSchema} (types : schema.types = [STRING]) :
      ProperValues schema [⟨0, [0]⟩] := by
    refine ⟨by simp [types], fun position value _ given => ?_⟩
    obtain rfl := List.mem_singleton.mp (List.mem_of_getElem? given)
    simp
  have start := reached_single CallsProper createdFile_string
  have one : Reached [singleSpec STRING string_lt] CallsProper
      emptyString :=
    .next (.add [⟨0, [0]⟩] 0) start
      ⟨_, schemaAt_single (by norm_num), proper rfl⟩
      (Op.returns_fileAfter firstLeft)
  have two : Reached [singleSpec STRING string_lt] CallsProper
      emptyStrings :=
    .next (.add [⟨0, [0]⟩] 0) one ⟨_, first, proper firstTypes⟩
      (Op.returns_fileAfter secondLeft)
  have allowed : CallsProper (.update 0 oneLetter 1) emptyStrings :=
    ⟨_, 604, second, live, by simp [secondTypes], fun _ => by decide⟩
  obtain ⟨-, -, kept, -⟩ := always _ _ _ _ two allowed
    (Op.returns_fileAfter thirdLeft) _ second
  exact changed kept

end Overwritten

end TreeStore
