import TreeStore.Tuples

/-!
# Strings of a file

A string of a file is what its forward links lead through, wherever the records
lie and whatever their back links are.  The readers of `dataFile.c` need no
more of a string than that.
-/

namespace TreeStore

open ByteFile ProgramLogic LinkedRecords

/-- From `offset` on, the forward links lead through the records at these
offsets, with these data, to a record without successor. -/
inductive ForwardChain (file : List UInt8) (schema : TreeSchema) :
    Nat → List (Nat × List UInt8) → Prop
  | last {offset before : Nat} {data : List UInt8} :
      RecordAt file schema offset (stringRecord before 0 data) →
      ForwardChain file schema offset [(offset, data)]
  | next {offset before after : Nat} {data : List UInt8}
      {rest : List (Nat × List UInt8)} :
      RecordAt file schema offset (stringRecord before after data) →
      after ≠ 0 → ForwardChain file schema after rest →
      ForwardChain file schema offset ((offset, data) :: rest)

/-- A store of tuples in which every string field of a live id heads a
terminated string. -/
structure Searchable (file : List UInt8) (schema : TreeSchema) : Prop
    extends Tuples file schema where
  strings : ∀ id offset record position, LiveAt schema id offset →
    RecordAt file schema offset record →
    schema.types[position]? = some STRING →
    ∃ chain, ForwardChain file schema (record.word position) chain ∧
      0 ∈ assemble schema.realSize chain

/-- If this attribute is a string, its fields in live records head terminated
strings. -/
def StringsAt (file : List UInt8) (schema : TreeSchema) (position : Nat) :
    Prop :=
  ∀ id offset record, LiveAt schema id offset →
    RecordAt file schema offset record →
    schema.types[position]? = some STRING →
    ∃ chain, ForwardChain file schema (record.word position) chain ∧
      0 ∈ assemble schema.realSize chain

theorem Searchable.stringsAt {file : List UInt8} {schema : TreeSchema}
    (store : Searchable file schema) (position : Nat) :
    StringsAt file schema position :=
  fun id offset record => store.strings id offset record position

section Strings

variable {file : List UInt8} {schema : TreeSchema} {offset : Nat}
  {chain chain' : List (Nat × List UInt8)}

theorem ForwardChain.ne_nil (string : ForwardChain file schema offset chain) :
    chain ≠ [] := by
  cases string <;> exact List.cons_ne_nil _ _

/-- One string begins at an offset. -/
theorem ForwardChain.unique (string : ForwardChain file schema offset chain)
    (string' : ForwardChain file schema offset chain') : chain = chain' := by
  induction string generalizing chain' with
  | last here =>
      cases string' with
      | last here' =>
          rw [(stringRecord_inj (here.unique here')).2.2]
      | next here' continues _ =>
          exact absurd (stringRecord_inj (here.unique here')).2.1.symm
            continues
  | next here continues _ ih =>
      cases string' with
      | last here' =>
          exact absurd (stringRecord_inj (here.unique here')).2.1 continues
      | next here' _ rest' =>
          obtain ⟨-, rfl, rfl⟩ := stringRecord_inj (here.unique here')
          rw [ih rest']

/-- Every record of a string heads what follows it. -/
theorem ForwardChain.exists_suffix
    (string : ForwardChain file schema offset chain)
    {place : Nat} (member : place ∈ chain.map Prod.fst) :
    ∃ suffix, ForwardChain file schema place suffix ∧ suffix <:+ chain := by
  induction string with
  | last here =>
      rw [List.map_singleton, List.mem_singleton] at member
      subst member
      exact ⟨_, .last here, List.suffix_rfl⟩
  | next here continues rest ih =>
      rw [List.map_cons, List.mem_cons] at member
      rcases member with rfl | later
      · exact ⟨_, .next here continues rest, List.suffix_rfl⟩
      · obtain ⟨suffix, heads, inside⟩ := ih later
        exact ⟨suffix, heads, inside.trans (List.suffix_cons _ _)⟩

/-- A string passes through no record twice: it would go on for ever. -/
theorem ForwardChain.nodup (string : ForwardChain file schema offset chain) :
    (chain.map Prod.fst).Nodup := by
  induction string with
  | last => exact List.nodup_singleton _
  | next here continues rest ih =>
      rw [List.map_cons, List.nodup_cons]
      refine ⟨?_, ih⟩
      intro again
      obtain ⟨suffix, heads, inside⟩ := rest.exists_suffix again
      have whole := heads.unique (.next here continues rest)
      have short := inside.length_le
      rw [whole, List.length_cons] at short
      omega

theorem ForwardChain.exists_record
    (string : ForwardChain file schema offset chain)
    {place : Nat} (member : place ∈ chain.map Prod.fst) :
    ∃ record, RecordAt file schema place record := by
  obtain ⟨_, heads, -⟩ := string.exists_suffix member
  cases heads with
  | last here => exact ⟨_, here⟩
  | next here _ _ => exact ⟨_, here⟩

theorem ForwardChain.offset_lt
    (string : ForwardChain file schema offset chain) :
    offset < file.length := by
  have bound {record : KeyNode} (here : RecordAt file schema offset record) :
      offset < file.length := by
    have := here.length_le
    have : 16 ≤ schema.recordSize := Nat.le_add_left _ _
    omega
  cases string with
  | last here => exact bound here
  | next here _ _ => exact bound here

/-- A string has no more records than the file has bytes. -/
theorem ForwardChain.length_le
    (string : ForwardChain file schema offset chain) :
    chain.length ≤ file.length := by
  have bounded : chain.map Prod.fst ⊆ List.range file.length := by
    intro place member
    obtain ⟨_, heads, -⟩ := string.exists_suffix member
    exact List.mem_range.mpr heads.offset_lt
  have := (List.subperm_of_subset string.nodup bounded).length_le
  simpa using this

/-- The forward links of a chain of a store. -/
theorem Image.Holds.forwardChain {img : Image} {slot : Nat}
    {data : List UInt8} {rest : List (Nat × List UInt8)}
    (holds : img.Holds file)
    (leads : Leads stringRecord img.slotOffset img.recs 0
      ((slot, data) :: rest)) :
    ForwardChain file img.schema (img.slotOffset slot)
      (addressed img.slotOffset ((slot, data) :: rest)) := by
  induction rest generalizing slot data with
  | nil =>
      obtain ⟨⟨before, known⟩, -⟩ := leads
      obtain ⟨-, -, fits, here⟩ := holds.record _ _ known
      exact .last ⟨fits, here⟩
  | cons entry rest ih =>
      obtain ⟨⟨before, known⟩, leads⟩ := leads
      obtain ⟨-, -, fits, here⟩ := holds.record _ _ known
      apply ForwardChain.next ⟨fits, here⟩ _ (ih leads)
      have := @Image.slotOffset_pos img entry.1
      simp only [linkTo]
      omega

@[simp]
theorem assemble_addressed (address : Nat → Nat) (realSize : Nat) :
    assemble realSize (addressed address chain) = assemble realSize chain := by
  rw [assemble, assemble, addressed, List.flatMap_map]

/-- Without STRING attributes there is no string to read. -/
theorem Tuples.searchable (store : Tuples file schema)
    (numbers : STRING ∉ schema.types) : Searchable file schema where
  toTuples := store
  strings := by
    intro id offset record position _ _ string
    exact absurd (List.mem_of_getElem? string) numbers

/-- A well-formed store, and a field whose strings are all terminated. -/
theorem WellFormed.stringsAt {img : Image} {nodes : Nat → Option NodeImage}
    {position : Nat} (store : WellFormed img nodes file)
    (ended : ∀ id node chain, nodes id = some node →
      node.fields[position]? = some (.str chain) →
        0 ∈ assemble img.realSize chain) :
    StringsAt file img.schema position := by
  intro id offset record live here string
  obtain ⟨node, found, rfl⟩ := (store.live_iff id offset).mp live
  have nodeAt := store.nodeAt id node found
  obtain ⟨tuple, known, tupleAt⟩ := nodeAt.tuple
  obtain ⟨-, -, fits, there⟩ := store.holds.record _ _ known
  obtain rfl := here.unique ⟨fits, there⟩
  obtain ⟨chain, field⟩ := nodeAt.fieldsAt.field_of_string string
  obtain ⟨nonempty, linked⟩ :=
    nodeAt.fieldsAt.chains chain (List.mem_of_getElem? field)
  obtain ⟨⟨slot, data⟩, rest, rfl⟩ := List.exists_cons_of_ne_nil nonempty
  refine ⟨addressed img.slotOffset ((slot, data) :: rest), ?_, ?_⟩
  · rw [tupleAt.words position _ field]
    exact store.holds.forwardChain linked.leads
  · rw [assemble_addressed]
    exact ended id node _ found field

/-- A well-formed store whose strings are all terminated can be searched. -/
theorem WellFormed.searchable {img : Image}
    {nodes : Nat → Option NodeImage} (store : WellFormed img nodes file)
    (ended : ∀ id node chain, nodes id = some node →
      FieldImage.str chain ∈ node.fields → 0 ∈ assemble img.realSize chain) :
    Searchable file img.schema where
  toTuples := store.apartTuples.toTuples
  strings := by
    intro id offset record position
    apply store.stringsAt
    intro id' node chain found field
    exact ended id' node chain found (List.mem_of_getElem? field)

end Strings

section Readers

variable {world : World} {schema : TreeSchema} {offset fuel : Nat}
  {chain : List (Nat × List UInt8)}

/-- Seeking to the record that heads a string. -/
theorem ForwardChain.wp_seek {post : Unit → World → Prop}
    (string : ForwardChain world.file schema offset chain)
    (small : world.file.length < 2 ^ 63)
    (next : post () { world with pos := offset }) :
    wp (fseekSet (toLong offset)) post world :=
  wp_fseekSet_toLong (string.offset_lt.trans small) next

/-- Reading the header of a record. -/
theorem RecordAt.wp_readHeader {record : KeyNode} {buffer : List UInt8}
    {post : List UInt8 × ReadStatus → World → Prop}
    (here : RecordAt world.file schema offset record)
    (stands : world.pos = offset) (sized : buffer.length = nodeHeadSize)
    (next : ∀ pos, post (record.header.bytes, .success)
      { world with pos := pos }) :
    wp (readFile buffer nodeHeadSize) post world := by
  subst stands
  apply wp_readFile_at (at_append.mp here.here).1 (by simp) (by decide) sized.le
  exact next _

theorem RecordAt.ofBytes_bytes {file : List UInt8} {record : KeyNode}
    (here : RecordAt file schema offset record) :
    NodeHeader.ofBytes record.header.bytes = record.header :=
  NodeHeader.ofBytes_bytes here.fits.parentNode here.fits.allocNode

/-- The loop of `getStringLenght` counts the records behind the first one. -/
theorem ForwardChain.wp_stringLenghtLoop {record : KeyNode} {lenght : Nat}
    {post : Nat → World → Prop}
    (string : ForwardChain world.file schema offset chain)
    (small : world.file.length < 2 ^ 63)
    (here : RecordAt world.file schema offset record)
    (enough : chain.length ≤ fuel)
    (next : ∀ pos, post (lenght + (chain.length - 1))
      { world with pos := pos }) :
    wp (stringLenghtLoop fuel record.header.bytes lenght) post world := by
  obtain ⟨file, fileEq⟩ : ∃ file, file = world.file := ⟨_, rfl⟩
  rw [← fileEq] at string
  induction string generalizing world record fuel lenght with
  | last here' =>
      subst fileEq
      obtain ⟨fuel, rfl⟩ := Nat.exists_eq_add_one_of_ne_zero
        (Nat.ne_of_gt enough)
      obtain rfl := here.unique here'
      rw [stringLenghtLoop, here.ofBytes_bytes, stringRecord, if_pos rfl,
        wp_pure]
      exact next world.pos
  | @next _ before after data rest here' continues string ih =>
      subst fileEq
      obtain ⟨fuel, rfl⟩ := Nat.exists_eq_add_one_of_ne_zero
        (Nat.ne_of_gt (Nat.zero_lt_of_lt enough))
      obtain rfl := here.unique here'
      obtain ⟨follower, there⟩ := string.exists_record
        (show after ∈ rest.map Prod.fst by cases string <;> simp)
      rw [stringLenghtLoop, here.ofBytes_bytes, stringRecord,
        if_neg continues, wp_bind]
      apply string.wp_seek small
      rw [wp_bind]
      apply RecordAt.wp_readHeader (by exact there) rfl (by simp)
      intro pos
      dsimp only
      apply ih (by exact small) (by exact there) _ _ (by rfl)
      · exact Nat.le_of_succ_le_succ enough
      intro pos
      have positive := List.length_pos_iff.mpr string.ne_nil
      have shift : lenght + 1 + (rest.length - 1) =
          lenght + (rest.length + 1 - 1) := by
        omega
      rw [shift]
      exact next pos

theorem ForwardChain.wp_getStringLenght {post : Nat → World → Prop}
    (string : ForwardChain world.file schema offset chain)
    (small : world.file.length < 2 ^ 63) (enough : chain.length ≤ fuel)
    (next : ∀ pos blocks, post chain.length
      { world with pos := pos, blocks := blocks }) :
    wp (getStringLenght fuel offset) post world := by
  obtain ⟨record, here⟩ := string.exists_record
    (show offset ∈ chain.map Prod.fst by cases string <;> simp)
  rw [getStringLenght, wp_bind]
  apply string.wp_seek small
  rw [wp_bind]
  apply wp_malloc
  intro block blocks sized
  rw [wp_bind]
  apply RecordAt.wp_readHeader (by exact here) rfl sized
  intro pos
  dsimp only
  apply ForwardChain.wp_stringLenghtLoop (by exact string) (by exact small)
    (by exact here) enough
  intro pos
  have positive := List.length_pos_iff.mpr string.ne_nil
  rw [Nat.add_sub_cancel' positive]
  exact next pos blocks

/-- What the loop of `readStringFromNode` adds to the block: one record in each
round. -/
theorem ForwardChain.wp_readRecords {rounds : List Nat} {block : List UInt8}
    {post : Nat × List UInt8 → World → Prop}
    (string : ForwardChain world.file schema offset chain)
    (small : world.file.length < 2 ^ 63)
    (counted : rounds.length = chain.length)
    (next : ∀ last pos blocks, post
      (last, block ++ assemble schema.realSize chain)
      { world with pos := pos, blocks := blocks }) :
    wp (rounds.foldlM (fun (offset, string) _ => do
      fseekSet (toLong offset)
      let (tmpNode, _) ← readNode schema.treeMeta.templateSize
      return (tmpNode.header.nextNode,
        string ++ strncpy tmpNode.data
          (getRealNodeSize schema.treeMeta.templateSize))) (offset, block))
      post world := by
  obtain ⟨file, fileEq⟩ : ∃ file, file = world.file := ⟨_, rfl⟩
  rw [← fileEq] at string
  -- the data that is read begins with the data of the record
  have copied {before after : Nat} {data read : List UInt8} {offset : Nat}
      (here : RecordAt file schema offset (stringRecord before after data))
      (started : read.take schema.realSize = data) :
      strncpy read schema.realSize = strncpy data schema.realSize := by
    have sized : data.length = schema.realSize := here.fits.data_length
    apply strncpy_congr _ (Or.inl le_rfl)
    rw [started, List.take_of_length_le sized.le]
  induction string generalizing world rounds block with
  | last here =>
      subst fileEq
      obtain ⟨round, rfl⟩ := List.length_eq_one_iff.mp counted
      rw [List.foldlM_cons, wp_bind, wp_bind]
      apply wp_fseekSet_toLong ((ForwardChain.last here).offset_lt.trans small)
      rw [wp_bind]
      apply RecordAt.wp_readNode (by exact here) rfl rfl
      intro read status pos blocks started _
      rw [wp_pure, List.foldlM_nil, wp_pure]
      have whole := next 0 pos blocks
      rw [assemble, List.flatMap_singleton, ← copied here started] at whole
      exact whole
  | next here continues string ih =>
      subst fileEq
      obtain ⟨round, rounds, rfl⟩ := List.exists_cons_of_length_eq_add_one
        counted
      rw [List.foldlM_cons, wp_bind, wp_bind]
      apply wp_fseekSet_toLong
        ((ForwardChain.next here continues string).offset_lt.trans small)
      rw [wp_bind]
      apply RecordAt.wp_readNode (by exact here) rfl rfl
      intro read status pos blocks started _
      rw [wp_pure]
      apply ih (by exact small) (Nat.succ.inj counted) _ (by rfl)
      intro last pos blocks
      have whole := next last pos blocks
      rw [assemble, List.flatMap_cons, ← copied here started,
        ← List.append_assoc] at whole
      exact whole

/-- Reading a string gives the characters of all its records in order. -/
theorem ForwardChain.wp_readStringFromNode {size : Nat}
    {post : List UInt8 → World → Prop}
    (string : ForwardChain world.file schema offset chain)
    (small : world.file.length < 2 ^ 63) (enough : chain.length ≤ fuel)
    (template : size = schema.treeMeta.templateSize)
    (next : ∀ pos blocks, post (assemble schema.realSize chain)
      { world with pos := pos, blocks := blocks }) :
    wp (readStringFromNode fuel size offset) post world := by
  subst template
  rw [readStringFromNode, wp_bind]
  apply string.wp_getStringLenght small enough
  intro pos blocks
  rw [wp_bind]
  apply ForwardChain.wp_readRecords (by exact string) (by exact small)
    List.length_range
  intro last pos blocks
  rw [wp_pure]
  exact next pos blocks

end Readers

/-- An empty store has no live ids. -/
theorem singleSchema_dead {i offset : Nat}
    (found : (singleSchema INT).root[i]? = some offset) : offset = 0 := by
  have entries : (singleSchema INT).root = List.replicate 34 0 := by decide
  rw [entries] at found
  exact List.eq_of_mem_replicate (List.mem_of_getElem? found)

/-- An empty store can be searched. -/
theorem searchable_single :
    Searchable (singleSchema INT).bytes (singleSchema INT) := by
  have tuples : Tuples (singleSchema INT).bytes (singleSchema INT) := by
    refine ⟨schemaAt_single (by norm_num), ?_, ?_⟩
    · rw [singleSchema_length]
      norm_num
    · intro id offset live
      exact absurd (singleSchema_dead live.entry) live.nonzero
  exact tuples.searchable (by decide)

end TreeStore
