import TreeStore.Keeping

/-!
# The chains of the strings

In a run of additions and updates that fit, every STRING field heads a chain of
records of its own, so the loops that follow `nextNode` come to an end.
-/

namespace TreeStore

open ByteFile ProgramLogic LinkedRecords

/-- The records of a file, by offset. -/
def recordsOf (file : List UInt8) (schema : TreeSchema) (offset : Nat) :
    Option KeyNode :=
  if offset + schema.recordSize ≤ file.length then
    some ⟨NodeHeader.ofBytes (readAt file offset nodeHeadSize),
      readAt file (offset + nodeHeadSize) schema.realSize⟩
  else none

/-- The STRING field `position` of the tuple at `offset` holds the offset of the
first record of `chain`.  Each record points back to the one before it, the
first one to the tuple; each points on to the next one, the last one nowhere;
and no record occurs twice. -/
structure StringAt (file : List UInt8) (schema : TreeSchema)
    (offset position : Nat) (chain : List (Nat × List UInt8)) : Prop where
  nonempty : chain ≠ []
  field : ∃ tuple, RecordAt file schema offset tuple ∧
    tuple.word position = link (fun place => place) chain
  linked : Chain stringRecord (fun place => place) (recordsOf file schema)
    offset chain
  distinct : (chain.map Prod.fst).Nodup

/-- The readers of a string starting at `head` come to an end. -/
def Readable (file : List UInt8) (schema : TreeSchema) (head : Nat) : Prop :=
  ∀ world fuel, world.file = file → file.length ≤ fuel →
    wp (getStringLenght fuel head) (fun _ final => final.file = file) world ∧
    wp (readStringFromNode fuel schema.treeMeta.templateSize head)
      (fun _ final => final.file = file) world

/-- Every STRING field of every live node heads a chain of its own. -/
structure StringsPrivate (file : List UInt8) (schema : TreeSchema)
    (chains : Nat → Nat → List (Nat × List UInt8)) : Prop where
  string : ∀ id offset position, LiveAt schema id offset →
    schema.types[position]? = some STRING →
      StringAt file schema offset position (chains id position) ∧
      Readable file schema (link (fun place => place) (chains id position))
  noTuple : ∀ id offset position other otherOffset, LiveAt schema id offset →
    schema.types[position]? = some STRING →
      LiveAt schema other otherOffset →
        otherOffset ∉ (chains id position).map Prod.fst
  disjoint : ∀ id offset position other otherOffset otherPosition,
    LiveAt schema id offset → schema.types[position]? = some STRING →
    LiveAt schema other otherOffset →
    schema.types[otherPosition]? = some STRING →
      (id, position) ≠ (other, otherPosition) →
        List.Disjoint ((chains id position).map Prod.fst)
          ((chains other otherPosition).map Prod.fst)

/-- The strings of a file are private, finite and well linked. -/
def ChainsWell (file : List UInt8) : Prop :=
  ∃ schema chains, SchemaAt file schema ∧ StringsPrivate file schema chains

section Store

variable {img : Image} {nodes : List NodeImage} {file : List UInt8}

theorem RecordAt.recordsOf_eq {schema : TreeSchema} {offset : Nat}
    {record : KeyNode} (here : RecordAt file schema offset record) :
    recordsOf file schema offset = some record := by
  have nonempty : record.bytes ≠ [] := by
    refine List.ne_nil_of_length_pos ?_
    rw [here.bytes_length]
    exact Nat.add_pos_right _ (by decide)
  have inside := here.here.length_le nonempty
  rw [here.bytes_length] at inside
  obtain ⟨headerHere, dataHere⟩ := at_append.mp here.here
  rw [NodeHeader.bytes_length] at dataHere
  rw [recordsOf, if_pos inside, headerHere.readAt_eq (by simp),
    dataHere.readAt_eq here.fits.data_length.symm,
    NodeHeader.ofBytes_bytes here.fits.parentNode here.fits.allocNode]

/-- The chain of a field, by offsets. -/
def chainsOf (img : Image) (nodes : List NodeImage) (id position : Nat) :
    List (Nat × List UInt8) :=
  match nodes[id]? with
  | none => []
  | some node =>
      match node.fields[position]? with
      | some (.str chain) => addressed img.slotOffset chain
      | _ => []

theorem chainsOf_eq {id position : Nat} {node : NodeImage}
    {chain : List (Nat × List UInt8)} (found : nodes[id]? = some node)
    (field : node.fields[position]? = some (.str chain)) :
    chainsOf img nodes id position = addressed img.slotOffset chain := by
  rw [chainsOf, found]
  dsimp only
  rw [field]

theorem StoreAt.owned_chain (store : StoreAt img nodes file)
    {id offset position : Nat} (live : LiveAt img.schema id offset)
    (string : img.schema.types[position]? = some STRING) :
    ∃ node chain, nodes[id]? = some node ∧
      offset = img.slotOffset node.slot ∧
      node.fields[position]? = some (.str chain) := by
  obtain ⟨node, found, rfl⟩ := store.node_of_live live
  obtain ⟨chain, field⟩ :=
    (store.layout.nodeAt id node found).fieldsAt.field_of_string string
  exact ⟨node, chain, found, rfl, field⟩

/-- The strings of a healthy store are private, finite and well linked. -/
theorem StoreAt.stringsPrivate (store : StoreAt img nodes file) :
    StringsPrivate file img.schema (chainsOf img nodes) := by
  refine ⟨?_, ?_, ?_⟩
  · intro id offset position live string
    obtain ⟨node, chain, found, rfl, field⟩ := store.owned_chain live string
    rw [chainsOf_eq found field]
    have nodeAt := store.layout.nodeAt id node found
    have chainMember := List.mem_of_getElem? field
    obtain ⟨tuple, known, tupleAt⟩ := nodeAt.tuple
    obtain ⟨nonempty, linked⟩ := nodeAt.fieldsAt.chains chain chainMember
    have short := (store.liveNode found).chain_length_le chainMember
    refine ⟨⟨?_, ⟨tuple, store.recordAt known, ?_⟩, ?_, ?_⟩, ?_⟩
    · simpa [addressed] using nonempty
    · rw [link_addressed]
      exact tupleAt.words position _ field
    · refine linked.addressed fun slot inside => ?_
      obtain ⟨⟨_, data⟩, entry, rfl⟩ := List.mem_map.mp inside
      obtain ⟨before, after, here, -⟩ := linked.exists_cell entry
      rw [here]
      exact (store.recordAt here).recordsOf_eq
    · rw [addressed_slots]
      have fieldsNodup :=
        (List.nodup_append.mp (store.liveNode found).nodup).1
      exact ((List.nodup_flatMap.mp fieldsNodup).1 _ chainMember).map
        fun _ _ same => img.slotOffset_inj.mp same
    · rintro world fuel rfl enough
      rw [link_addressed]
      have bounded := (short.trans store.top_le_length).trans enough
      exact ⟨store.holds.wp_getStringLenght linked.leads nonempty bounded
          fun _ _ => rfl,
        store.holds.wp_readStringFromNode linked.leads nonempty bounded
          fun _ _ => rfl⟩
  · intro id offset position other otherOffset live string otherLive inside
    obtain ⟨node, chain, found, rfl, field⟩ := store.owned_chain live string
    obtain ⟨node', found', rfl⟩ := store.node_of_live otherLive
    rw [chainsOf_eq found field, addressed_slots] at inside
    obtain ⟨slot, member, same⟩ := List.mem_map.mp inside
    obtain rfl := img.slotOffset_inj.mp same
    have strings := NodeImage.chain_slots_subset (List.mem_of_getElem? field)
      member
    obtain rfl := store.layout.owner_unique found found'
      (List.mem_append_left _ strings) (by simp [NodeImage.slots])
    rw [found] at found'
    cases found'
    exact (List.nodup_append.mp (store.layout.node_nodup
      (List.mem_of_getElem? found))).2.2 _ strings _ (by simp) rfl
  · intro id offset position other otherOffset otherPosition live string
      otherLive otherString different
    obtain ⟨node, chain, found, rfl, field⟩ := store.owned_chain live string
    obtain ⟨node', chain', found', rfl, field'⟩ :=
      store.owned_chain otherLive otherString
    rw [chainsOf_eq found field, chainsOf_eq found' field', addressed_slots,
      addressed_slots]
    refine List.disjoint_left.mpr fun place inside inside' => ?_
    obtain ⟨slot, member, rfl⟩ := List.mem_map.mp inside
    obtain ⟨slot', member', same⟩ := List.mem_map.mp inside'
    obtain rfl := img.slotOffset_inj.mp same
    have strings := NodeImage.chain_slots_subset (List.mem_of_getElem? field)
      member
    have strings' := NodeImage.chain_slots_subset
      (List.mem_of_getElem? field') member'
    obtain rfl := store.layout.owner_unique found found'
      (List.mem_append_left _ strings) (List.mem_append_left _ strings')
    rw [found] at found'
    cases found'
    have positions : position ≠ otherPosition := by
      rintro rfl
      exact different rfl
    exact slots_disjoint (List.nodup_append.mp (store.layout.node_nodup
      (List.mem_of_getElem? found))).1 positions field field' member member'

theorem StoreAt.chainsWell (store : StoreAt img nodes file) :
    ChainsWell file :=
  ⟨img.schema, chainsOf img nodes, store.schemaAt, store.stringsPrivate⟩

end Store

/-- In a run of additions and updates that fit, the strings stay private,
finite and well linked. -/
theorem strings_private {specs : List AttributeSpec} {file : List UInt8}
    (reached : Reached specs (CallsFit fun _ _ _ => False) file) :
    ChainsWell file := by
  obtain ⟨img, nodes, store, -⟩ := healthy_of_calls
    (reached.mono fun op file allowed => allowed.weaken fun _ _ _ => False.elim)
  exact store.chainsWell

section Letters

/-- A text of one letter. -/
def letters (letter : UInt8) (count : Nat) : CharPtr :=
  List.replicate count letter ++ [0]

variable {letter : UInt8} {count : Nat}

theorem textOf_letters (some_letter : letter ≠ 0) :
    textOf (letters letter count) = List.replicate count letter := by
  refine textOf_append_zero (fun member => ?_) []
  exact some_letter (List.eq_of_mem_replicate member).symm

theorem letters_terminated : 0 ∈ letters letter count :=
  List.mem_append_right _ (List.mem_singleton_self 0)

/-- A store with one string, of three hundred letters. -/
def longString : List UInt8 :=
  Op.fileAfter (.add [⟨0, letters 97 300⟩] 0) (singleSchema STRING).bytes

theorem longString_length : longString.length = 1148 := by
  decide +kernel

/-- The string takes two records. -/
theorem longString_stored : ∃ (img : Image) (nodes : List NodeImage)
      (id : Nat) (node : NodeImage) (chain : List (Nat × List UInt8)),
    StoreAt img nodes longString ∧ nodes[id]? = some node ∧
    FieldImage.str chain ∈ node.fields ∧
    img.schema.nodesTemplate = (singleSchema STRING).nodesTemplate ∧
    img.realSize = 256 ∧
    Spells 256 (List.replicate 300 97) (chain.map Prod.snd) := by
  have text : textOf (letters 97 300) = List.replicate 300 97 :=
    textOf_letters (by decide)
  obtain ⟨img, nodes, store, -⟩ := healthy_of_calls
    (reached_single (CallsFit RemoveFits) createdFile_string)
  have schemaEq := (store.schema_eq (schemaAt_single (by norm_num))).symm
  have fits : AddFits (singleSchema STRING).bytes img.schema
      [⟨0, letters 97 300⟩] := by
    rw [schemaEq]
    refine addFits_text rfl letters_terminated ?_ (Or.inr rfl) (by decide)
      (by decide +kernel)
    rw [text]
    exact List.cons_ne_nil _ _
  have added : Added img nodes [⟨0, letters 97 300⟩] 0 longString :=
    @Op.fileAfter_satisfies (.add [⟨0, letters 97 300⟩] 0) _ _
      (wp_mono (@StoreAt.add _ _ (blankWorld _) _ 0 store fits)
        fun _ _ both => both.2)
  obtain ⟨node, target, root, top, recs, -, stores, store'⟩ := added
  have found : (addedNodes img target nodes node)[img.curId]? = some node :=
    addedNodes_new store.count
  have fieldsAt := (store'.liveNode found).nodeAt.fieldsAt
  obtain ⟨chain, field⟩ := fieldsAt.field_of_string
    (show img.types[0]? = some STRING by
      rw [Image.types, schemaEq]
      decide)
  have size : img.realSize = 256 := by
    rw [Image.realSize, Image.templateSize, schemaEq]
    decide
  have spells : Spells img.realSize (textOf (letters 97 300))
      (chain.map Prod.snd) := stores 0 _ _ field rfl
  rw [size, text] at spells
  exact ⟨_, _, _, node, chain, store', found, List.mem_of_getElem? field,
    by rw [← schemaEq]; rfl, size, spells⟩

end Letters

theorem strings_private_letter :
    wp (addNode [⟨0, [65, 0]⟩] 0) (fun _ final => ChainsWell final.file)
      (blankWorld (singleSchema STRING).bytes) := by
  have reached := reached_single (CallsFit fun _ _ _ => False)
    createdFile_string
  have stored : SchemaAt (singleSchema STRING).bytes (singleSchema STRING) :=
    schemaAt_single (by norm_num)
  have healthy := healthy_of_calls
    (reached_single (CallsFit RemoveFits) createdFile_string)
  obtain ⟨final, runs⟩ := @Healthy.add (blankWorld (singleSchema STRING).bytes)
    _ _ 0 healthy stored addFits_letter
  refine ⟨.success, final, runs, strings_private
    (.next (.add [⟨0, [65, 0]⟩] 0) reached ?_ ?_)⟩
  · exact ⟨_, stored, addFits_letter⟩
  · exact ⟨blankWorld _, _, _, final, rfl, le_rfl, runs, rfl⟩

/-- Calls that a caller may make: values of the right kind, and updates of the
fields of live ids. -/
def EditsProper : Op → List UInt8 → Prop
  | .add values _, file =>
      ∃ schema, SchemaAt file schema ∧ ProperValues schema values
  | .update fieldNumber newValue id, file =>
      ∃ schema offset, SchemaAt file schema ∧ LiveAt schema id offset ∧
        fieldNumber < schema.types.length ∧
        (schema.types[fieldNumber]? = some STRING → 0 ∈ newValue)
  | .remove .., _ => False

/-- An empty string has no record: its field is the offset of its own tuple. -/
theorem strings_not_private :
    ¬ ∀ (specs : List AttributeSpec) (file : List UInt8),
      Reached specs EditsProper file → ChainsWell file := by
  intro always
  have reached := reached_single EditsProper createdFile_string
  have proper : ProperValues (singleSchema STRING) [⟨0, [0]⟩] := by
    refine ⟨by decide, fun position value _ given => ?_⟩
    obtain rfl := List.mem_singleton.mp (List.mem_of_getElem? given)
    simp
  have evaluated : (schemaOf oneEmpty).treeMeta.curId = 1 ∧
      (schemaOf oneEmpty).root[0]? = some 332 ∧
      (schemaOf oneEmpty).types[0]? = some STRING ∧
      leValue (readAt oneEmpty 348 8) = 332 ∧ oneEmpty ≠ [] := by
    decide +kernel
  obtain ⟨counter, entry, string, word, left⟩ := evaluated
  have after : Reached [singleSpec STRING string_lt] EditsProper oneEmpty :=
    .next (.add [⟨0, [0]⟩] 0) reached ⟨_, schemaAt_single (by norm_num), proper⟩
      (Op.returns_fileAfter left)
  obtain ⟨schema, chains, stored, strings⟩ := always _ _ after
  have same : schemaOf oneEmpty = schema := by rw [schemaOf, stored.outcome]
  rw [same] at counter entry string
  have live : LiveAt schema 0 332 := ⟨by omega, entry, by decide⟩
  obtain ⟨⟨nonempty, ⟨tuple, here, field⟩, -, -⟩, -⟩ :=
    strings.string 0 332 0 live string
  have size := getRealNodeSize_ge schema.treeMeta.templateSize
  rw [here.word_eq (by simp only [TreeSchema.realSize]; omega)] at field
  obtain ⟨⟨place, data⟩, rest, chainEq⟩ :=
    List.exists_cons_of_ne_nil nonempty
  refine strings.noTuple 0 332 0 0 332 live string live ?_
  rw [chainEq] at field ⊢
  have first : place = 332 := field.symm.trans word
  simp [first]

end TreeStore
