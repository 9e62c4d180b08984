import TreeStore.Initial
import TreeStore.Library.GuardedRuns

/-!
# Runs of the store

A run starts with `initEmptyFile` and calls `addNode`, `updateNode` and
`removeNode` in any order.  Between two calls only the file is kept: the stream
may stand anywhere, and the memory may hold anything.
-/

namespace TreeStore

open ByteFile ProgramLogic LinkedRecords

/-- One call that may change the file. -/
inductive Op
  | add (values : List Slot) (parent : UInt64)
  | update (fieldNumber : Nat) (newValue : CharPtr) (id : Nat)
  | remove (id : Nat)

def Op.exec (fuel : Nat) : Op → Prog CrudStatus
  | .add values parent => addNode values parent
  | .update fieldNumber newValue id => updateNode fuel fieldNumber newValue id
  | .remove id => removeNode fuel id false

/-- The file before and after a call that returns. -/
def Op.Returns (op : Op) (file file' : List UInt8) : Prop :=
  ∃ world fuel status final, world.file = file ∧ file.length ≤ fuel ∧
    (op.exec fuel).run world = .ok (status, final) ∧ final.file = file'

/-- The files that `initEmptyFile` leaves. -/
def Created (specs : List AttributeSpec) (file : List UInt8) : Prop :=
  specs.length < 2 ^ 64 ∧ (∀ spec ∈ specs, spec.Fits) ∧
    file.length < 2 ^ 63 ∧
    ∃ world status final, world.file = [] ∧
      (initEmptyFile specs).run world = .ok (status, final) ∧
      final.file = file

/-- The files that the runs reach whose calls meet the guard. -/
abbrev Reached (specs : List AttributeSpec)
    (guard : Op → List UInt8 → Prop) : List UInt8 → Prop :=
  GuardedRuns.Reached (Created specs) Op.Returns guard

/-- A stream at the start of a file, in memory that is all zero. -/
def blankWorld (file : List UInt8) : World := ⟨file, 0, fun _ _ => 0, 0⟩

/-- What a program does to a file when the memory is all zero. -/
def outcome {α : Type} (program : Prog α) (file : List UInt8) :
    Except Fault (α × List UInt8) :=
  match program.run (blankWorld file) with
  | .ok (result, final) => .ok (result, final.file)
  | .error fault => .error fault

theorem outcome_of_wp {α : Type} {program : Prog α} {file : List UInt8}
    {post : α → List UInt8 → Prop}
    (holds : wp program (fun result final => post result final.file)
      (blankWorld file)) :
    ∃ result file', outcome program file = .ok (result, file') ∧
      post result file' := by
  obtain ⟨result, final, runs, satisfied⟩ := holds
  exact ⟨result, final.file, by rw [outcome, runs], satisfied⟩

theorem Op.returns_of_outcome {op : Op} {file file' : List UInt8}
    {status : CrudStatus}
    (runs : outcome (op.exec file.length) file = .ok (status, file')) :
    op.Returns file file' := by
  rw [outcome] at runs
  cases ran : (op.exec file.length).run (blankWorld file) with
  | error fault =>
      rw [ran] at runs
      cases runs
  | ok pair =>
      obtain ⟨result, final⟩ := pair
      rw [ran] at runs
      cases runs
      exact ⟨blankWorld file, _, _, final, rfl, le_rfl, ran, rfl⟩

/-- The file that a call leaves when the memory is all zero. -/
def Op.fileAfter (op : Op) (file : List UInt8) : List UInt8 :=
  match outcome (op.exec file.length) file with
  | .ok (_, file') => file'
  | .error _ => []

/-- No call leaves an empty file, unless it faults. -/
theorem Op.returns_fileAfter {op : Op} {file : List UInt8}
    (nonempty : op.fileAfter file ≠ []) :
    op.Returns file (op.fileAfter file) := by
  cases ran : outcome (op.exec file.length) file with
  | error fault => simp [Op.fileAfter, ran] at nonempty
  | ok pair =>
      obtain ⟨status, file'⟩ := pair
      have left : op.fileAfter file = file' := by rw [Op.fileAfter, ran]
      rw [left]
      exact Op.returns_of_outcome ran

theorem Op.fileAfter_satisfies {op : Op} {file : List UInt8}
    {post : List UInt8 → Prop}
    (holds : wp (op.exec file.length) (fun _ final => post final.file)
      (blankWorld file)) : post (op.fileAfter file) := by
  obtain ⟨status, file', runs, satisfied⟩ := @outcome_of_wp _
    (op.exec file.length) file (fun _ file' => post file') holds
  rw [Op.fileAfter, runs]
  exact satisfied

/-- The file that `initEmptyFile` leaves when the memory is all zero. -/
def createdFile (specs : List AttributeSpec) : List UInt8 :=
  match outcome (initEmptyFile specs) [] with
  | .ok (_, file) => file
  | .error _ => []

theorem created_createdFile {specs : List AttributeSpec}
    (few : specs.length < 2 ^ 64) (fit : ∀ spec ∈ specs, spec.Fits)
    (small : (createdFile specs).length < 2 ^ 63) :
    Created specs (createdFile specs) := by
  have runs : wp (initEmptyFile specs) (fun _ _ => True) (blankWorld []) :=
    wp_initEmptyFile rfl few fit fun _ _ _ _ _ _ => trivial
  obtain ⟨status, final, ran, -⟩ := runs
  refine ⟨few, fit, small, blankWorld [], status, final, rfl, ran, ?_⟩
  rw [createdFile, outcome, ran]

/-- The file begins with this schema. -/
structure SchemaAt (file : List UInt8) (schema : TreeSchema) : Prop where
  valid : schema.Valid
  here : At file 0 schema.bytes

instance (file : List UInt8) (schema : TreeSchema) :
    Decidable (SchemaAt file schema) :=
  decidable_of_iff (schema.Valid ∧ At file 0 schema.bytes)
    ⟨fun ⟨valid, here⟩ => ⟨valid, here⟩, fun ⟨valid, here⟩ => ⟨valid, here⟩⟩

/-- The schema that `readTreeSchema` delivers when the memory is all zero. -/
def schemaOf (file : List UInt8) : TreeSchema :=
  match outcome readTreeSchema file with
  | .ok ((schema, _), _) => schema
  | .error _ => emptySchema []

namespace TreeSchema

variable (schema : TreeSchema)

abbrev types : List Nat := schema.nodesTemplate.map (·.type)

abbrev realSize : Nat := getRealNodeSize schema.treeMeta.templateSize

abbrev recordSize : Nat := schema.realSize + nodeHeadSize

/-- The end of the id array, where the records begin. -/
abbrev arrayEnd : Nat := schema.bytes.length

end TreeSchema

/-- An attribute named `n`, for stores with one attribute. -/
def singleSpec (type : Nat) (typeFits : type < 2 ^ 32) : AttributeSpec where
  name := [110, 0]
  type := type
  attrSize := 2
  type_lt := typeFits

theorem singleSpec_fits {type : Nat} (typeFits : type < 2 ^ 32) :
    (singleSpec type typeFits).Fits :=
  ⟨Nat.succ_pos 1, show 2 + fileGranularity ≤ 2 ^ 32 by decide⟩

/-- The schema of an empty store with one attribute. -/
def singleSchema (type : Nat) : TreeSchema :=
  emptySchema [{ size := 4, type := type, attributeName := [110, 0, 0, 0] }]

theorem schemaAt_single {type : Nat} (typeFits : type < 2 ^ 32) :
    SchemaAt (singleSchema type).bytes (singleSchema type) where
  valid := emptySchema_valid (by
    intro info member
    obtain rfl := List.mem_singleton.mp member
    exact ⟨Nat.succ_pos _, by norm_num, typeFits, rfl⟩) (by norm_num)
  here := at_iff.mpr fun index _ => by rw [zero_add]

theorem singleSchema_length (type : Nat) :
    (singleSchema type).bytes.length = 332 := by
  have entries : getIdArraySize 1 0 = 34 := by decide
  simp [singleSchema, emptySchema, createEmptyTreeMeta,
    TreeSchema.bytes_length, templateBytes, NodeAttributeInfo.bytes, entries]

theorem number_lt : INT < 2 ^ 32 := by norm_num

theorem string_lt : STRING < 2 ^ 32 := by norm_num

theorem createdFile_number :
    createdFile [singleSpec INT number_lt] = (singleSchema INT).bytes := by
  decide +kernel

theorem createdFile_string :
    createdFile [singleSpec STRING string_lt] =
      (singleSchema STRING).bytes := by
  decide +kernel

/-- Every run may begin with the file of a store with one attribute. -/
theorem reached_single {type : Nat} {typeFits : type < 2 ^ 32}
    (guard : Op → List UInt8 → Prop)
    (created : createdFile [singleSpec type typeFits] =
      (singleSchema type).bytes) :
    Reached [singleSpec type typeFits] guard (singleSchema type).bytes := by
  rw [← created]
  refine .initial (created_createdFile (by simp)
    (by simp [singleSpec_fits]) ?_)
  rw [created, singleSchema_length]
  norm_num

/-- The record at `offset`. -/
structure RecordAt (file : List UInt8) (schema : TreeSchema) (offset : Nat)
    (record : KeyNode) : Prop where
  fits : record.Fits schema.realSize
  here : At file offset record.bytes

/-- A file has only one schema. -/
theorem SchemaAt.unique {file : List UInt8} {schema schema' : TreeSchema}
    (first : SchemaAt file schema) (second : SchemaAt file schema') :
    schema = schema' := by
  have reads {other : TreeSchema} (stored : SchemaAt file other) :
      wp readTreeSchema (fun result _ => result = (other, .success))
        ⟨file, 0, fun _ _ => 0, 0⟩ :=
    wp_readTreeSchema stored.valid stored.here fun _ => rfl
  obtain ⟨_, _, -, same, same'⟩ := wp_and (reads first) (reads second)
  exact congrArg Prod.fst (same.symm.trans same')

theorem SchemaAt.outcome {file : List UInt8} {schema : TreeSchema}
    (stored : SchemaAt file schema) :
    outcome readTreeSchema file = .ok ((schema, .success), file) := by
  obtain ⟨result, file', runs, rfl, rfl⟩ := @outcome_of_wp _ readTreeSchema file
    (fun result file' => result = (schema, .success) ∧ file' = file)
    (wp_readTreeSchema stored.valid stored.here fun _ => ⟨rfl, rfl⟩)
  exact runs

/-- A word of a record is a word of the file. -/
theorem RecordAt.word_eq {file : List UInt8} {schema : TreeSchema}
    {offset position : Nat} {record : KeyNode}
    (stored : RecordAt file schema offset record)
    (inside : 8 * position + 8 ≤ schema.realSize) :
    record.word position =
      leValue (readAt file (offset + nodeHeadSize + 8 * position) 8) := by
  have dataHere := (at_append.mp stored.here).2
  rw [NodeHeader.bytes_length, At, stored.fits.data_length] at dataHere
  rw [KeyNode.word, ← dataHere, readAt, readAt, readAt, List.drop_take,
    List.drop_drop, List.take_take, Nat.min_eq_left (by omega)]

/-- A call whose weakest precondition is known returns what it promises. -/
theorem Op.Returns.satisfies {op : Op} {file file' : List UInt8}
    {post : List UInt8 → Prop} (returns : op.Returns file file')
    (holds : ∀ world fuel, world.file = file → file.length ≤ fuel →
      wp (op.exec fuel) (fun _ final => post final.file) world) :
    post file' := by
  obtain ⟨world, fuel, status, final, same, enough, runs, rfl⟩ := returns
  exact wp_of_run (holds world fuel same enough) runs

/-- The values that `addNode` can store in this file: each string is
terminated and not empty, the first one takes one record unless the id array
ends the file, and growth meets no inner record of a string. -/
structure AddFits (file : List UInt8) (schema : TreeSchema)
    (values : List Slot) : Prop where
  storable : Storable schema.types schema.realSize schema.arrayEnd file.length
    values
  movable : idUnit schema.treeMeta.templateSize ∣ schema.treeMeta.curId + 1 →
    ∀ record, RecordAt file schema schema.arrayEnd record →
      Movable schema schema.arrayEnd record
  room : file.length + schema.recordSize *
    (addRecords schema.types schema.realSize values + 1) < 2 ^ 63

/-- The chain of string records from `offset` on has `count` of them. -/
def Follows (file : List UInt8) (schema : TreeSchema) : Nat → Nat → Prop
  | 0, _ => True
  | count + 1, offset => offset ≠ 0 ∧ ∃ record,
      RecordAt file schema offset record ∧
        Follows file schema count record.header.nextNode

/-- The new values that `updateNode` can store: the id is live, the field is
one of the template, and a string fills some of the records that hold the old
one. -/
structure UpdateFits (file : List UInt8) (schema : TreeSchema)
    (fieldNumber : Nat) (newValue : CharPtr) (id : Nat) : Prop where
  live : id < schema.treeMeta.curId
  field : fieldNumber < schema.types.length
  string : schema.types[fieldNumber]? = some STRING → 0 ∈ newValue ∧
    ∃ offset record count, schema.root[id]? = some offset ∧
      RecordAt file schema offset record ∧ 0 < count ∧
      (textOf newValue).length = schema.realSize * count ∧
      Follows file schema count (record.word fieldNumber)

theorem RecordAt.bytes_length {file : List UInt8} {schema : TreeSchema}
    {offset : Nat} {record : KeyNode}
    (stored : RecordAt file schema offset record) :
    record.bytes.length = schema.recordSize := by
  rw [KeyNode.bytes, List.length_append, NodeHeader.bytes_length,
    stored.fits.data_length, Nat.add_comm]

/-- The file has all bytes of a record. -/
theorem RecordAt.length_le {file : List UInt8} {schema : TreeSchema}
    {offset : Nat} {record : KeyNode}
    (stored : RecordAt file schema offset record) :
    offset + schema.recordSize ≤ file.length := by
  have nonempty : record.bytes ≠ [] := by
    apply List.ne_nil_of_length_pos
    rw [stored.bytes_length]
    exact Nat.lt_of_lt_of_le (by decide) (Nat.le_add_left _ _)
  rw [← stored.bytes_length]
  exact stored.here.length_le nonempty

/-- A record is known by its place. -/
theorem RecordAt.unique {file : List UInt8} {schema : TreeSchema}
    {offset : Nat} {record record' : KeyNode}
    (first : RecordAt file schema offset record)
    (second : RecordAt file schema offset record') : record = record' := by
  have same : record.bytes = record'.bytes := by
    rw [← first.here.readAt_eq rfl, ← second.here.readAt_eq rfl,
      first.bytes_length, second.bytes_length]
  obtain ⟨headerEq, dataEq⟩ := List.append_inj same (by simp)
  have header : record.header = record'.header := by
    rw [← NodeHeader.ofBytes_bytes first.fits.parentNode first.fits.allocNode,
      headerEq,
      NodeHeader.ofBytes_bytes second.fits.parentNode second.fits.allocNode]
  cases record
  cases record'
  exact congrArg₂ KeyNode.mk header dataEq

section Healthy

variable {img : Image} {nodes : List NodeImage} {file : List UInt8}

theorem StoreAt.schemaAt (store : StoreAt img nodes file) :
    SchemaAt file img.schema :=
  ⟨store.holds.valid, store.holds.schemaHere⟩

theorem StoreAt.exists_node (store : StoreAt img nodes file) {id : Nat}
    (small : id < img.curId) : ∃ node, nodes[id]? = some node :=
  ⟨_, List.getElem?_eq_getElem (store.count ▸ small)⟩

theorem StoreAt.schema_eq {schema : TreeSchema}
    (store : StoreAt img nodes file) (stored : SchemaAt file schema) :
    schema = img.schema :=
  stored.unique store.schemaAt

theorem StoreAt.recordAt {slot : Nat} {record : KeyNode}
    (store : StoreAt img nodes file) (known : img.recs slot = some record) :
    RecordAt file img.schema (img.slotOffset slot) record := by
  obtain ⟨-, -, fits, here⟩ := store.holds.record _ _ known
  exact ⟨fits, here⟩

theorem StoreAt.arrayEnd_eq (store : StoreAt img nodes file) :
    img.schema.arrayEnd = img.slotOffset img.capacity :=
  img.schema_length store.holds.valid

/-- The file of a healthy store has a byte for every record. -/
theorem StoreAt.top_le_length (store : StoreAt img nodes file) :
    img.top ≤ file.length :=
  store.holds.top_le_length

/-- The store that an addition leaves. -/
def Added (img : Image) (nodes : List NodeImage) (values : List Slot)
    (parent : UInt64) (file : List UInt8) : Prop :=
  ∃ node target root top recs, node.parent = parent.toNat ∧
    (∀ (position : Nat) (field : FieldImage) (value : Slot),
      node.fields[position]? = some field → values[position]? = some value →
        field.Stores img.realSize value) ∧
    StoreAt ⟨img.schema.counted root, top, recs⟩
      (addedNodes img target nodes node) file

/-- An addition that fits succeeds. -/
theorem StoreAt.add {world : World} {values : List Slot} {parent : UInt64}
    (store : StoreAt img nodes world.file)
    (fits : AddFits world.file img.schema values) :
    wp (addNode values parent) (fun status final =>
      status = .success ∧ Added img nodes values parent final.file) world := by
  have storable := fits.storable
  rw [store.arrayEnd_eq] at storable
  refine store.wp_addNode storable fits.room ?_ ?_
  · intro grows record known
    have capacity := (idRecords_of_grows _ _ grows).1
    have here := store.recordAt known
    have reserved : img.slotOffset img.reserved = img.schema.arrayEnd := by
      rw [store.arrayEnd_eq]
      exact congrArg img.slotOffset capacity.symm
    rw [reserved] at here ⊢
    exact fits.movable grows record here
  · intro node target root top recs file pos blocks parentEq stores added
    exact ⟨rfl, node, target, root, top, recs, parentEq, stores, added⟩

/-- A chain of the store has the records that can be followed in the file. -/
theorem StoreAt.follows_le (store : StoreAt img nodes file) {before : Nat}
    {chain : List (Nat × List UInt8)} {count : Nat}
    (linked : Chain stringRecord img.slotOffset img.recs before chain)
    (follows : Follows file img.schema count (link img.slotOffset chain)) :
    count ≤ chain.length := by
  induction chain generalizing before count with
  | nil =>
      cases count with
      | zero => exact le_rfl
      | succ count => exact absurd rfl follows.1
  | cons entry rest ih =>
      cases count with
      | zero => exact Nat.zero_le _
      | succ count =>
          obtain ⟨slot, data⟩ := entry
          obtain ⟨known, tail⟩ := linked
          obtain ⟨-, record, here, later⟩ := follows
          obtain rfl := here.unique (store.recordAt known)
          exact Nat.succ_le_succ (ih tail later)

/-- The store that an update leaves. -/
def Updated (img : Image) (nodes : List NodeImage) (fieldNumber : Nat)
    (newValue : CharPtr) (id : Nat) (file : List UInt8) : Prop :=
  ∃ node field field' recs, nodes[id]? = some node ∧
    node.fields[fieldNumber]? = some field ∧
    field.Updated img.realSize newValue field' ∧
    StoreAt { img with recs := recs }
      (nodes.set id (node.setField fieldNumber field')) file

/-- The field that an update which fits is about. -/
theorem StoreAt.takes {fieldNumber id : Nat} {newValue : CharPtr}
    (store : StoreAt img nodes file)
    (fits : UpdateFits file img.schema fieldNumber newValue id) :
    ∃ node field, nodes[id]? = some node ∧ node.fields[fieldNumber]? = some field ∧
      field.Takes img.realSize newValue := by
  have inside : id < nodes.length := by
    rw [store.count]
    exact fits.live
  have found := List.getElem?_eq_getElem inside
  have nodeAt := store.layout.nodeAt id _ found
  obtain ⟨record, known, tupleAt⟩ := nodeAt.tuple
  have fieldInside : fieldNumber < nodes[id].fields.length := by
    rw [nodeAt.fieldsAt.count]
    exact fits.field
  have fieldFound := List.getElem?_eq_getElem fieldInside
  refine ⟨_, _, found, fieldFound, ?_⟩
  cases fieldEq : nodes[id].fields[fieldNumber] with
  | num word => trivial
  | str chain =>
      rw [fieldEq] at fieldFound
      have string := (nodeAt.fieldsAt.typed _ _ fieldFound).mpr ⟨_, rfl⟩
      obtain ⟨terminated, offset, record', count, entry, here, positive,
        filled, follows⟩ := fits.string string
      rw [store.root id _ found] at entry
      cases entry
      obtain rfl := here.unique (store.recordAt known)
      rw [tupleAt.words _ _ fieldFound] at follows
      have linked :=
        (nodeAt.fieldsAt.chains chain (List.mem_of_getElem? fieldFound)).2
      exact ⟨terminated, count, positive, store.follows_le linked follows,
        filled⟩

/-- An update that fits succeeds. -/
theorem StoreAt.update_fits {world : World} {fuel fieldNumber id : Nat}
    {newValue : CharPtr} (store : StoreAt img nodes world.file)
    (fits : UpdateFits world.file img.schema fieldNumber newValue id)
    (enough : world.file.length ≤ fuel) :
    wp (updateNode fuel fieldNumber newValue id) (fun status final =>
      status = .success ∧
        Updated img nodes fieldNumber newValue id final.file) world := by
  obtain ⟨node, field, found, fieldFound, takes⟩ := store.takes fits
  refine store.wp_updateNode found fieldFound takes
    (store.top_le_length.trans enough) ?_
  intro field' recs file pos blocks updated store'
  exact ⟨rfl, node, field, field', recs, found, fieldFound, updated, store'⟩

end Healthy

end TreeStore
