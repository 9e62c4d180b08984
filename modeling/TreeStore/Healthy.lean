import TreeStore.Removing

/-!
# Runs that stay healthy

A run stays healthy when each call fits the file it finds.  This file gives the
guards and the invariant of such runs.
-/

namespace TreeStore

open ByteFile ProgramLogic LinkedRecords

/-- The call removes the only node of a store whose template has no STRING
attribute. -/
structure RemovesNumbers (schema : TreeSchema) (id : Nat) : Prop where
  only : schema.treeMeta.curId = 1
  first : id = 0
  numbers : ∀ position : Nat, schema.types[position]? ≠ some STRING

/-- The call removes the only node of a store with one STRING attribute, whose
string takes the record behind the id array; and the bytes of the schema that
`swapNode` then takes for the field of a tuple do not hold the offset of that
record. -/
structure RemovesString (file : List UInt8) (schema : TreeSchema) (id : Nat) :
    Prop where
  only : schema.treeMeta.curId = 1
  first : id = 0
  string : ∃ (position offset : Nat) (tuple head : KeyNode),
    (∀ other : Nat, schema.types[other]? = some STRING ↔ other = position) ∧
    schema.root[0]? = some offset ∧ RecordAt file schema offset tuple ∧
    tuple.word position = schema.arrayEnd ∧
    RecordAt file schema schema.arrayEnd head ∧ head.header.nextNode = 0 ∧
    leValue (readAt schema.cleared.bytes (nodeHeadSize + 8 * position) 8) ≠
      schema.arrayEnd

/-- The removals after which no record is missing. -/
def RemoveFits (file : List UInt8) (schema : TreeSchema) (id : Nat) : Prop :=
  schema.root[id]? = some 0 ∨ RemovesNumbers schema id ∨
    RemovesString file schema id

/-- Every call fits the file, and every removal is one of these. -/
def CallsFit (removal : List UInt8 → TreeSchema → Nat → Prop) :
    Op → List UInt8 → Prop
  | .add values _, file =>
      ∃ schema, SchemaAt file schema ∧ AddFits file schema values
  | .update fieldNumber newValue id, file =>
      ∃ schema, SchemaAt file schema ∧
        UpdateFits file schema fieldNumber newValue id
  | .remove id, file => ∃ schema, SchemaAt file schema ∧ removal file schema id

theorem CallsFit.weaken {removal removal' : List UInt8 → TreeSchema → Nat → Prop}
    {op : Op} {file : List UInt8} (allowed : CallsFit removal op file)
    (weaker : ∀ file schema id, removal file schema id →
      removal' file schema id) : CallsFit removal' op file := by
  cases op with
  | add => exact allowed
  | update => exact allowed
  | remove id =>
      obtain ⟨schema, stored, fits⟩ := allowed
      exact ⟨schema, stored, weaker _ _ _ fits⟩

/-- A run may only add, and only values that fit. -/
def AddsFit : Op → List UInt8 → Prop
  | .add values _, file =>
      ∃ schema, SchemaAt file schema ∧ AddFits file schema values
  | .update .., _ => False
  | .remove .., _ => False

/-- A file that holds a healthy store. -/
def Healthy (file : List UInt8) : Prop :=
  ∃ img nodes, StoreAt img nodes file ∧ img.schema.treeMeta.rootOffset = 0

section Removal

variable {img : Image} {nodes : List NodeImage} {world : World}
  {fuel id : Nat}

theorem StoreAt.length_ge (store : StoreAt img nodes world.file) :
    272 ≤ world.file.length := by
  have one : 1 ≤ img.top :=
    le_trans (show 1 ≤ img.capacity from idRecords_pos _ _)
      store.holds.capacity_le
  have first := img.slotOffset_mono one
  have start : img.slotOffset 1 = img.dataStart + img.recordSize := by
    rw [Image.slotOffset, Nat.mul_one]
  have := img.recordSize_ge
  rw [store.holds.length_eq]
  omega

/-- A removal that is refused leaves the file as it is. -/
theorem StoreAt.remove_refused (store : StoreAt img nodes world.file)
    (refused : img.schema.root[id]? = some 0)
    (enough : world.file.length ≤ fuel) :
    wp (removeNode fuel id false) (fun status final =>
      status = .fail ∧ final.file = world.file) world := by
  have := store.length_ge
  obtain ⟨fuel, rfl⟩ := Nat.exists_eq_add_of_le' (show 1 ≤ fuel by omega)
  exact store.holds.wp_removeNode_absent refused fun _ _ => ⟨rfl, rfl⟩

/-- Removing the only node leaves an empty store. -/
theorem StoreAt.remove_only (store : StoreAt img nodes world.file)
    (noRoot : img.schema.treeMeta.rootOffset = 0)
    (fits : RemovesNumbers img.schema id ∨
      RemovesString world.file img.schema id)
    (enough : world.file.length ≤ fuel) :
    wp (removeNode fuel id false) (fun status final =>
      status = .success ∧ StoreAt img.clearedImage [] final.file) world := by
  have := store.length_ge
  obtain ⟨fuel, rfl⟩ := Nat.exists_eq_add_of_le' (show 4 ≤ fuel by omega)
  rcases fits with ⟨only, rfl, numbers⟩ | ⟨only, rfl, string⟩
  · exact store.wp_removeNode_number only numbers fun _ _ _ store' =>
      ⟨rfl, store'⟩
  · obtain ⟨position, offset, tuple, head, single, entry, tupleHere, word,
      headHere, ended, notLinked⟩ := string
    have arrayEnd : img.schema.arrayEnd = img.slotOffset 1 := by
      rw [store.arrayEnd_eq, Image.capacity,
        show img.curId = 1 from only, idRecords_one]
    rw [arrayEnd] at word headHere notLinked
    have live : 0 < img.curId := by
      rw [show img.curId = 1 from only]
      exact Nat.one_pos
    obtain ⟨node, found⟩ := store.exists_node live
    have nodeAt := store.layout.nodeAt 0 node found
    obtain ⟨record, known, tupleAt⟩ := nodeAt.tuple
    rw [store.root 0 node found] at entry
    cases entry
    obtain rfl := tupleHere.unique (store.recordAt known)
    obtain ⟨chain, field⟩ :=
      nodeAt.fieldsAt.field_of_string ((single position).mpr rfl)
    obtain ⟨nonempty, linked⟩ :=
      nodeAt.fieldsAt.chains chain (List.mem_of_getElem? field)
    obtain ⟨⟨slot, data⟩, rest, rfl⟩ := List.exists_cons_of_ne_nil nonempty
    rw [tupleAt.words position _ field] at word
    obtain rfl : slot = 1 := img.slotOffset_inj.mp word
    obtain rfl := headHere.unique (store.recordAt linked.1)
    have last : rest = [] := by
      cases rest with
      | nil => rfl
      | cons second rest =>
          exact absurd ended (Nat.ne_of_gt img.slotOffset_pos)
    subst last
    refine store.wp_removeNode_string only single found field ?_ notLinked
      fun _ _ _ store' => ⟨rfl, store'⟩
    rw [noRoot]
    exact (Nat.ne_of_gt img.slotOffset_pos).symm

end Removal

/-- Runs whose calls fit only reach healthy stores. -/
theorem healthy_of_calls {specs : List AttributeSpec} {file : List UInt8}
    (reached : Reached specs (CallsFit RemoveFits) file) : Healthy file := by
  refine reached.invariant ?_ ?_
  · rintro _ ⟨few, fit, small, world, status, final, blank, runs, rfl⟩
    have created : wp (initEmptyFile specs) (fun _ final =>
        ∃ template, (emptySchema template).Valid ∧
          final.file = (emptySchema template).bytes) world :=
      wp_initEmptyFile blank few fit fun template _ _ _ _ valid =>
        ⟨template, valid, rfl⟩
    obtain ⟨template, valid, fileEq⟩ := wp_of_run created runs
    rw [fileEq] at small ⊢
    exact ⟨_, _, storeAt_empty valid small, rfl⟩
  · rintro op before after ⟨img, nodes, store, noRoot⟩ allowed moves
    refine moves.satisfies fun world fuel same enough => ?_
    subst same
    cases op with
    | add values parent =>
        obtain ⟨schema, stored, fits⟩ := allowed
        obtain rfl := store.schema_eq stored
        refine wp_mono (store.add fits) fun status final added => ?_
        obtain ⟨-, node, target, root, top, recs, -, -, store'⟩ := added
        exact ⟨_, _, store', noRoot⟩
    | update fieldNumber newValue id =>
        obtain ⟨schema, stored, fits⟩ := allowed
        obtain rfl := store.schema_eq stored
        refine wp_mono (store.update_fits fits enough)
          fun status final updated => ?_
        obtain ⟨-, node, field, field', recs, -, -, -, store'⟩ := updated
        exact ⟨_, _, store', noRoot⟩
    | remove id =>
        obtain ⟨schema, stored, fits⟩ := allowed
        obtain rfl := store.schema_eq stored
        rcases fits with refused | fits
        · refine wp_mono (store.remove_refused refused enough)
            fun status final outcome => ?_
          rw [outcome.2]
          exact ⟨img, nodes, store, noRoot⟩
        · refine wp_mono (store.remove_only noRoot fits enough)
            fun status final outcome => ?_
          exact ⟨_, _, outcome.2, noRoot⟩

/-- In a healthy store an addition that fits succeeds. -/
theorem Healthy.add {world : World} {schema : TreeSchema} {values : List Slot}
    {parent : UInt64} (healthy : Healthy world.file)
    (stored : SchemaAt world.file schema)
    (fits : AddFits world.file schema values) :
    ∃ final, (addNode values parent).run world = .ok (.success, final) := by
  obtain ⟨img, nodes, store, -⟩ := healthy
  obtain rfl := store.schema_eq stored
  obtain ⟨_, final, runs, rfl, -⟩ := store.add fits
  exact ⟨final, runs⟩

/-- The guards only differ in the calls they allow. -/
theorem AddsFit.calls {removal : List UInt8 → TreeSchema → Nat → Prop}
    {op : Op} {file : List UInt8} (fits : AddsFit op file) :
    CallsFit removal op file := by
  cases op with
  | add => exact fits
  | update => exact absurd fits id
  | remove => exact absurd fits id

theorem healthy_of_adds {specs : List AttributeSpec} {file : List UInt8}
    (reached : Reached specs AddsFit file) : Healthy file :=
  healthy_of_calls (reached.mono fun _ _ => AddsFit.calls)

end TreeStore
