import TreeStore.Template

/-!
# What a removal takes away

In a run whose calls fit, removing the only node makes its id dead, and there
is nothing else that it could touch.
-/

namespace TreeStore

open ByteFile ProgramLogic LinkedRecords

/-- The parent in the record at `offset`. -/
def parentAt (file : List UInt8) (offset : Nat) : Nat :=
  (NodeHeader.ofBytes (readAt file offset nodeHeadSize)).parentNode

/-- The ids from which the parents of live nodes lead to `id`, and `id`
itself. -/
inductive Below (file : List UInt8) (schema : TreeSchema) (id : Nat) :
    Nat → Prop
  | self : Below file schema id id
  | child {other offset : Nat} : LiveAt schema other offset →
      Below file schema id (parentAt file offset) → Below file schema id other

/-- The live ids below `id` are dead afterwards; every other live id is still
live, with a complete record that shows the same parent and fields; and no id
has become live. -/
structure RemovalExact (file file' : List UInt8)
    (schema schema' : TreeSchema) (id : Nat) : Prop where
  dead : ∀ other offset, LiveAt schema other offset →
    Below file schema id other → ∀ offset', ¬ LiveAt schema' other offset'
  kept : ∀ other offset, LiveAt schema other offset →
    ¬ Below file schema id other → ∃ offset' record parent fields,
      LiveAt schema' other offset' ∧ RecordAt file' schema' offset' record ∧
      Shows file other parent fields ∧ Shows file' other parent fields
  old : ∀ other offset', LiveAt schema' other offset' →
    ∃ offset, LiveAt schema other offset

/-- Removing the only live id is exact. -/
theorem removalExact_of_only {file file' : List UInt8}
    {schema schema' : TreeSchema} {id : Nat}
    (only : ∀ other offset, LiveAt schema other offset → other = id)
    (empty : schema'.treeMeta.curId = 0) :
    RemovalExact file file' schema schema' id where
  dead other offset live below offset' live' :=
    Nat.not_lt_zero _ (empty ▸ live'.counted)
  kept other offset live notBelow := by
    obtain rfl := only other offset live
    exact absurd .self notBelow
  old other offset' live' := absurd (empty ▸ live'.counted) (Nat.not_lt_zero _)

/-- In a run whose calls fit, a further removal that fits is exact. -/
theorem removeNode_exact {specs : List AttributeSpec} {world : World}
    {schema : TreeSchema} {id offset fuel : Nat}
    (reached : Reached specs (CallsFit RemoveFits) world.file)
    (stored : SchemaAt world.file schema) (live : LiveAt schema id offset)
    (fits : RemoveFits world.file schema id)
    (enough : world.file.length ≤ fuel) :
    wp (removeNode fuel id false) (fun status final => status = .success ∧
      ∃ schema', SchemaAt final.file schema' ∧
        RemovalExact world.file final.file schema schema' id) world := by
  obtain ⟨img, nodes, store, noRoot⟩ := healthy_of_calls reached
  obtain rfl := store.schema_eq stored
  have removes : RemovesNumbers img.schema id ∨
      RemovesString world.file img.schema id := by
    refine fits.resolve_left fun refused => live.nonzero ?_
    exact Option.some.inj (live.entry.symm.trans refused)
  have single : img.schema.treeMeta.curId = 1 ∧ id = 0 :=
    removes.elim (fun fits => ⟨fits.only, fits.first⟩)
      fun fits => ⟨fits.only, fits.first⟩
  refine wp_mono (store.remove_only noRoot removes enough)
    fun status final ⟨success, store'⟩ => ?_
  refine ⟨success, _, store'.schemaAt, removalExact_of_only ?_ rfl⟩
  intro other offset' live'
  have counted := live'.counted
  omega

theorem removeNode_exact_seven :
    wp (removeNode 604 0 false) (fun status final => status = .success ∧
      ∃ schema', SchemaAt final.file schema' ∧
        RemovalExact oneSeven final.file (schemaOf oneSeven) schema' 0)
      (blankWorld oneSeven) := by
  have evaluated : SchemaAt oneSeven (schemaOf oneSeven) ∧
      LiveAt (schemaOf oneSeven) 0 332 ∧
      (schemaOf oneSeven).treeMeta.curId = 1 ∧
      (schemaOf oneSeven).types = [INT] ∧ oneSeven.length = 604 := by
    decide +kernel
  obtain ⟨stored, live, only, types, length⟩ := evaluated
  have left : oneSeven ≠ [] := List.ne_nil_of_length_pos (by omega)
  have reached : Reached [singleSpec INT number_lt] (CallsFit RemoveFits)
      oneSeven :=
    .next (.add [⟨7, []⟩] 7)
      (reached_single (CallsFit RemoveFits) createdFile_number)
      ⟨_, schemaAt_single (by norm_num), addFits_seven⟩
      (Op.returns_fileAfter left)
  have numbers (position : Nat) :
      (schemaOf oneSeven).types[position]? ≠ some STRING := by
    rw [types]
    intro string
    have := List.mem_singleton.mp (List.mem_of_getElem? string)
    exact absurd this (by decide)
  -- the file has to be a variable here, lest it be evaluated
  generalize oneSeven = file at stored live only length reached numbers ⊢
  exact @removeNode_exact _ (blankWorld file) _ 0 332 604 reached stored live
    (Or.inr (Or.inl ⟨only, rfl, numbers⟩)) length.le

def twoSevens : List UInt8 := Op.fileAfter (.add [⟨7, []⟩] 7) oneSeven

theorem numbers_proper {schema : TreeSchema} {values : List Slot}
    (types : schema.types = [INT]) (count : values.length = 1) :
    ProperValues schema values := by
  refine ⟨by simp [types, count], fun position value string => ?_⟩
  rw [types] at string
  have := List.mem_singleton.mp (List.mem_of_getElem? string)
  exact absurd this (by decide)

theorem reached_twoSevens :
    Reached [singleSpec INT number_lt] CallsProper twoSevens := by
  have evaluated : SchemaAt oneSeven (schemaOf oneSeven) ∧
      (schemaOf oneSeven).types = [INT] ∧ oneSeven ≠ [] ∧ twoSevens ≠ [] := by
    decide +kernel
  obtain ⟨stored, types, firstLeft, secondLeft⟩ := evaluated
  have one : Reached [singleSpec INT number_lt] CallsProper oneSeven :=
    .next (.add [⟨7, []⟩] 7) (reached_single CallsProper createdFile_number)
      ⟨_, schemaAt_single (by norm_num), numbers_proper rfl rfl⟩
      (Op.returns_fileAfter firstLeft)
  exact .next (.add [⟨7, []⟩] 7) one ⟨_, stored, numbers_proper types rfl⟩
    (Op.returns_fileAfter secondLeft)

theorem twoSevens_stored :
    ApartTuples twoSevens (schemaOf twoSevens) ∧
    (LiveAt (schemaOf twoSevens) 0 332 ∧ LiveAt (schemaOf twoSevens) 1 604) ∧
    (schemaOf twoSevens).nodesTemplate =
      [{ size := 4, type := INT, attributeName := [110, 0, 0, 0] }] ∧
    (schemaOf twoSevens).treeMeta.templateSize = 1 ∧
    (schemaOf twoSevens).treeMeta.curId = 2 := by
  obtain ⟨file, named, ⟨stored, length⟩, ⟨first, second⟩, template, size,
      counter, arrayEnd⟩ : ∃ file, file = twoSevens ∧
      (SchemaAt file (schemaOf file) ∧ file.length = 876) ∧
      (LiveAt (schemaOf file) 0 332 ∧ LiveAt (schemaOf file) 1 604) ∧
      (schemaOf file).nodesTemplate =
        [{ size := 4, type := INT, attributeName := [110, 0, 0, 0] }] ∧
      (schemaOf file).treeMeta.templateSize = 1 ∧
      (schemaOf file).treeMeta.curId = 2 ∧ (schemaOf file).arrayEnd = 332 :=
    ⟨twoSevens, rfl, by decide +kernel⟩
  rw [← named]
  have recordSize : (schemaOf file).recordSize = 272 := by
    rw [TreeSchema.recordSize, TreeSchema.realSize, size]
    rfl
  have places {id offset : Nat} (live : LiveAt (schemaOf file) id offset) :
      offset = 332 + 272 * id ∧ id < 2 := by
    have counted := live.counted
    have entry := live.entry
    obtain rfl | rfl : id = 0 ∨ id = 1 := by omega
    · rw [first.entry] at entry
      cases entry
      exact ⟨rfl, by decide⟩
    · rw [second.entry] at entry
      cases entry
      exact ⟨rfl, by decide⟩
  refine ⟨⟨⟨stored, by omega, ?_⟩, ?_, ?_⟩, ⟨first, second⟩, template, size,
    counter⟩
  · intro id offset live
    have := places live
    apply exists_recordAt
    omega
  · intro id offset live
    have := places live
    omega
  · intro id other offset offset' live live' different
    have := places live
    have := places live'
    omega

/-- A stream at the start of a file, in memory where every bit is set. -/
def filledWorld (file : List UInt8) : World := ⟨file, 0, fun _ _ => 255, 0⟩

/-- What the removal of the first of two nodes leaves of the file.  The scan for
its children reads behind the end, where the set bits are no child of it. -/
def firstRemoved (file : List UInt8) : List UInt8 :=
  match (removeNode file.length 0 false).run (filledWorld file) with
  | .ok (_, final) => final.file
  | .error _ => []

/-- Removing the first of two nodes loses the other one: its entry still leads
to the place of its record, but the file ends where the records began. -/
theorem removeNode_not_exact :
    ¬ ∀ (specs : List AttributeSpec) (world : World) (schema : TreeSchema)
      (id offset fuel : Nat), Reached specs CallsProper world.file →
        SchemaAt world.file schema → LiveAt schema id offset →
          world.file.length ≤ fuel →
            wp (removeNode fuel id false) (fun _ final =>
              ∃ schema', SchemaAt final.file schema' ∧
                RemovalExact world.file final.file schema schema' id)
              world := by
  intro always
  obtain ⟨file, reached, ⟨stored, counter⟩, ⟨first, second, parent⟩, stored',
      entry, ends⟩ : ∃ file,
      Reached [singleSpec INT number_lt] CallsProper file ∧
      (SchemaAt file (schemaOf file) ∧ (schemaOf file).treeMeta.curId = 2) ∧
      (LiveAt (schemaOf file) 0 332 ∧ LiveAt (schemaOf file) 1 604 ∧
        parentAt file 604 = 7) ∧
      SchemaAt (firstRemoved file) (schemaOf (firstRemoved file)) ∧
      (schemaOf (firstRemoved file)).root[1]? = some 604 ∧
      (firstRemoved file).length = 332 :=
    ⟨twoSevens, reached_twoSevens, by decide +kernel⟩
  obtain ⟨status, final, ran, schema', here, exact⟩ :=
    always _ (filledWorld file) _ 0 332 file.length reached stored first le_rfl
  have left : final.file = firstRemoved file := by rw [firstRemoved, ran]
  rw [left] at here exact
  obtain rfl := here.unique stored'
  have apart : ¬ Below file (schemaOf file) 0 1 := by
    intro below
    cases below with
    | child live below =>
        have entry := live.entry
        rw [second.entry] at entry
        cases entry
        rw [parent] at below
        cases below with
        | child live' =>
            have counted := live'.counted
            omega
  obtain ⟨offset', record, _, _, live', recordHere, -⟩ :=
    exact.kept 1 604 second apart
  have place := live'.entry
  rw [entry] at place
  obtain rfl := Option.some.inj place
  have inside := recordHere.length_le
  omega

end TreeStore
