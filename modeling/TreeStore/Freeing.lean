import TreeStore.DeadIds
import TreeStore.Tuples

/-!
# Freeing an id

`removeFromIdArray` writes back the entries that the new counter asks for.  At
the end of a record these are fewer than it has read, and the freed entry is
not among them; a later reader asks for as few.
-/

namespace TreeStore

open ByteFile ProgramLogic

/-- Free an id, and read the schema again. -/
def removeThenRead (id : Nat) : Prog (Option Nat × TreeSchema) := do
  let offset ← removeFromIdArray id
  let (schema, _) ← readTreeSchema
  return (offset, schema)

/-- The schema after `id` has been freed: the template is the same, the counter
drops by one exactly for the last id, and no other entry below it differs. -/
structure Freed (schema schema' : TreeSchema) (id : Nat) : Prop where
  template : schema'.nodesTemplate = schema.nodesTemplate
  counter : schema'.treeMeta = { schema.treeMeta with
    curId := if id = schema.treeMeta.curId - 1 then schema.treeMeta.curId - 1
      else schema.treeMeta.curId }
  entry : id < schema'.root.length → schema'.root[id]? = some 0
  others : ∀ other < schema'.treeMeta.curId, other ≠ id →
    schema'.root[other]? = schema.root[other]?

/-- The schema that `removeFromIdArray` writes. -/
def TreeSchema.freed (schema : TreeSchema) (id : Nat) : TreeSchema :=
  let curId := if schema.treeMeta.curId = id + 1
    then schema.treeMeta.curId - 1 else schema.treeMeta.curId
  { schema with
    root := (schema.root.set id 0).take
      (getIdArraySize schema.treeMeta.templateSize curId)
    treeMeta := { schema.treeMeta with curId := curId } }

theorem SchemaAt.root_lt {file : List UInt8} {schema : TreeSchema} {id : Nat}
    (stored : SchemaAt file schema) (inside : id < schema.treeMeta.curId) :
    id < schema.root.length := by
  rw [stored.valid.root_length]
  exact inside.trans_le (curId_le_getIdArraySize _ _)

section Freeing

variable {world : World} {schema : TreeSchema} {id : Nat}

/-- The id array for the counter after a removal is no longer than before. -/
theorem getIdArraySize_drop (size : Nat) {curId curId' : Nat}
    (drop : curId' = curId ∨ curId = curId' + 1) :
    getIdArraySize size curId' ≤ getIdArraySize size curId := by
  rw [getIdArraySize_eq, getIdArraySize_eq]
  apply Nat.mul_le_mul_left
  rcases drop with rfl | rfl
  · exact le_rfl
  · exact idRecords_le_succ _ _

/-- What is written over a schema with the same template and a shorter array
touches nothing behind it. -/
theorem drop_writeAt_schema {file : List UInt8} {schema' : TreeSchema}
    (template : schema'.nodesTemplate = schema.nodesTemplate)
    (shorter : schema'.root.length ≤ schema.root.length) :
    (writeAt file 0 schema'.bytes).drop schema.arrayEnd =
      file.drop schema.arrayEnd := by
  apply List.ext_getElem?
  intro position
  have behind : schema'.bytes.length ≤ schema.arrayEnd := by
    rw [TreeSchema.arrayEnd, TreeSchema.bytes_length, TreeSchema.bytes_length,
      template]
    omega
  rw [List.getElem?_drop, List.getElem?_drop, writeAt_getElem?,
    if_neg (by omega), if_neg (by omega)]

theorem TreeSchema.freed_length (id : Nat) :
    (schema.freed id).root.length ≤ schema.root.length := by
  rw [TreeSchema.freed, List.length_take, List.length_set]
  exact Nat.min_le_right _ _

/-- The entries after a removal are those before it, the freed one apart. -/
theorem TreeSchema.freed_getElem? {position : Nat}
    (kept : position < (schema.freed id).root.length) :
    (schema.freed id).root[position]? =
      if position = id then some 0 else schema.root[position]? := by
  have old := kept.trans_le (schema.freed_length id)
  have asked := kept
  rw [TreeSchema.freed, List.length_take] at asked
  rw [TreeSchema.freed, List.getElem?_take_of_lt (by omega)]
  by_cases same : position = id
  · rw [if_pos same, same, List.getElem?_set_self (same ▸ old)]
  · rw [if_neg same, List.getElem?_set_ne (Ne.symm same)]

theorem TreeSchema.freed_valid (valid : schema.Valid) (id : Nat) :
    (schema.freed id).Valid := by
  have drops : (schema.freed id).treeMeta.curId = schema.treeMeta.curId ∨
      schema.treeMeta.curId = (schema.freed id).treeMeta.curId + 1 := by
    simp only [TreeSchema.freed]
    split_ifs <;> omega
  have shrinks := getIdArraySize_drop schema.treeMeta.templateSize drops
  have metaValid := valid.treeMeta
  constructor
  · refine ⟨metaValid.ASCIISign, metaValid.rootOffset, metaValid.firstSeq,
      metaValid.secondSeq, ?_, metaValid.templateSize⟩
    have := metaValid.curId
    omega
  · exact valid.template_length
  · exact valid.template
  · rw [← valid.root_length] at shrinks
    rw [TreeSchema.freed, List.length_take, List.length_set]
    exact Nat.min_eq_left shrinks
  · intro entry member
    rcases List.mem_or_eq_of_mem_set (List.mem_of_mem_take member) with
      old | rfl
    · exact valid.root entry old
    · norm_num

/-- Freeing an id writes the new schema over the old one. -/
theorem SchemaAt.wp_removeFromIdArray {entry : Nat}
    {post : Option Nat → World → Prop} (stored : SchemaAt world.file schema)
    (found : schema.root[id]? = some entry) (live : entry ≠ 0)
    (next : ∀ pos blocks, post (some entry)
      { world with
        file := ByteFile.writeAt world.file 0 (schema.freed id).bytes
        pos := pos
        blocks := blocks }) :
    wp (removeFromIdArray id) post world := by
  have valid := TreeSchema.freed_valid stored.valid id
  have shrinks := schema.freed_length id
  rw [removeFromIdArray, wp_bind, wp_fseekSet, if_pos le_rfl, wp_bind]
  apply SchemaAt.wp_readTreeSchema (by exact stored)
  intro blocks
  dsimp only
  rw [wp_bind]
  apply wp_index found
  rw [if_neg live, wp_bind]
  apply wp_writeTreeSchema (by exact stored.valid.template)
  · intro other member
    rcases List.mem_or_eq_of_mem_set member with old | rfl
    · exact stored.valid.root other old
    · norm_num
  intro entries blocks sized fits agree
  dsimp only at sized agree ⊢
  -- as many entries are written as the new counter asks for
  have written : entries = (schema.freed id).root := by
    have length := valid.root_length
    rw [List.length_set, List.take_of_length_le
      (by rw [sized]; exact length.symm.trans_le shrinks)] at agree
    rw [agree]
    rfl
  rw [wp_pure, written]
  exact next _ _

theorem SchemaAt.freed {file : List UInt8} (stored : SchemaAt file schema)
    (id : Nat) :
    SchemaAt (ByteFile.writeAt file 0 (schema.freed id).bytes)
      (schema.freed id) :=
  ⟨TreeSchema.freed_valid stored.valid id, at_writeAt _ _ _⟩

theorem wp_removeThenRead_live {entry : Nat}
    (stored : SchemaAt world.file schema)
    (found : schema.root[id]? = some entry) (live : entry ≠ 0) :
    wp (removeThenRead id) (fun result final => result.1 = some entry ∧
      Freed schema result.2 id ∧
      final.file.drop schema.arrayEnd = world.file.drop schema.arrayEnd)
      world := by
  rw [removeThenRead, wp_bind]
  apply stored.wp_removeFromIdArray found live
  intro pos blocks
  rw [wp_bind]
  apply SchemaAt.wp_readTreeSchema (stored.freed id)
  intro blocks
  rw [wp_pure]
  refine ⟨rfl, ⟨rfl, ?_, ?_, ?_⟩, ?_⟩
  · dsimp only [TreeSchema.freed]
    congr 1
    split_ifs <;> omega
  · intro kept
    rw [TreeSchema.freed_getElem? kept, if_pos rfl]
  · intro other below different
    rw [TreeSchema.freed_getElem? ((stored.freed id).root_lt below),
      if_neg different]
  · exact drop_writeAt_schema (by rfl) (schema.freed_length id)

end Freeing

/-- Freeing an id fails where the id is dead, and touches no other id. -/
theorem removeFromIdArray_frees {world : World} {schema : TreeSchema} {id : Nat}
    (stored : SchemaAt world.file schema)
    (inside : id < schema.treeMeta.curId) :
    ∃ entry, schema.root[id]? = some entry ∧
      wp (removeThenRead id) (fun result final =>
        if entry = 0 then result.1 = none ∧ final.file = world.file
        else result.1 = some entry ∧ Freed schema result.2 id ∧
          final.file.drop schema.arrayEnd = world.file.drop schema.arrayEnd)
        world := by
  obtain ⟨entry, found⟩ : ∃ entry, schema.root[id]? = some entry :=
    ⟨_, List.getElem?_eq_getElem (stored.root_lt inside)⟩
  apply Exists.intro entry
  apply And.intro found
  by_cases dead : entry = 0
  · subst dead
    simp only [if_true]
    rw [removeThenRead, wp_bind, removeFromIdArray, wp_bind, wp_fseekSet,
      if_pos le_rfl, wp_bind]
    apply wp_readTreeSchema stored.valid (by exact stored.here)
    intro blocks
    dsimp only
    rw [wp_bind]
    apply wp_index found
    rw [if_pos rfl, wp_pure, wp_bind]
    apply wp_readTreeSchema stored.valid (by exact stored.here)
    intro blocks
    rw [wp_pure]
    exact ⟨rfl, rfl⟩
  · simp only [dead, if_false]
    exact wp_removeThenRead_live stored found dead

/-- A schema whose last id is the first one of a second record. -/
def crowdedSchema : TreeSchema where
  nodesTemplate := (singleSchema INT).nodesTemplate
  treeMeta := { (singleSchema INT).treeMeta with curId := 35 }
  root := List.replicate 68 876

/-- The freed entry is not among those that are written back. -/
theorem removeFromIdArray_frees_crowded :
    ∃ entry, crowdedSchema.root[34]? = some entry ∧
      wp (removeThenRead 34) (fun result final =>
        if entry = 0 then result.1 = none ∧ final.file = crowdedSchema.bytes
        else result.1 = some entry ∧ Freed crowdedSchema result.2 34 ∧
          final.file.drop crowdedSchema.arrayEnd =
            crowdedSchema.bytes.drop crowdedSchema.arrayEnd)
        (blankWorld crowdedSchema.bytes) := by
  have stored : SchemaAt crowdedSchema.bytes crowdedSchema :=
    ⟨by decide +kernel, at_iff.mpr fun index _ => by rw [zero_add]⟩
  exact @removeFromIdArray_frees (blankWorld crowdedSchema.bytes) _ 34 stored
    (by decide)

end TreeStore
