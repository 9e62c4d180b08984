import TreeStore.Updating

/-!
# The empty store

`initEmptyFile` writes the schema of a store without nodes, whose id array
takes one record.
-/

namespace TreeStore

open ByteFile ProgramLogic

section Template

variable {world : World}

theorem realAttrSize_bounds (attrSize : Nat) :
    attrSize ≤ realAttrSize attrSize ∧
      realAttrSize attrSize < attrSize + fileGranularity := by
  simp only [realAttrSize, fileGranularity]
  split <;> omega

/-- An attribute of the new schema carries its type, and its name in a block of
the rounded size. -/
theorem wp_createEmptyAttrTemplate {specs : List AttributeSpec}
    {post : List NodeAttributeInfo → World → Prop}
    (fit : ∀ spec ∈ specs, spec.Fits)
    (next : ∀ template blocks,
      template.map (·.type) = specs.map (·.type) →
      (∀ info ∈ template, info.Valid) →
      template.map (·.size) = specs.map (realAttrSize ·.attrSize) →
      post template { world with blocks := blocks }) :
    wp (createEmptyAttrTemplate specs) post world := by
  induction specs generalizing world post with
  | nil =>
      rw [createEmptyAttrTemplate, wp_pure]
      exact next [] world.blocks rfl (by simp) rfl
  | cons spec specs ih =>
      have bounds := realAttrSize_bounds spec.attrSize
      obtain ⟨positive, small⟩ := fit spec (by simp)
      simp only [fileGranularity] at bounds small
      rw [createEmptyAttrTemplate, wp_bind]
      refine wp_malloc fun appended blocks appendedSized => ?_
      rw [wp_bind, copyStr, wp_bind]
      refine wp_malloc fun behind blocks behindSized => ?_
      rw [Nat.min_eq_left bounds.1] at behindSized
      rw [wp_pure, wp_bind]
      refine ih (fun other member => fit other (by simp [member]))
        fun template blocks types valid sizes => ?_
      rw [wp_pure]
      refine next _ blocks (by simp [types]) ?_ ?_
      · intro info member
        rcases List.mem_cons.mp member with rfl | later
        · refine ⟨?_, Nat.mod_lt _ (by norm_num), spec.type_lt, ?_⟩
          · dsimp only
            rw [Nat.mod_eq_of_lt (by omega)]
            omega
          · have enough : spec.attrSize ≤ (spec.name ++ behind).length := by
              rw [List.length_append, behindSized]
              omega
            dsimp only
            rw [Nat.min_eq_left bounds.1, List.length_append,
              List.length_take, Nat.min_eq_left enough, List.length_drop,
              appendedSized, Nat.mod_eq_of_lt (by omega)]
            omega
        · exact valid info later
      · simp only [List.map_cons, sizes]
        rw [Nat.mod_eq_of_lt (by omega)]

end Template

/-- The schema of an empty store. -/
def emptySchema (template : List NodeAttributeInfo) : TreeSchema where
  nodesTemplate := template
  treeMeta := createEmptyTreeMeta template.length
  root := List.replicate (getIdArraySize template.length 0) 0

/-- The image of an empty store. -/
def emptyImage (template : List NodeAttributeInfo) : Image where
  schema := emptySchema template
  top := 1
  recs := fun _ => none

theorem emptySchema_valid {template : List NodeAttributeInfo}
    (valid : ∀ info ∈ template, info.Valid) (small : template.length < 2 ^ 64) :
    (emptySchema template).Valid where
  treeMeta := ⟨by simp [emptySchema, createEmptyTreeMeta],
    by simp [emptySchema, createEmptyTreeMeta],
    by simp [emptySchema, createEmptyTreeMeta],
    by simp [emptySchema, createEmptyTreeMeta],
    by simp [emptySchema, createEmptyTreeMeta], small⟩
  template_length := rfl
  template := valid
  root_length := by simp [emptySchema, createEmptyTreeMeta]
  root := by
    intro entry member
    rw [List.eq_of_mem_replicate member]
    norm_num

theorem idRecords_zero (size : Nat) : idRecords size 0 = 1 := by
  have := idUnit_ge size
  rw [idRecords, Nat.zero_add, Nat.div_eq_of_lt (by omega)]
  rfl

theorem idRecords_one (size : Nat) : idRecords size 1 = 1 := by
  rw [idRecords_succ]
  simp

/-- A file that holds nothing but the empty schema is a healthy store. -/
theorem storeAt_empty {template : List NodeAttributeInfo}
    (schemaValid : (emptySchema template).Valid)
    (small : (emptySchema template).bytes.length < 2 ^ 63) :
    StoreAt (emptyImage template) [] (emptySchema template).bytes := by
  have lengthEq := (emptyImage template).schema_length schemaValid
  have capacity : (emptyImage template).capacity = 1 := idRecords_zero _
  rw [capacity] at lengthEq
  refine ⟨⟨schemaValid, ?_, lengthEq, small, capacity.le, by rintro _ _ ⟨⟩⟩,
    ⟨by simp, by simp, ?_⟩, rfl, by simp, ?_⟩
  · exact at_iff.mpr fun index _ => by rw [zero_add]; rfl
  · intro slot
    have reserved : (emptyImage template).reserved = 1 := idRecords_one _
    rw [reserved]
    simp [emptyImage]
    omega
  · intro id _ below
    refine List.getElem?_replicate.trans (if_pos ?_)
    rw [getIdArraySize_eq]
    exact Nat.lt_of_lt_of_le below
      (Nat.le_mul_of_pos_right _ (idRecords_pos _ _))

/-- `initEmptyFile` on an empty file makes an empty store. -/
theorem wp_initEmptyFile {specs : List AttributeSpec} {world : World}
    {post : WriteStatus → World → Prop} (blank : world.file = [])
    (few : specs.length < 2 ^ 64) (fit : ∀ spec ∈ specs, spec.Fits)
    (next : ∀ template pos blocks,
      template.map (·.type) = specs.map (·.type) →
      template.map (·.size) = specs.map (realAttrSize ·.attrSize) →
      (emptySchema template).Valid →
      post .success
        { world with
          file := (emptySchema template).bytes
          pos := pos
          blocks := blocks }) :
    wp (initEmptyFile specs) post world := by
  rw [initEmptyFile, wp_bind, wp_fseekSet, if_pos le_rfl, wp_bind,
    createEmptyTreeSchema, wp_bind]
  refine wp_createEmptyAttrTemplate fit
    fun template blocks types valid sizes => ?_
  have lengthEq : specs.length = template.length := by
    have := congrArg List.length types
    simpa using this.symm
  rw [wp_pure]
  have schemaEq : TreeSchema.mk template (createEmptyTreeMeta specs.length)
      (List.replicate (getIdArraySize specs.length 0) 0) =
        emptySchema template := by
    rw [emptySchema, lengthEq]
  have schemaValid := emptySchema_valid valid (lengthEq ▸ few)
  simp only [createEmptyTreeMeta] at schemaEq ⊢
  rw [schemaEq]
  refine wp_writeTreeSchema valid schemaValid.root ?_
  intro entries blocks sized _ agree
  have sameRoot : entries = (emptySchema template).root := by
    have rootLength := schemaValid.root_length
    rw [rootLength, ← sized, List.take_length] at agree
    rw [agree, sized, ← rootLength, List.take_length]
  subst sameRoot
  simp only [blank]
  have written : writeAt [] 0 (emptySchema template).bytes =
      (emptySchema template).bytes := by
    simp [writeAt]
  change post .success
    { file := writeAt [] 0 (emptySchema template).bytes
      pos := (emptySchema template).bytes.length
      heap := world.heap
      blocks := blocks }
  rw [written]
  exact next template _ blocks types sizes schemaValid

end TreeStore
