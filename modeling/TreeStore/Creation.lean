import TreeStore.SchemaRoundTrip

/-!
# From the typed names to the template

`initFile` measures the names that were typed in, `createEmptyAttrTemplate`
copies them into rounded blocks, and `readAttribute` reads them back.
-/

namespace TreeStore

open ByteFile ProgramLogic

/-- An attribute as it is typed in. -/
structure TypedAttribute where
  name : List UInt8
  type : Nat
  nonempty : name ≠ []
  noTerminator : 0 ∉ name
  type_lt : type < 2 ^ 32

/-- The size that `initFile` takes for a name: the terminator counts only where
the length is a multiple of the granularity. -/
def initFileSize (name : List UInt8) : Nat :=
  name.length + if name.length % fileGranularity = 0 then 1 else 0

def TypedAttribute.spec (typed : TypedAttribute) : AttributeSpec where
  name := typed.name ++ [0]
  type := typed.type
  attrSize := initFileSize typed.name
  type_lt := typed.type_lt

def initFile (typed : List TypedAttribute) : Prog WriteStatus :=
  initEmptyFile (typed.map (·.spec))

def initFileThenRead (typed : List TypedAttribute) : Prog TreeSchema := do
  let _ ← initFile typed
  let (schema, _) ← readTreeSchema
  return schema

/-- The template that is read has the types and the names that were typed, and
every name fits the block that it is read into. -/
structure TemplateRead (typed : List TypedAttribute) (schema : TreeSchema) :
    Prop where
  types : schema.nodesTemplate.map (·.type) = typed.map (·.type)
  names : schema.nodesTemplate.map (fun info => cString info.attributeName) =
    typed.map (some ·.name)
  blocks : ∀ info ∈ schema.nodesTemplate,
    info.size ≤ attributeNameAlloc info.size

/-- The template survives, whatever the memory and the file hold. -/
def TemplateSurvives (typed : List TypedAttribute) : Prop :=
  ∀ world, wp (initFileThenRead typed)
    (fun schema _ => TemplateRead typed schema) world

section Creating

variable {world : World}

theorem initFileSize_le (name : List UInt8) :
    initFileSize name ≤ name.length + 1 := by
  unfold initFileSize
  split <;> omega

theorem initFileSize_pos (typed : TypedAttribute) :
    0 < initFileSize typed.name := by
  have := List.length_pos_of_ne_nil typed.nonempty
  unfold initFileSize
  omega

theorem four_dvd_realAttrSize (attrSize : Nat) : 4 ∣ realAttrSize attrSize := by
  unfold realAttrSize
  simp only [fileGranularity]
  split <;> omega

/-- What `createEmptyAttrTemplate` makes of a typed attribute: behind the
characters that were copied, the block holds what the memory held. -/
structure CreatedFrom (heap : Nat → Nat → UInt8) (typed : TypedAttribute)
    (info : NodeAttributeInfo) : Prop where
  size : info.size = realAttrSize (initFileSize typed.name) % 2 ^ 32
  type : info.type = typed.type
  name : ∃ block, info.attributeName =
    (typed.name ++ [0]).take (initFileSize typed.name) ++
      ((List.range (realAttrSize (initFileSize typed.name))).map
        (heap block)).drop (initFileSize typed.name)

theorem CreatedFrom.name_length {heap : Nat → Nat → UInt8}
    {typed : TypedAttribute} {info : NodeAttributeInfo}
    (created : CreatedFrom heap typed info) :
    info.attributeName.length = realAttrSize (initFileSize typed.name) := by
  have bounds := realAttrSize_bounds (initFileSize typed.name)
  have short := initFileSize_le typed.name
  obtain ⟨block, nameEq⟩ := created.name
  rw [nameEq]
  simp only [List.length_append, List.length_take, List.length_drop,
    List.length_map, List.length_range, List.length_singleton]
  omega

theorem wp_createTyped {typed : List TypedAttribute}
    {post : List NodeAttributeInfo → World → Prop}
    (next : ∀ template blocks,
      List.Forall₂ (CreatedFrom world.heap) typed template →
        post template { world with blocks := blocks }) :
    wp (createEmptyAttrTemplate (typed.map (·.spec))) post world := by
  induction typed generalizing world post with
  | nil =>
      rw [List.map_nil, createEmptyAttrTemplate, wp_pure]
      exact next [] world.blocks .nil
  | cons typed rest ih =>
      have bounds := realAttrSize_bounds (initFileSize typed.name)
      have enough : initFileSize typed.name - (typed.name ++ [0]).length = 0 := by
        have := initFileSize_le typed.name
        simp only [List.length_append, List.length_singleton]
        omega
      rw [List.map_cons, createEmptyAttrTemplate, wp_bind, malloc,
        wp_modifyGet, wp_bind, copyStr, wp_bind]
      dsimp only [TypedAttribute.spec]
      rw [Nat.min_eq_left bounds.1, enough]
      apply wp_malloc
      intro behind blocks none
      rw [List.eq_nil_of_length_eq_zero none, List.append_nil, wp_pure,
        wp_bind]
      apply ih
      intro template blocks created
      rw [wp_pure]
      exact next _ blocks (.cons ⟨rfl, rfl, world.blocks, rfl⟩ created)

/-- The name as far as it is written. -/
def NodeAttributeInfo.cut (info : NodeAttributeInfo) : NodeAttributeInfo :=
  { info with attributeName := info.attributeName.take info.size }

theorem writeFile_take {buffer : List UInt8} {size : Nat}
    (enough : size ≤ buffer.length) :
    writeFile (buffer.take size) size = writeFile buffer size := by
  unfold writeFile
  rw [List.length_take, Nat.min_eq_left enough, Nat.sub_self,
    Nat.sub_eq_zero_of_le enough]
  simp only [List.take_append_of_le_length enough, List.take_append,
    List.length_take, Nat.min_eq_left enough, List.take_take, Nat.min_self,
    Nat.sub_self, List.take_zero, List.append_nil]

theorem writeAttributesTemplate_cut {template : List NodeAttributeInfo}
    (enough : ∀ info ∈ template, info.size ≤ info.attributeName.length)
    (ret : WriteStatus) :
    writeAttributesTemplate (template.map (·.cut)) ret =
      writeAttributesTemplate template ret := by
  induction template generalizing ret with
  | nil => rfl
  | cons info template ih =>
      have same := writeFile_take (enough info (by simp))
      rw [List.map_cons, writeAttributesTemplate, writeAttributesTemplate]
      dsimp only [NodeAttributeInfo.cut]
      have later := ih fun other member => enough other (by simp [member])
      rw [same]
      congr
      funext status
      congr
      funext nameStatus
      exact later _

theorem CreatedFrom.enough {heap : Nat → Nat → UInt8}
    {typed : TypedAttribute} {info : NodeAttributeInfo}
    (created : CreatedFrom heap typed info) :
    info.size ≤ info.attributeName.length := by
  rw [created.size, created.name_length]
  exact Nat.mod_le _ _

theorem CreatedFrom.sized {heap : Nat → Nat → UInt8}
    {typed : TypedAttribute} {info : NodeAttributeInfo}
    (created : CreatedFrom heap typed info) : info.cut.Sized where
  size_lt := created.size ▸ Nat.mod_lt _ (by norm_num)
  type_lt := created.type ▸ typed.type_lt
  name_length := List.length_take.trans (Nat.min_eq_left created.enough)

/-- A property of all pairs holds of every right component. -/
theorem forall_of_forall₂ {α β : Type} {relation : α → β → Prop}
    {property : β → Prop} {left : List α} {right : List β}
    (pairs : List.Forall₂ relation left right)
    (holds : ∀ first second, relation first second → property second) :
    ∀ second ∈ right, property second := by
  induction pairs with
  | nil => simp
  | cons related _ ih =>
      intro second member
      rcases List.mem_cons.mp member with rfl | later
      · exact holds _ _ related
      · exact ih second later

theorem wp_initFile {typed : List TypedAttribute}
    {post : WriteStatus → World → Prop}
    (next : ∀ template status pos blocks,
      List.Forall₂ (CreatedFrom world.heap) typed template →
        post status
          { world with
            file := writeAt world.file 0
              (emptySchema (template.map (·.cut))).bytes
            pos := pos
            blocks := blocks }) :
    wp (initFile typed) post world := by
  rw [initFile, initEmptyFile, wp_bind, wp_fseekSet, if_pos le_rfl, wp_bind,
    createEmptyTreeSchema, wp_bind]
  apply wp_createTyped
  intro template blocks created
  have lengthEq : typed.length = template.length := created.length_eq
  have enough := forall_of_forall₂ created fun _ _ one =>
    CreatedFrom.enough one
  have sized : ∀ info ∈ template.map (·.cut), info.Sized := by
    intro info member
    obtain ⟨whole, inside, rfl⟩ := List.mem_map.mp member
    exact forall_of_forall₂ created (fun _ _ one => CreatedFrom.sized one)
      whole inside
  have sameProgram : writeTreeSchema
      { nodesTemplate := template
        treeMeta := createEmptyTreeMeta template.length
        root := List.replicate (getIdArraySize template.length 0) 0 } =
      writeTreeSchema (emptySchema (template.map (·.cut))) := by
    unfold writeTreeSchema emptySchema
    simp only [writeAttributesTemplate_cut enough, List.length_map]
  rw [wp_pure, List.length_map, lengthEq]
  simp only [createEmptyTreeMeta] at sameProgram ⊢
  rw [sameProgram]
  apply wp_writeTreeSchema_sized sized
  · intro entry member
    rw [List.eq_of_mem_replicate member]
    norm_num
  intro status entries blocks _ sizedEntries _ agree
  have sameRoot : entries = (emptySchema (template.map (·.cut))).root := by
    have rootLength : (emptySchema (template.map (·.cut))).root.length =
        entries.length := by
      rw [sizedEntries]
      exact List.length_replicate
    rw [← sizedEntries, rootLength, List.take_length, ← rootLength,
      List.take_length] at agree
    exact agree
  subst sameRoot
  exact next template status _ blocks created

end Creating

section Reading
variable {world : World}

theorem readAttributes_length (count : Nat) (ret : ReadStatus) :
    wp (readAttributes count ret) (fun result _ => result.1.length = count)
      world := by
  induction count generalizing ret world with
  | zero =>
      rw [readAttributes, wp_pure]
      rfl
  | succ count ih =>
      simp only [readAttributes, readAttribute, wp_bind, wp_pure]
      apply wp_malloc
      intro block blocks _
      rw [wp_readFile]
      apply wp_malloc
      intro name blocks _
      rw [wp_readFile]
      apply wp_mono (ih _)
      intro result final length
      exact congrArg Nat.succ length

/-- The number of attributes that are read is a 64-bit word. -/
theorem readTreeSchema_template_lt :
    wp readTreeSchema (fun result _ => result.1.nodesTemplate.length < 2 ^ 64)
      world := by
  simp only [readTreeSchema, readTreeMeta, wp_bind, wp_pure, wp_fseekSet,
    le_refl, if_true]
  apply wp_malloc
  intro block blocks _
  rw [wp_readFile]
  apply wp_mono (readAttributes_length _ _)
  intro result final length
  apply wp_malloc
  intro array blocks _
  rw [wp_readFile, length]
  have bound := leValue_lt (readAt (readAt world.file (Int.toNat 0) metaSize ++
    block.drop (readAt world.file (Int.toNat 0) metaSize).length) 40 8)
  have short : (readAt (readAt world.file (Int.toNat 0) metaSize ++
      block.drop (readAt world.file (Int.toNat 0) metaSize).length) 40
        8).length ≤ 8 := by
    rw [readAt_length]
    exact Nat.min_le_left _ _
  exact lt_of_lt_of_le bound (Nat.pow_le_pow_right (by norm_num) short)

theorem at_head {file bytes rest : List UInt8} {offset : Nat}
    (here : At file offset (bytes ++ rest)) : At file offset bytes :=
  (at_append.mp here).1

/-- The first attribute is read with the size that its header was given, and
with a name of that size. -/
theorem wp_readTreeSchema_first {info : NodeAttributeInfo}
    {template : List NodeAttributeInfo} (sized : info.Sized)
    (few : template.length + 1 < 2 ^ 64)
    (here : At world.file 0 (emptySchema (info :: template)).bytes) :
    wp readTreeSchema (fun result _ => ∃ first others,
      result.1.nodesTemplate = first :: others ∧ first.size = info.size ∧
        first.Sized) world := by
  have metaValid : (emptySchema (info :: template)).treeMeta.Valid := by
    refine ⟨?_, ?_, ?_, ?_, ?_, few⟩ <;>
      simp [emptySchema, createEmptyTreeMeta]
  obtain ⟨metaHere, restHere⟩ := at_append.mp here
  obtain ⟨templateHere, -⟩ := at_append.mp restHere
  have infoHere : At world.file metaSize info.bytes := by
    rw [TreeMeta.bytes_length, zero_add] at templateHere
    exact at_head templateHere
  have nonempty : info.bytes ≠ [] := by
    apply List.ne_nil_of_length_pos
    rw [sized.bytes_length]
    exact Nat.add_pos_left (by decide) _
  have inside := infoHere.length_le nonempty
  rw [sized.bytes_length] at inside
  have sizeRead : leValue (readAt world.file metaSize 4) = info.size := by
    have fits : info.size < 256 ^ 4 :=
      lt_of_lt_of_le sized.size_lt (by norm_num)
    have sizeHere : At world.file metaSize (leBytes 4 info.size) := by
      unfold NodeAttributeInfo.bytes at infoHere
      rw [List.append_assoc] at infoHere
      exact at_head infoHere
    rw [sizeHere.readAt_eq (leBytes_length 4 _).symm, leValue_leBytes fits]
  rw [readTreeSchema, wp_bind, wp_fseekSet, if_pos le_rfl, wp_bind]
  apply wp_readTreeMeta metaValid metaHere
  intro blocks
  have count : (emptySchema (info :: template)).treeMeta.templateSize =
      template.length + 1 := rfl
  rw [wp_bind, count, readAttributes, wp_bind]
  apply wp_readAttribute_stored
  · dsimp only
    rw [Int.toNat_zero, zero_add, sizeRead]
    omega
  intro first status blocks firstSized sizeEq _
  dsimp only at sizeEq ⊢
  rw [Int.toNat_zero, zero_add, sizeRead] at sizeEq
  rw [wp_bind]
  apply wp_readAttributes_any
  intro others pos blocks
  rw [wp_pure, wp_bind]
  apply wp_malloc
  intro array blocks _
  rw [wp_bind, wp_readFile, wp_pure]
  exact ⟨first, others.1, rfl, sizeEq, firstSized⟩

end Reading

theorem attributeNameAlloc_of_dvd {size : Nat} (whole : 4 ∣ size) :
    attributeNameAlloc size = size / 4 := by
  unfold attributeNameAlloc
  simp only [fileGranularity]
  rw [if_neg (by omega), Nat.add_zero]

/-- No attribute survives: either its name is longer than the block that it is
read into, or it is cut to nothing. -/
theorem not_templateSurvives_cons (typed : TypedAttribute)
    (rest : List TypedAttribute) : ¬ TemplateSurvives (typed :: rest) := by
  intro survives
  have holds := survives (blankWorld [])
  by_cases few : (typed :: rest).length < 2 ^ 64
  · have first : wp (initFileThenRead (typed :: rest)) (fun schema _ =>
        ∃ first others, schema.nodesTemplate = first :: others ∧
          4 ∣ first.size ∧ first.Sized) (blankWorld []) := by
      rw [initFileThenRead, wp_bind]
      apply wp_initFile
      intro template status pos blocks created
      rcases created with _ | ⟨created, others⟩
      rename_i info template
      have length := others.length_eq
      rw [wp_bind]
      apply wp_mono (wp_readTreeSchema_first created.sized
        (by rw [List.length_map, ← length]; exact few) (at_writeAt _ _ _))
      rintro ⟨schema, status⟩ final ⟨first, others, here, sizeEq, sized⟩
      rw [wp_pure]
      refine ⟨first, others, here, ?_, sized⟩
      have whole := four_dvd_realAttrSize (initFileSize typed.name)
      rw [sizeEq]
      change 4 ∣ info.size
      rw [created.size]
      exact (Nat.dvd_mod_iff (by norm_num)).mpr whole
    obtain ⟨schema, final, -, read, first, others, here, whole, sized⟩ :=
      wp_and holds first
    have names := read.names
    have blocks := read.blocks first (by rw [here]; simp)
    rw [attributeNameAlloc_of_dvd whole] at blocks
    have empty : first.attributeName = [] :=
      List.eq_nil_of_length_eq_zero (by rw [sized.name_length]; omega)
    rw [here, List.map_cons, List.map_cons, empty] at names
    exact absurd (List.cons.inj names).1 (by simp [cString])
  · have short : wp (initFileThenRead (typed :: rest)) (fun schema _ =>
        schema.nodesTemplate.length < 2 ^ 64) (blankWorld []) := by
      rw [initFileThenRead, wp_bind]
      apply wp_initFile
      intro template status pos blocks _
      rw [wp_bind]
      apply wp_mono readTreeSchema_template_lt
      intro result final bound
      rw [wp_pure]
      exact bound
    obtain ⟨schema, final, -, read, bound⟩ := wp_and holds short
    have lengths := congrArg List.length read.types
    rw [List.length_map, List.length_map] at lengths
    omega

theorem templateSurvives_nil : TemplateSurvives [] := by
  intro world
  rw [initFileThenRead, wp_bind]
  apply wp_initFile
  intro template status pos blocks created
  cases created
  have valid : (emptySchema []).Valid :=
    emptySchema_valid (fun _ member => absurd member List.not_mem_nil)
      (Nat.two_pow_pos 64)
  have template : (emptySchema []).nodesTemplate = [] := rfl
  rw [List.map_nil, wp_bind]
  generalize emptySchema [] = schema at valid template ⊢
  apply wp_readTreeSchema valid (at_writeAt _ _ _)
  intro blocks
  rw [wp_pure]
  exact ⟨by rw [template]; rfl, by rw [template]; rfl, by simp [template]⟩

/-- Only the template without attributes survives. -/
theorem templateSurvives_iff (typed : List TypedAttribute) :
    TemplateSurvives typed ↔ typed = [] := by
  cases typed with
  | nil => exact ⟨fun _ => rfl, fun _ => templateSurvives_nil⟩
  | cons typed rest =>
      exact ⟨fun survives => absurd survives
        (not_templateSurvives_cons typed rest), by simp⟩

theorem not_always_templateSurvives : ¬ ∀ typed, TemplateSurvives typed :=
  fun always => not_templateSurvives_cons
    { name := [110]
      type := INT
      nonempty := by simp
      noTerminator := by decide
      type_lt := by norm_num } [] (always _)

/-- A name whose size fits its header is written whole. -/
theorem CreatedFrom.whole {heap : Nat → Nat → UInt8} {typed : TypedAttribute}
    {info : NodeAttributeInfo} (created : CreatedFrom heap typed info)
    (short : typed.name.length + 4 < 2 ^ 32) :
    info.cut = info ∧ info.Valid := by
  have bounds := realAttrSize_bounds (initFileSize typed.name)
  have size_le := initFileSize_le typed.name
  have size_pos := initFileSize_pos typed
  have length := created.name_length
  have size := created.size
  simp only [fileGranularity] at bounds
  rw [Nat.mod_eq_of_lt (by omega)] at size
  constructor
  · rw [NodeAttributeInfo.cut, List.take_of_length_le (by omega)]
  · exact ⟨by omega, by omega, created.type ▸ typed.type_lt, by omega⟩

theorem wp_initFileThenRead {typed : List TypedAttribute} {world : World}
    {post : TreeSchema → World → Prop} (few : typed.length < 2 ^ 64)
    (short : ∀ one ∈ typed, one.name.length + 4 < 2 ^ 32)
    (next : ∀ template pos blocks final,
      List.Forall₂ (CreatedFrom world.heap) typed template →
        post (emptySchema template)
          { world with file := final, pos := pos, blocks := blocks }) :
    wp (initFileThenRead typed) post world := by
  rw [initFileThenRead, wp_bind]
  apply wp_initFile
  intro template status pos blocks created
  have whole : template.map (·.cut) = template ∧
      ∀ info ∈ template, info.Valid := by
    clear few next
    induction created with
    | nil => simp
    | cons one _ ih =>
        obtain ⟨same, valid⟩ := ih fun other member =>
          short other (by simp [member])
        obtain ⟨sameOne, validOne⟩ := one.whole (short _ (by simp))
        rw [List.map_cons, same, sameOne, List.forall_mem_cons]
        exact ⟨rfl, validOne, valid⟩
  have valid := emptySchema_valid whole.2 (created.length_eq ▸ few)
  rw [whole.1, wp_bind]
  apply wp_readTreeSchema valid (at_writeAt _ _ _)
  intro blocks
  rw [wp_pure]
  exact next template _ blocks _ created

theorem CreatedFrom.cString_of_dvd {heap : Nat → Nat → UInt8}
    {typed : TypedAttribute} {info : NodeAttributeInfo}
    (created : CreatedFrom heap typed info) (whole : 4 ∣ typed.name.length) :
    cString info.attributeName = some typed.name := by
  obtain ⟨block, nameEq⟩ := created.name
  have size : initFileSize typed.name = (typed.name ++ [0]).length := by
    unfold initFileSize
    rw [if_pos (Nat.mod_eq_zero_of_dvd whole), List.length_append]
    rfl
  rw [nameEq, size, List.take_length, List.append_assoc]
  exact cString_append_zero typed.noTerminator _

/-- In memory without zeros, a name whose terminator was not copied has none. -/
theorem CreatedFrom.cString_of_not_dvd {typed : TypedAttribute}
    {info : NodeAttributeInfo}
    (created : CreatedFrom (fun _ _ => 255) typed info)
    (partly : ¬ 4 ∣ typed.name.length) :
    cString info.attributeName = none := by
  obtain ⟨block, nameEq⟩ := created.name
  have size : initFileSize typed.name = typed.name.length := by
    unfold initFileSize
    rw [if_neg fun whole => partly (Nat.dvd_of_mod_eq_zero whole), Nat.add_zero]
  rw [nameEq, size, List.take_left, cString, if_neg]
  intro member
  rcases List.mem_append.mp member with inName | inBlock
  · exact typed.noTerminator inName
  · obtain ⟨index, -, zero⟩ := List.mem_map.mp (List.mem_of_mem_drop inBlock)
    exact absurd zero (by decide)

/-- The types always survive, and the names exactly where the length of each is
a multiple of the granularity. -/
theorem namesSurvive_iff {typed : List TypedAttribute}
    (few : typed.length < 2 ^ 64)
    (short : ∀ one ∈ typed, one.name.length + 4 < 2 ^ 32) :
    (∀ world, wp (initFileThenRead typed) (fun schema _ =>
      schema.nodesTemplate.map (·.type) = typed.map (·.type) ∧
        schema.nodesTemplate.map (fun info => cString info.attributeName) =
          typed.map (some ·.name)) world) ↔
      ∀ one ∈ typed, 4 ∣ one.name.length := by
  constructor
  · intro survives
    let world : World := ⟨[], 0, fun _ _ => 255, 0⟩
    have damaged : wp (initFileThenRead typed) (fun schema _ =>
        schema.nodesTemplate.map (fun info => cString info.attributeName) =
          typed.map (some ·.name) → ∀ one ∈ typed, 4 ∣ one.name.length)
        world := by
      apply wp_initFileThenRead few short
      intro template pos blocks final created
      clear few short survives
      induction created with
      | nil => simp
      | cons first _ ih =>
          intro names
          rw [emptySchema, List.map_cons, List.map_cons] at names
          obtain ⟨name, rest⟩ := List.cons.inj names
          rw [List.forall_mem_cons]
          apply And.intro _ (ih rest)
          by_contra partly
          rw [CreatedFrom.cString_of_not_dvd first partly] at name
          cases name
    obtain ⟨schema, final, -, read, implied⟩ := wp_and (survives world) damaged
    exact implied read.2
  · intro whole world
    apply wp_initFileThenRead few short
    intro template pos blocks final created
    clear few short
    rw [emptySchema]
    induction created with
    | nil => exact ⟨rfl, rfl⟩
    | cons first _ ih =>
        rw [List.forall_mem_cons] at whole
        obtain ⟨types, names⟩ := ih whole.2
        rw [List.map_cons, List.map_cons, List.map_cons, List.map_cons, types,
          names, first.type, first.cString_of_dvd whole.1]
        exact ⟨rfl, rfl⟩

end TreeStore
