import TreeStore.Capacity
import TreeStore.Library.Undefined

/-!
# The schema codec in both directions

Reading gives back the schema that was written, over any file; and writing back
what was read from a file, whatever it holds, leaves the file as it is.  Both
hold as long as `readAttribute` reads every name into a block that can take it.
-/

namespace TreeStore

open ByteFile ProgramLogic

/-- The entries of the id array, with the wrap-around of 64-bit words. -/
def wrappedArraySize (templateSize curId : Nat) : Nat :=
  (getIdArraySize64 (.ofNat templateSize) (.ofNat curId)).toNat

/-- Where `count` attributes end that begin at `pos`, by the sizes that their
headers give. -/
def attributesEnd (file : List UInt8) : Nat → Nat → Nat
  | 0, pos => pos
  | count + 1, pos =>
      attributesEnd file count
        (pos + attrHeadSize + leValue (readAt file pos 4))

/-- The sizes of the names of `count` attributes that begin at `pos`. -/
def nameSizes (file : List UInt8) : Nat → Nat → List Nat
  | 0, _ => []
  | count + 1, pos =>
      let size := leValue (readAt file pos 4)
      size :: nameSizes file count (pos + attrHeadSize + size)

/-- The length of the schema that the meta data of a file announces. -/
def announcedLength (file : List UInt8) : Nat :=
  let treeMeta := TreeMeta.ofBytes (readAt file 0 metaSize)
  attributesEnd file treeMeta.templateSize metaSize +
    8 * wrappedArraySize treeMeta.templateSize treeMeta.curId

/-- A schema in memory, with an id array of the size that both sides compute. -/
structure TreeSchema.WellSized (schema : TreeSchema) : Prop where
  treeMeta : schema.treeMeta.Valid
  template_length : schema.nodesTemplate.length = schema.treeMeta.templateSize
  template : ∀ info ∈ schema.nodesTemplate, info.Valid
  root_length : schema.root.length =
    wrappedArraySize schema.treeMeta.templateSize schema.treeMeta.curId
  root : ∀ entry ∈ schema.root, entry < 2 ^ 64

/-- A template with names of these sizes is read without a step that the
language leaves undefined: there is room for the attribute pointers and in the
block of each name, and the record size does not wrap to zero. -/
structure InBlocks (templateSize : Nat) (sizes : List Nat) : Prop where
  pointers : 8 * templateSize < 2 ^ 64
  names : ∀ size ∈ sizes, size ≤ attributeNameAlloc size
  divisor : getRealNodeSize64 (.ofNat templateSize) + 16 ≠ 0

section Program

variable (undefined : Prog Unit)

/-- `readAttribute`, where reading past the block of the name is undefined. -/
def readAttributeWith : Prog (NodeAttributeInfo × ReadStatus) := do
  let (header, ret) ← readFile (← malloc attrHeadSize) attrHeadSize
  let size := leValue (readAt header 0 4)
  let type := leValue (readAt header 4 4)
  let (attributeName, status) ←
    readFile (← malloc (attributeNameAlloc size)) size
  requires undefined (attributeName.length ≤ attributeNameAlloc size)
  return ({ size, type, attributeName := attributeName.take size },
    ret.or status)

def readAttributesWith : Nat → ReadStatus →
    Prog (List NodeAttributeInfo × ReadStatus)
  | 0, ret => return ([], ret)
  | iter + 1, ret => do
      let (info, status) ← readAttributeWith undefined
      let (rest, ret) ← readAttributesWith iter (ret.or status)
      return (info :: rest, ret)

/-- `getIdArraySize` on 64-bit words, where division by zero is undefined. -/
def getIdArraySizeWith (attrSize curId : Nat) : Prog Nat := do
  requires undefined (getRealNodeSize64 (.ofNat attrSize) + 16 ≠ 0)
  return wrappedArraySize attrSize curId

/-- `readTreeSchema`; the block of the attribute pointers has to hold them
all. -/
def readTreeSchemaWith : Prog (TreeSchema × ReadStatus) := do
  fseekSet 0
  let (treeMeta, ret) ← readTreeMeta
  requires undefined (8 * treeMeta.templateSize < 2 ^ 64)
  let (nodesTemplate, ret) ←
    readAttributesWith undefined treeMeta.templateSize ret
  let realIdArraySize ←
    getIdArraySizeWith undefined treeMeta.templateSize treeMeta.curId
  let (idArray, status) ←
    readFile (← malloc (realIdArraySize * 8)) (realIdArraySize * 8)
  return ({ nodesTemplate, treeMeta, root := leWords realIdArraySize idArray },
    ret.or status)

def writeTreeSchemaWith (schema : TreeSchema) : Prog WriteStatus := do
  fseekSet 0
  let ret ← writeTreeMeta schema.treeMeta
  fseekSet metaSize
  let ret ← writeAttributesTemplate schema.nodesTemplate ret
  let realSize ← getIdArraySizeWith undefined schema.treeMeta.templateSize
    schema.treeMeta.curId
  let status ← writeRoot schema.root (realSize * 8)
  return ret.or status

def writeThenRead (schema : TreeSchema) :
    Prog (WriteStatus × TreeSchema × ReadStatus) := do
  let written ← writeTreeSchemaWith undefined schema
  let (read, status) ← readTreeSchemaWith undefined
  return (written, read, status)

def readThenWrite : Prog WriteStatus := do
  let (schema, _) ← readTreeSchemaWith undefined
  writeTreeSchemaWith undefined schema

end Program

section Reading

variable {world : World}

theorem le_attributesEnd (file : List UInt8) (count pos : Nat) :
    pos ≤ attributesEnd file count pos := by
  induction count generalizing pos with
  | zero => exact le_rfl
  | succ count ih =>
      have step := ih (pos + attrHeadSize + leValue (readAt file pos 4))
      rw [attributesEnd]
      omega

theorem readAt_split (file : List UInt8) (offset first second : Nat) :
    readAt file offset (first + second) =
      readAt file offset first ++ readAt file (offset + first) second := by
  unfold readAt
  rw [List.take_add, List.drop_drop]

/-- An attribute is read as it lies in the file. -/
theorem wp_readAttribute_stored
    {post : NodeAttributeInfo × ReadStatus → World → Prop}
    (inside : world.pos + attrHeadSize +
      leValue (readAt world.file world.pos 4) ≤ world.file.length)
    (holds : ∀ info status blocks, info.Sized →
      info.size = leValue (readAt world.file world.pos 4) →
      At world.file world.pos info.bytes →
      post (info, status)
        { world with
          pos := world.pos + attrHeadSize + info.size
          blocks := blocks }) :
    wp readAttribute post world := by
  have headLength : (readAt world.file world.pos attrHeadSize).length =
      attrHeadSize := by
    rw [readAt_length]
    omega
  have halves : readAt world.file world.pos attrHeadSize =
      readAt world.file world.pos 4 ++ readAt world.file (world.pos + 4) 4 :=
    readAt_split world.file world.pos 4 4
  have firstLength : (readAt world.file world.pos 4).length = 4 := by
    rw [readAt_length]
    simp only [attrHeadSize] at inside
    omega
  have secondLength : (readAt world.file (world.pos + 4) 4).length = 4 := by
    rw [readAt_length]
    simp only [attrHeadSize] at inside
    omega
  rw [readAttribute, wp_bind]
  apply wp_malloc
  intro block blocks sized
  rw [wp_bind, wp_readFile, headLength,
    List.drop_of_length_le sized.le, List.append_nil]
  have sizeEq : readAt (readAt world.file world.pos attrHeadSize) 0 4 =
      readAt world.file world.pos 4 := by
    rw [halves, readAt, List.drop_zero, List.take_left' firstLength]
  have typeEq : readAt (readAt world.file world.pos attrHeadSize) 4 4 =
      readAt world.file (world.pos + 4) 4 := by
    rw [halves, readAt, List.drop_left' firstLength,
      List.take_of_length_le secondLength.le]
  simp only [sizeEq, typeEq, wp_bind]
  apply wp_malloc
  intro nameBlock blocks _
  obtain ⟨size, sizeIs⟩ : ∃ size, size = leValue (readAt world.file world.pos 4) :=
    ⟨_, rfl⟩
  rw [← sizeIs] at inside ⊢
  have nameLength : (readAt world.file (world.pos + attrHeadSize) size).length =
      size := by
    rw [readAt_length]
    omega
  rw [wp_readFile, wp_pure, List.take_left' nameLength, nameLength]
  refine holds _ _ blocks ⟨?_, ?_, nameLength⟩ sizeIs ?_
  · have := leValue_lt (readAt world.file world.pos 4)
    rw [firstLength] at this
    dsimp only
    omega
  · have := leValue_lt (readAt world.file (world.pos + 4) 4)
    rw [secondLength] at this
    dsimp only
    omega
  · have bytesEq : NodeAttributeInfo.bytes ⟨size,
        leValue (readAt world.file (world.pos + 4) 4),
        readAt world.file (world.pos + attrHeadSize) size⟩ =
          readAt world.file world.pos (attrHeadSize + size) := by
      have sizeBytes := leBytes_leValue (readAt world.file world.pos 4)
      have typeBytes := leBytes_leValue (readAt world.file (world.pos + 4) 4)
      rw [firstLength, ← sizeIs] at sizeBytes
      rw [secondLength] at typeBytes
      rw [NodeAttributeInfo.bytes]
      dsimp only
      rw [sizeBytes, typeBytes, readAt_split, halves]
    rw [bytesEq]
    exact at_readAt (by omega)

/-- The attributes are read as they lie in the file. -/
theorem wp_readAttributes_stored {count : Nat} {ret : ReadStatus}
    {post : List NodeAttributeInfo × ReadStatus → World → Prop}
    (inside : attributesEnd world.file count world.pos ≤ world.file.length)
    (holds : ∀ template status blocks, template.length = count →
      (∀ info ∈ template, info.Sized) →
      At world.file world.pos (templateBytes template) →
      world.pos + (templateBytes template).length =
        attributesEnd world.file count world.pos →
      post (template, status)
        { world with
          pos := world.pos + (templateBytes template).length
          blocks := blocks }) :
    wp (readAttributes count ret) post world := by
  induction count generalizing world ret post with
  | zero =>
      rw [readAttributes, wp_pure]
      exact holds [] ret world.blocks rfl (by simp) (at_nil _ _) rfl
  | succ count ih =>
      rw [attributesEnd] at inside
      have enough := le_attributesEnd world.file count
        (world.pos + attrHeadSize + leValue (readAt world.file world.pos 4))
      rw [readAttributes, wp_bind]
      apply wp_readAttribute_stored (by omega)
      intro info status blocks infoSized sizeEq infoHere
      have advanced := infoSized.bytes_length
      rw [wp_bind]
      apply ih (by rw [sizeEq]; exact inside)
      intro template status' blocks length sized here ends
      rw [wp_pure]
      dsimp only at here ends ⊢
      have all : templateBytes (info :: template) =
          info.bytes ++ templateBytes template := rfl
      have position : world.pos + attrHeadSize + info.size +
          (templateBytes template).length =
            world.pos + (templateBytes (info :: template)).length := by
        rw [all, List.length_append, advanced]
        omega
      rw [position]
      apply holds
      · rw [List.length_cons, length]
      · intro other member
        rcases List.mem_cons.mp member with rfl | later
        · exact infoSized
        · exact sized other later
      · rw [all, at_append, advanced, ← Nat.add_assoc]
        exact ⟨infoHere, here⟩
      · rw [← position, ends, attributesEnd, sizeEq]

theorem TreeMeta.bytes_ofBytes {bytes : List UInt8}
    (exact_length : bytes.length = metaSize) :
    (TreeMeta.ofBytes bytes).bytes = bytes := by
  have whole : wordsBytes (leWords 6 bytes) = bytes :=
    wordsBytes_leWords (by simpa [metaSize] using exact_length)
  simpa [TreeMeta.bytes, TreeMeta.ofBytes, leWords, readAt, List.range_succ]
    using whole

theorem readAttributeWith_pure : readAttributeWith (pure ()) = readAttribute := by
  unfold readAttributeWith readAttribute
  simp only [requires_pure, pure_bind]

theorem readAttributesWith_pure (count : Nat) (ret : ReadStatus) :
    readAttributesWith (pure ()) count ret = readAttributes count ret := by
  induction count generalizing ret with
  | zero => rfl
  | succ count ih =>
      rw [readAttributesWith, readAttributes, readAttributeWith_pure]
      simp only [ih]

/-- A name that is read as a whole fits its block or overruns it. -/
theorem always_readAttribute_bind {α : Type} {info : NodeAttributeInfo}
    {status : ReadStatus} {final : World}
    {next : Prog Unit → NodeAttributeInfo × ReadStatus → Prog α}
    {post : α → World → Prop}
    (ran : readAttribute.run world = .ok ((info, status), final))
    (whole : info.attributeName.length = info.size) :
    Always (fun undefined => readAttributeWith undefined >>= next undefined) post
        world ↔
      info.size ≤ attributeNameAlloc info.size ∧
        Always (fun undefined => next undefined (info, status)) post final := by
  rw [readAttribute] at ran
  obtain ⟨block, first, allocated, ran⟩ := exists_of_run_bind ran
  obtain ⟨⟨header, ret⟩, second, headerRead, ran⟩ := exists_of_run_bind ran
  dsimp only at ran
  obtain ⟨nameBlock, third, nameAllocated, ran⟩ := exists_of_run_bind ran
  obtain ⟨⟨name, nameStatus⟩, fourth, nameRead, ran⟩ := exists_of_run_bind ran
  cases ran
  have fits : name.length ≤ attributeNameAlloc (leValue (readAt header 0 4)) ↔
      leValue (readAt header 0 4) ≤
        attributeNameAlloc (leValue (readAt header 0 4)) := by
    cases nameAllocated
    cases nameRead
    simp only [List.length_take, List.length_append, List.length_drop,
      List.length_map, List.length_range, readAt_length] at whole ⊢
    omega
  simp only [readAttributeWith, bind_assoc, pure_bind]
  rw [always_bind_of allocated, always_bind_of headerRead]
  dsimp only
  rw [always_bind_of nameAllocated, always_bind_of nameRead]
  dsimp only
  rw [always_requires_bind, fits]

theorem always_readAttributes_bind {α : Type} {count : Nat} {ret status : ReadStatus}
    {template : List NodeAttributeInfo} {final : World}
    {next : Prog Unit → List NodeAttributeInfo × ReadStatus → Prog α}
    {post : α → World → Prop}
    (ran : (readAttributes count ret).run world =
      .ok ((template, status), final))
    (whole : ∀ info ∈ template, info.attributeName.length = info.size) :
    Always (fun undefined => readAttributesWith undefined count ret >>=
        next undefined) post world ↔
      (∀ info ∈ template, info.size ≤ attributeNameAlloc info.size) ∧
        Always (fun undefined => next undefined (template, status)) post
          final := by
  induction count generalizing world ret template next with
  | zero =>
      cases ran
      simp [readAttributesWith]
  | succ count ih =>
      rw [readAttributes] at ran
      obtain ⟨⟨info, infoStatus⟩, middle, infoRead, ran⟩ :=
        exists_of_run_bind ran
      obtain ⟨⟨rest, restStatus⟩, last, restRead, ran⟩ := exists_of_run_bind ran
      cases ran
      obtain ⟨infoWhole, restWhole⟩ := List.forall_mem_cons.mp whole
      simp only [readAttributesWith, bind_assoc, pure_bind]
      rw [always_readAttribute_bind infoRead infoWhole]
      dsimp only
      rw [ih restRead restWhole, List.forall_mem_cons, and_assoc]

theorem inBlocks_iff {templateSize : Nat} {template : List NodeAttributeInfo} :
    InBlocks templateSize (template.map (·.size)) ↔
      8 * templateSize < 2 ^ 64 ∧
      (∀ info ∈ template, info.size ≤ attributeNameAlloc info.size) ∧
      getRealNodeSize64 (.ofNat templateSize) + 16 ≠ 0 := by
  constructor
  · rintro ⟨pointers, names, divisor⟩
    exact ⟨pointers, fun info member =>
      names _ (List.mem_map.mpr ⟨info, member, rfl⟩), divisor⟩
  · rintro ⟨pointers, names, divisor⟩
    refine ⟨pointers, fun size member => ?_, divisor⟩
    obtain ⟨info, inside, rfl⟩ := List.mem_map.mp member
    exact names info inside

theorem wrappedArraySize_pos {templateSize : Nat}
    (divisor : getRealNodeSize64 (.ofNat templateSize) + 16 ≠ 0) (curId : Nat) :
    0 < wrappedArraySize templateSize curId := by
  have record := recordSize64_toNat (.ofNat templateSize)
  have positive : (getRealNodeSize64 (.ofNat templateSize) + 16).toNat ≠ 0 :=
    fun zero => divisor (UInt64.toNat_inj.mp zero)
  rw [wrappedArraySize, getIdArraySize64_toNat]
  exact lt_of_lt_of_le (by omega) (Nat.le_max_right _ _)

/-- The schema is read as it lies in the file, if nothing is overrun. -/
theorem always_readTreeSchema_bind {α : Type} {schema : TreeSchema}
    {ret status : ReadStatus} {middle last : World} {decided : Prop}
    {next : Prog Unit → TreeSchema × ReadStatus → Prog α}
    {post : α → World → Prop}
    (metaRead : (do fseekSet 0; readTreeMeta).run world =
      .ok ((schema.treeMeta, ret), middle))
    (attributesRead :
      (readAttributes schema.treeMeta.templateSize ret).run middle =
        .ok ((schema.nodesTemplate, status), last))
    (whole : ∀ info ∈ schema.nodesTemplate,
      info.attributeName.length = info.size)
    (rootLength : schema.root.length = wrappedArraySize
      schema.treeMeta.templateSize schema.treeMeta.curId)
    (fits : ∀ entry ∈ schema.root, entry < 2 ^ 64)
    (rootHere : At last.file last.pos (wordsBytes schema.root))
    (decides : ∀ blocks,
      Always (fun undefined => next undefined (schema, status.or .success))
        post { last with
          pos := last.pos + 8 * schema.root.length
          blocks := blocks } ↔ decided) :
    Always (fun undefined => readTreeSchemaWith undefined >>= next undefined)
        post world ↔
      InBlocks schema.treeMeta.templateSize
        (schema.nodesTemplate.map (·.size)) ∧ decided := by
  have split (undefined : Prog Unit) :
      readTreeSchemaWith undefined >>= next undefined =
        (do fseekSet 0; readTreeMeta) >>= fun header =>
        requires undefined (8 * header.1.templateSize < 2 ^ 64) >>= fun _ =>
        readAttributesWith undefined header.1.templateSize header.2 >>=
          fun attributes =>
        requires undefined
          (getRealNodeSize64 (.ofNat header.1.templateSize) + 16 ≠ 0) >>=
          fun _ =>
        (malloc (wrappedArraySize header.1.templateSize header.1.curId * 8) >>=
          fun block => readFile block
            (wrappedArraySize header.1.templateSize header.1.curId * 8)) >>=
          fun array =>
        next undefined
          (⟨attributes.1, header.1, leWords
              (wrappedArraySize header.1.templateSize header.1.curId) array.1⟩,
            attributes.2.or array.2) := by
    simp only [readTreeSchemaWith, getIdArraySizeWith, bind_assoc, pure_bind]
  have rootRead : wp (malloc (schema.root.length * 8) >>= fun block =>
      readFile block (schema.root.length * 8)) (fun result final =>
      result.1 = wordsBytes schema.root ∧
        (0 < schema.root.length → result.2 = .success) ∧
        ∃ blocks, final = { last with
          pos := last.pos + 8 * schema.root.length
          blocks := blocks }) last := by
    rw [wp_bind]
    apply wp_malloc
    intro block blocks sized
    rw [Nat.mul_comm] at sized ⊢
    have delivered : readAt last.file last.pos (8 * schema.root.length) =
        wordsBytes schema.root := rootHere.readAt_eq (wordsBytes_length _).symm
    rw [wp_readFile, delivered, wordsBytes_length,
      List.drop_of_length_le sized.le, List.append_nil]
    exact ⟨rfl, fun positive => if_neg (by omega), blocks, rfl⟩
  have fits64 : ∀ entry ∈ schema.root, entry < 256 ^ 8 :=
    fun entry member => by simpa using fits entry member
  have decoded := leWords_wordsBytes fits64 []
  rw [List.append_nil] at decoded
  simp only [split]
  rw [always_bind_of metaRead]
  dsimp only
  rw [always_requires_bind, always_readAttributes_bind attributesRead whole]
  dsimp only
  rw [always_requires_bind, ← rootLength, inBlocks_iff, and_assoc, and_assoc]
  apply and_congr_right
  intro _
  apply and_congr_right
  intro _
  apply and_congr_right
  intro divisor
  apply always_bind_iff rootRead
  rintro ⟨idArray, rootStatus⟩ final ⟨rfl, success, blocks, rfl⟩
  obtain rfl : rootStatus = .success :=
    success (rootLength ▸ wrappedArraySize_pos divisor _)
  dsimp only
  rw [decoded]
  exact decides blocks

/-- The schema is written as it is, if the record size is no zero divisor. -/
theorem always_writeTreeSchema_bind {α : Type} {schema : TreeSchema}
    {decided : Prop} {next : Prog Unit → WriteStatus → Prog α}
    {post : α → World → Prop}
    (sized : ∀ info ∈ schema.nodesTemplate, info.Sized)
    (rootLength : schema.root.length = wrappedArraySize
      schema.treeMeta.templateSize schema.treeMeta.curId)
    (decides : ∀ status blocks,
      ((∀ info ∈ schema.nodesTemplate, 0 < info.size) → status = .success) →
      (Always (fun undefined => next undefined status) post
        { world with
          file := writeAt world.file 0 schema.bytes
          pos := schema.bytes.length
          blocks := blocks } ↔ decided)) :
    Always (fun undefined => writeTreeSchemaWith undefined schema >>=
        next undefined) post world ↔
      getRealNodeSize64 (.ofNat schema.treeMeta.templateSize) + 16 ≠ 0 ∧
        decided := by
  have split (undefined : Prog Unit) :
      writeTreeSchemaWith undefined schema >>= next undefined =
        (do
          fseekSet 0
          let ret ← writeTreeMeta schema.treeMeta
          fseekSet metaSize
          writeAttributesTemplate schema.nodesTemplate ret) >>= fun ret =>
        requires undefined
          (getRealNodeSize64 (.ofNat schema.treeMeta.templateSize) + 16 ≠ 0) >>=
          fun _ =>
        writeRoot schema.root (wrappedArraySize schema.treeMeta.templateSize
          schema.treeMeta.curId * 8) >>= fun status =>
        next undefined (ret.or status) := by
    simp only [writeTreeSchemaWith, getIdArraySizeWith, bind_assoc, pure_bind]
  have front : wp (do
      fseekSet 0
      let ret ← writeTreeMeta schema.treeMeta
      fseekSet metaSize
      writeAttributesTemplate schema.nodesTemplate ret) (fun status middle =>
        ((∀ info ∈ schema.nodesTemplate, 0 < info.size) →
          status = .success) ∧ ∃ blocks, middle = { world with
            file := writeAt world.file 0 (schema.treeMeta.bytes ++
              templateBytes schema.nodesTemplate)
            pos := metaSize + (templateBytes schema.nodesTemplate).length
            blocks := blocks }) world := by
    rw [wp_bind, wp_fseekSet, if_pos le_rfl, wp_bind, writeTreeMeta]
    apply wp_writeFile (by simp) (by decide)
    intro blocks
    rw [List.take_of_length_le (by simp), wp_bind, wp_fseekSet,
      if_pos (by simp)]
    apply wp_writeAttributesTemplate sized (by simp)
    intro status blocks success
    have joined := writeAt_writeAt world.file 0 schema.treeMeta.bytes
      (templateBytes schema.nodesTemplate)
    rw [TreeMeta.bytes_length, zero_add] at joined
    simp only [Int.toNat_zero, Int.toNat_natCast, joined]
    exact ⟨success rfl, blocks, rfl⟩
  simp only [split]
  apply always_bind_iff front
  rintro ret _ ⟨attributes, blocks, rfl⟩
  rw [always_requires_bind]
  apply and_congr_right
  intro divisor
  have root : wp (writeRoot schema.root (wrappedArraySize
      schema.treeMeta.templateSize schema.treeMeta.curId * 8))
      (fun status final => (0 < schema.root.length → status = .success) ∧
        ∃ blocks, final = { world with
          file := writeAt world.file 0 schema.bytes
          pos := schema.bytes.length
          blocks := blocks })
      { world with
        file := writeAt world.file 0 (schema.treeMeta.bytes ++
          templateBytes schema.nodesTemplate)
        pos := metaSize + (templateBytes schema.nodesTemplate).length
        blocks := blocks } := by
    rw [writeRoot, ← rootLength]
    apply wp_writeFile_whole (by rw [wordsBytes_length, Nat.mul_comm])
      (by simp)
    intro status blocks success
    refine ⟨fun positive => success (by omega), blocks, ?_⟩
    have joined := writeAt_writeAt world.file 0 (schema.treeMeta.bytes ++
      templateBytes schema.nodesTemplate) (wordsBytes schema.root)
    rw [List.length_append, TreeMeta.bytes_length, zero_add,
      List.append_assoc] at joined
    have length : metaSize + (templateBytes schema.nodesTemplate).length +
        schema.root.length * 8 = schema.bytes.length := by
      rw [TreeSchema.bytes_length]
      omega
    simp only [joined, length]
    rfl
  apply always_bind_iff root
  rintro status _ ⟨whole, blocks, rfl⟩
  apply decides
  intro named
  rw [attributes named, whole (rootLength ▸ wrappedArraySize_pos divisor _)]
  rfl

/-- The sizes of the names are in the headers. -/
theorem nameSizes_eq {file : List UInt8} {template : List NodeAttributeInfo}
    {pos : Nat} (sized : ∀ info ∈ template, info.Sized)
    (here : At file pos (templateBytes template)) :
    nameSizes file template.length pos = template.map (·.size) := by
  induction template generalizing pos with
  | nil => rfl
  | cons info template ih =>
      have infoSized := sized info (List.mem_cons_self ..)
      have all : templateBytes (info :: template) =
          info.bytes ++ templateBytes template := rfl
      rw [all] at here
      obtain ⟨infoHere, restHere⟩ := at_append.mp here
      rw [NodeAttributeInfo.bytes, List.append_assoc] at infoHere
      have head := (at_append.mp infoHere).1
      rw [At, leBytes_length] at head
      have size : leValue (readAt file pos 4) = info.size := by
        rw [head]
        exact leValue_leBytes infoSized.size_lt
      rw [infoSized.bytes_length, ← Nat.add_assoc] at restHere
      rw [List.length_cons, nameSizes, List.map_cons, size]
      exact congrArg _ (ih (fun other member =>
        sized other (List.mem_cons_of_mem _ member)) restHere)

end Reading

section RoundTrip

variable {world : World}

/-- Reading the meta data at the start of a file. -/
theorem wp_seekTreeMeta {treeMeta : TreeMeta} (valid : treeMeta.Valid)
    (here : At world.file 0 treeMeta.bytes) :
    wp (do fseekSet 0; readTreeMeta) (fun result final =>
      result = (treeMeta, .success) ∧
        ∃ blocks, final = { world with pos := metaSize, blocks := blocks })
      world := by
  rw [wp_bind, wp_fseekSet, if_pos le_rfl]
  apply wp_readTreeMeta valid (by exact here)
  intro blocks
  exact ⟨rfl, blocks, by simp⟩

/-- The meta data are those of the file, if it is long enough. -/
theorem wp_seekTreeMeta_stored (long : metaSize ≤ world.file.length) :
    wp (do fseekSet 0; readTreeMeta) (fun result final =>
      result.1 = TreeMeta.ofBytes (readAt world.file 0 metaSize) ∧
        ∃ blocks, final = { world with pos := metaSize, blocks := blocks })
      world := by
  have length : (readAt world.file 0 metaSize).length = metaSize := by
    rw [readAt_length]
    omega
  rw [wp_bind, wp_fseekSet, if_pos le_rfl, readTreeMeta, wp_bind]
  apply wp_malloc
  intro block blocks sized
  rw [wp_bind, wp_readFile, wp_pure, Int.toNat_zero, length,
    List.drop_of_length_le sized.le, List.append_nil, zero_add]
  exact ⟨rfl, blocks, rfl⟩

/-- The attributes are those of the file, if it is long enough. -/
theorem wp_readAttributes_file {count : Nat} {ret : ReadStatus}
    (inside : attributesEnd world.file count world.pos ≤ world.file.length) :
    wp (readAttributes count ret) (fun result final =>
      result.1.length = count ∧ (∀ info ∈ result.1, info.Sized) ∧
        At world.file world.pos (templateBytes result.1) ∧
        world.pos + (templateBytes result.1).length =
          attributesEnd world.file count world.pos ∧
        ∃ blocks, final = { world with
          pos := world.pos + (templateBytes result.1).length
          blocks := blocks }) world :=
  wp_readAttributes_stored inside fun _ _ blocks length sized here ends =>
    ⟨length, sized, here, ends, blocks, rfl⟩

/-- Reading gives back what was written, success and position included, and
writing touches nothing behind the schema, if nothing is overrun. -/
theorem always_writeThenRead_iff {schema : TreeSchema}
    (valid : schema.WellSized) :
    Always (fun undefined => writeThenRead undefined schema)
        (fun result final => result = (.success, schema, .success) ∧
          (∀ position, schema.bytes.length ≤ position →
            final.file[position]? = world.file[position]?) ∧
          final.pos = schema.bytes.length) world ↔
      InBlocks schema.treeMeta.templateSize
        (schema.nodesTemplate.map (·.size)) := by
  have onward := @always_writeTreeSchema_bind world _ schema
    (InBlocks schema.treeMeta.templateSize (schema.nodesTemplate.map (·.size)))
    (fun undefined written => do
      let (read, status) ← readTreeSchemaWith undefined
      return (written, read, status))
    (fun result final => result = (.success, schema, .success) ∧
      (∀ position, schema.bytes.length ≤ position →
        final.file[position]? = world.file[position]?) ∧
      final.pos = schema.bytes.length)
    (fun info member => (valid.template info member).sized) valid.root_length
  refine (onward fun status blocks success => ?_).trans
    ⟨fun both => both.2, fun inBlocks => ⟨inBlocks.divisor, inBlocks⟩⟩
  obtain rfl := success fun info member => (valid.template info member).size_pos
  have here : At (writeAt world.file 0 schema.bytes) 0 schema.bytes :=
    at_writeAt _ _ _
  obtain ⟨metaHere, restHere⟩ := at_append.mp here
  obtain ⟨templateHere, rootHere⟩ := at_append.mp restHere
  rw [TreeMeta.bytes_length, zero_add] at templateHere rootHere
  obtain ⟨_, _, metaRead, rfl, blocks, rfl⟩ := @wp_seekTreeMeta
    { world with
      file := writeAt world.file 0 schema.bytes
      pos := schema.bytes.length
      blocks := blocks } _ valid.treeMeta metaHere
  obtain ⟨_, _, attributesRead, rfl, blocks, rfl⟩ := @wp_readAttributes
    { world with
      file := writeAt world.file 0 schema.bytes
      pos := metaSize
      blocks := blocks } schema.nodesTemplate
    (fun result final => result = (schema.nodesTemplate, .success) ∧
      ∃ blocks, final = { world with
        file := writeAt world.file 0 schema.bytes
        pos := metaSize + (templateBytes schema.nodesTemplate).length
        blocks := blocks })
    valid.template templateHere fun blocks => ⟨rfl, blocks, rfl⟩
  rw [valid.template_length] at attributesRead
  refine (always_readTreeSchema_bind metaRead attributesRead
    (fun info member => (valid.template info member).name_length)
    valid.root_length valid.root rootHere fun blocks => ?_).trans
    (and_iff_left trivial)
  refine always_const.trans (iff_true_intro ?_)
  rw [wp_pure]
  refine ⟨rfl, fun position behind => ?_, ?_⟩
  · have outside := writeAt_getElem? world.file 0 schema.bytes position
    rw [if_neg (Nat.not_lt_zero _), if_neg (by omega)] at outside
    exact outside
  · rw [TreeSchema.bytes_length]

/-- Writing back what was read touches nothing at all, if nothing is overrun. -/
theorem always_readThenWrite_iff
    (inside : announcedLength world.file ≤ world.file.length) :
    Always readThenWrite (fun _ final => final.file = world.file) world ↔
      InBlocks (TreeMeta.ofBytes (readAt world.file 0 metaSize)).templateSize
        (nameSizes world.file
          (TreeMeta.ofBytes (readAt world.file 0 metaSize)).templateSize
            metaSize) := by
  obtain ⟨treeMeta, metaIs⟩ : ∃ treeMeta,
      treeMeta = TreeMeta.ofBytes (readAt world.file 0 metaSize) := ⟨_, rfl⟩
  rw [announcedLength, ← metaIs] at inside
  rw [← metaIs]
  have behindMeta := le_attributesEnd world.file treeMeta.templateSize metaSize
  have metaLength : (readAt world.file 0 metaSize).length = metaSize := by
    rw [readAt_length]
    omega
  have metaBytes : treeMeta.bytes = readAt world.file 0 metaSize := by
    rw [metaIs, TreeMeta.bytes_ofBytes metaLength]
  obtain ⟨⟨_, ret⟩, _, metaRead, same, blocks, rfl⟩ :=
    @wp_seekTreeMeta_stored world (by omega)
  obtain rfl : treeMeta = _ := metaIs.trans same.symm
  obtain ⟨⟨template, status⟩, last, attributesRead, count, sized, templateHere,
      ends, blocks, rfl⟩ := @wp_readAttributes_file
    { world with pos := metaSize, blocks := blocks } treeMeta.templateSize ret
    (by dsimp only; omega)
  dsimp only at count sized templateHere ends attributesRead
  obtain ⟨size, sizeIs⟩ : ∃ size,
      size = wrappedArraySize treeMeta.templateSize treeMeta.curId := ⟨_, rfl⟩
  rw [← sizeIs, ← ends] at inside
  let schema : TreeSchema :=
    { nodesTemplate := template
      treeMeta := treeMeta
      root := leWords size (readAt world.file
        (metaSize + (templateBytes template).length) (8 * size)) }
  have arrayLength : (readAt world.file
      (metaSize + (templateBytes template).length) (8 * size)).length =
        8 * size := by
    rw [readAt_length]
    omega
  have rootLength : schema.root.length = size := leWords_length _ _
  have rootHere : At world.file (metaSize + (templateBytes template).length)
      (wordsBytes schema.root) := by
    have rootBytes : wordsBytes schema.root = readAt world.file
        (metaSize + (templateBytes template).length) (8 * size) :=
      wordsBytes_leWords arrayLength
    rw [rootBytes]
    exact at_readAt (by omega)
  have names : nameSizes world.file treeMeta.templateSize metaSize =
      schema.nodesTemplate.map (·.size) := by
    rw [← count]
    exact nameSizes_eq sized templateHere
  have here : At world.file 0 schema.bytes := by
    rw [TreeSchema.bytes, at_append, at_append, TreeMeta.bytes_length, zero_add]
    refine ⟨?_, templateHere, rootHere⟩
    change At world.file 0 treeMeta.bytes
    rw [metaBytes]
    exact at_readAt (by omega)
  have length : schema.bytes.length ≤ world.file.length := by
    rw [TreeSchema.bytes_length, rootLength]
    exact inside
  rw [names]
  refine (@always_readTreeSchema_bind _ _ schema _ _ _ _
    (getRealNodeSize64 (.ofNat treeMeta.templateSize) + 16 ≠ 0)
    (fun undefined read => writeTreeSchemaWith undefined read.1) _ metaRead
    attributesRead (fun info member => (sized info member).name_length)
    (rootLength.trans sizeIs)
    (fun entry member => by simpa using leWords_lt member) rootHere
    fun blocks => ?_).trans
      ⟨fun both => both.1, fun inBlocks => ⟨inBlocks, inBlocks.divisor⟩⟩
  have written := @always_writeTreeSchema_bind
    { world with
      pos := metaSize + (templateBytes template).length +
        8 * schema.root.length
      blocks := blocks } _ schema True (fun _ status => pure status)
    (fun _ final => final.file = world.file) sized (rootLength.trans sizeIs)
    fun status blocks _ => always_const.trans (iff_true_intro (by
      rw [wp_pure]
      exact here.writeAt_self (by rw [zero_add]; exact length)))
  simp only [bind_pure, and_true] at written
  exact written

end RoundTrip

section Sizes

/-- The names that fit the block that `readAttribute` allocates for them. -/
theorem le_attributeNameAlloc_iff (size : Nat) :
    size ≤ attributeNameAlloc size ↔ size ∈ [0, 1, 2, 3, 5] := by
  have split := Nat.div_add_mod size 4
  have rest := Nat.mod_lt size (show 0 < 4 by norm_num)
  simp only [attributeNameAlloc, fileGranularity, List.mem_cons,
    List.not_mem_nil, or_false]
  split_ifs <;> omega

/-- Nothing but a name is ever overrun in a file of fewer than 2 ^ 63 bytes. -/
theorem inBlocks_iff_of_small {templateSize : Nat} {sizes : List Nat}
    (small : 8 * templateSize < 2 ^ 63) :
    InBlocks templateSize sizes ↔ ∀ size ∈ sizes, size ∈ [0, 1, 2, 3, 5] := by
  simp only [← le_attributeNameAlloc_iff]
  constructor
  · exact fun inBlocks => inBlocks.names
  · intro names
    refine ⟨by omega, names, fun zero => ?_⟩
    have real := getRealNodeSize_eq_max templateSize
    have same : (UInt64.ofNat templateSize).toNat = templateSize :=
      UInt64.toNat_ofNat_of_lt' (by change _ < 2 ^ 64; omega)
    have exact_size := @getRealNodeSize64_eq (.ofNat templateSize) (by
      rw [same]
      omega)
    have sum := congrArg UInt64.toNat zero
    rw [UInt64.toNat_add, exact_size, same] at sum
    change (_ + 16) % 2 ^ 64 = 0 at sum
    omega

/-- The wrapped size is the size of the store's model as long as the array has
fewer than 2 ^ 64 bytes. -/
theorem wrappedArraySize_eq {templateSize curId : Nat}
    (fits : 8 * curId + (getRealNodeSize templateSize + nodeHeadSize) < 2 ^ 64) :
    wrappedArraySize templateSize curId =
      getIdArraySize templateSize curId := by
  have real := getRealNodeSize_eq_max templateSize
  have sizeEq : (UInt64.ofNat templateSize).toNat = templateSize :=
    UInt64.toNat_ofNat_of_lt' (by change _ < 2 ^ 64; omega)
  have counterEq : (UInt64.ofNat curId).toNat = curId :=
    UInt64.toNat_ofNat_of_lt' (by change _ < 2 ^ 64; omega)
  rw [wrappedArraySize, getIdArraySize64_eq (by rw [sizeEq, counterEq]; exact fits),
    sizeEq, counterEq]

theorem TreeSchema.Valid.wellSized {schema : TreeSchema} (valid : schema.Valid)
    (fits : 8 * schema.treeMeta.curId +
      (getRealNodeSize schema.treeMeta.templateSize + nodeHeadSize) < 2 ^ 64) :
    schema.WellSized where
  treeMeta := valid.treeMeta
  template_length := valid.template_length
  template := valid.template
  root_length := valid.root_length.trans (wrappedArraySize_eq fits).symm
  root := valid.root

/-- Where nothing wraps and an overrun does no harm, the schema is read as the
rest of this development reads it. -/
theorem readTreeSchemaWith_pure {world middle : World} {treeMeta : TreeMeta}
    {ret : ReadStatus}
    (metaRead : (do fseekSet 0; readTreeMeta).run world =
      .ok ((treeMeta, ret), middle))
    (fits : 8 * treeMeta.curId +
      (getRealNodeSize treeMeta.templateSize + nodeHeadSize) < 2 ^ 64) :
    (readTreeSchemaWith (pure ())).run world = readTreeSchema.run world := by
  have split : readTreeSchema = (do fseekSet 0; readTreeMeta) >>= fun header =>
      readAttributes header.1.templateSize header.2 >>= fun attributes =>
      malloc (getIdArraySize header.1.templateSize header.1.curId * 8) >>=
        fun block => readFile block
          (getIdArraySize header.1.templateSize header.1.curId * 8) >>=
        fun array => pure
          (⟨attributes.1, header.1, leWords
              (getIdArraySize header.1.templateSize header.1.curId) array.1⟩,
            attributes.2.or array.2) := by
    simp only [readTreeSchema, bind_assoc]
  have splitWith : readTreeSchemaWith (pure ()) =
      (do fseekSet 0; readTreeMeta) >>= fun header =>
      readAttributes header.1.templateSize header.2 >>= fun attributes =>
      malloc (wrappedArraySize header.1.templateSize header.1.curId * 8) >>=
        fun block => readFile block
          (wrappedArraySize header.1.templateSize header.1.curId * 8) >>=
        fun array => pure
          (⟨attributes.1, header.1, leWords
              (wrappedArraySize header.1.templateSize header.1.curId) array.1⟩,
            attributes.2.or array.2) := by
    simp only [readTreeSchemaWith, getIdArraySizeWith, requires_pure,
      readAttributesWith_pure, bind_assoc, pure_bind]
  rw [split, splitWith, run_bind_of metaRead, run_bind_of metaRead]
  dsimp only
  rw [wrappedArraySize_eq fits]

end Sizes

/-- The codec is a bijection on its image exactly where no name overruns the
block that it is read into. -/
theorem schemaCodec_roundTrip_iff (schema : TreeSchema) (world : World) :
    (schema.WellSized →
      (Always (fun undefined => writeThenRead undefined schema)
          (fun result final => result = (.success, schema, .success) ∧
            (∀ position, schema.bytes.length ≤ position →
              final.file[position]? = world.file[position]?) ∧
            final.pos = schema.bytes.length) world ↔
        InBlocks schema.treeMeta.templateSize
          (schema.nodesTemplate.map (·.size)))) ∧
    (announcedLength world.file ≤ world.file.length →
      (Always readThenWrite (fun _ final => final.file = world.file) world ↔
        InBlocks (TreeMeta.ofBytes (readAt world.file 0 metaSize)).templateSize
          (nameSizes world.file
            (TreeMeta.ofBytes (readAt world.file 0 metaSize)).templateSize
              metaSize))) :=
  ⟨always_writeThenRead_iff, always_readThenWrite_iff⟩

/-- The schema of an empty store with one attribute whose name has this many
bytes, the terminator included. -/
def namedSchema (size : Nat) : TreeSchema :=
  emptySchema [{
    size := size
    type := INT
    attributeName := List.replicate (size - 1) 110 ++ [0] }]

theorem namedSchema_wellSized {size : Nat} (positive : 0 < size)
    (small : size < 2 ^ 32) : (namedSchema size).WellSized := by
  apply TreeSchema.Valid.wellSized
  · apply emptySchema_valid _ (by norm_num)
    intro info member
    obtain rfl := List.mem_singleton.mp member
    refine ⟨positive, small, number_lt, ?_⟩
    simp only [List.length_append, List.length_replicate, List.length_singleton]
    omega
  · change 8 * 0 + (getRealNodeSize 1 + nodeHeadSize) < 2 ^ 64
    decide

theorem schemaCodec_roundTrip_two :
    Always (fun undefined => writeThenRead undefined (namedSchema 2))
        (fun result final => result = (.success, namedSchema 2, .success) ∧
          (∀ position, (namedSchema 2).bytes.length ≤ position →
            final.file[position]? = ([1, 2, 3] : List UInt8)[position]?) ∧
          final.pos = (namedSchema 2).bytes.length)
        (blankWorld [1, 2, 3]) ∧
      Always readThenWrite (fun _ final =>
        final.file = (namedSchema 2).bytes)
        (blankWorld (namedSchema 2).bytes) := by
  constructor
  · apply ((schemaCodec_roundTrip_iff (namedSchema 2) (blankWorld [1, 2, 3])).1
      (namedSchema_wellSized (by decide) (by decide))).mpr
    exact ⟨by decide, by decide, by decide⟩
  · apply ((schemaCodec_roundTrip_iff (namedSchema 2)
      (blankWorld (namedSchema 2).bytes)).2 (by decide +kernel)).mpr
    exact ⟨by decide +kernel, by decide +kernel, by decide +kernel⟩

/-- A name of 28 bytes is read into a block of seven. -/
theorem schemaCodec_not_roundTrip :
    ¬ ((∀ (schema : TreeSchema) (world : World), schema.WellSized →
      Always (fun undefined => writeThenRead undefined schema)
        (fun result final => result = (.success, schema, .success) ∧
          (∀ position, schema.bytes.length ≤ position →
            final.file[position]? = world.file[position]?) ∧
          final.pos = schema.bytes.length) world) ∧
    (∀ world : World, announcedLength world.file ≤ world.file.length →
      Always readThenWrite (fun _ final => final.file = world.file) world)) := by
  rintro ⟨always, -⟩
  have valid : (namedSchema 28).WellSized :=
    namedSchema_wellSized (by decide) (by decide)
  have inBlocks := (always_writeThenRead_iff valid).mp
    (always (namedSchema 28) (blankWorld []) valid)
  exact absurd (inBlocks.names 28 (by decide)) (by decide)

end TreeStore
