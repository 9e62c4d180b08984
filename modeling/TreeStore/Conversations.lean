import TreeStore.InsertCommand
import TreeStore.NumberLists
import TreeStore.ReceiveCommand

/-!
# Conversations with a store of numbers

The server of a store of up to thirty integers and booleans is asked for nodes
and told to insert nodes, in any order.  Each message is answered as a server
that keeps a list would answer it, and after each the file has the nodes of that
list; nothing is asked of the file but that there is room.
-/

namespace TreeStore

open ByteFile ProgramLogic LinkedRecords GuardedRuns Assignments

/-- The field words that an insertion stores, or the error that it reports. -/
def insertedFields (template : List NodeAttributeInfo)
    (settings : List KeyValuePair) : Except ErrCode (List Slot) :=
  match insertLoop (fun _ => 0) template 0 settings none
      (List.replicate template.length (numberSlot 0)) with
  | .error code => .error code
  | .ok fields =>
      if settings.length = template.length then .ok fields
      else .error .countError

/-- What a message that receives or inserts is answered. -/
def Query.reply (template : List NodeAttributeInfo) (list : List NodeView)
    (query : Query) : List UInt8 :=
  if query.command = 0 then receivedText template query.filtersList list
  else
    match insertedFields template query.settingsList with
    | .error code => insertAnswer code
    | .ok _ => insertAnswer .ok

/-- What such a message does to the list. -/
def Query.change (template : List NodeAttributeInfo) (list : List NodeView)
    (query : Query) : List NodeView :=
  if query.command = 0 then list
  else
    match insertedFields template query.settingsList with
    | .error _ => list
    | .ok fields => list ++
        [.new (template.map (·.type)) fields query.firstInt.toUInt64]

/-- The answers of a server that keeps a list. -/
def replies (template : List NodeAttributeInfo) :
    List NodeView → List Query → List (List UInt8)
  | _, [] => []
  | list, query :: queries =>
      query.reply template list ::
        replies template (query.change template list) queries

/-- The list after some messages. -/
def changed (template : List NodeAttributeInfo) (list : List NodeView)
    (queries : List Query) : List NodeView :=
  queries.foldl (Query.change template) list

theorem Query.change_length_le (template : List NodeAttributeInfo)
    (list : List NodeView) (query : Query) :
    (query.change template list).length ≤ list.length + 1 := by
  unfold Query.change
  split
  · exact Nat.le_succ _
  · split
    · exact Nat.le_succ _
    · rw [List.length_append, List.length_singleton]

/-- What a message may add to the file. -/
def messageSpace : Nat := 2 * (minNodeSize + nodeHeadSize)

/-- The message asks for nodes, or it inserts one and sets no field twice. -/
def Query.Understood (template : List NodeAttributeInfo) (query : Query) :
    Prop :=
  query.command = 0 ∧ Terminated query.filtersList ∧
    Answerable template query.filtersList ∨
  query.command = 2 ∧ (query.settingsList.map (·.keyText)).Nodup

/-- Up to thirty integers and booleans, with names that leave room for a number
in a line. -/
structure SmallNumbers (template : List NodeAttributeInfo) : Prop where
  few : template.length ≤ 30
  numbers : ∀ info ∈ template, info.type = INT ∨ info.type = BOOL
  short : ∀ info ∈ template, info.nameText.length ≤ 233

/-- The same key and the same numbers. -/
structure KeyValuePair.SameNumbers (first second : KeyValuePair) : Prop where
  key : textOf first.key = textOf second.key
  valueType : first.valueType = second.valueType
  valueInt : first.valueInt = second.valueInt
  valueReal : first.valueReal = second.valueReal

section Insertion

variable {template : List NodeAttributeInfo} {settings : List KeyValuePair}
  {address address' : Nat → UInt64}

theorem SmallNumbers.typed (small : SmallNumbers template) : Typed template := by
  intro info member
  rcases small.numbers info member with int | bool
  · rw [int]
    decide
  · rw [bool]

theorem SmallNumbers.no_string (small : SmallNumbers template) :
    STRING ∉ template.map (·.type) := by
  intro member
  obtain ⟨info, inside, string⟩ := List.mem_map.mp member
  rcases small.numbers info inside with int | bool
  · rw [int] at string
    exact absurd string (by decide)
  · rw [bool] at string
    exact absurd string (by decide)

/-- Strings and their addresses get into STRING fields alone. -/
theorem insertLoop_congr {first second : List KeyValuePair}
    (numbers : STRING ∉ template.map (·.type))
    (alike : List.Forall₂ KeyValuePair.SameNumbers first second) (sIdx : Nat)
    (pPos : Option Nat) (fields : List Slot) :
    insertLoop address template sIdx first pPos fields =
      insertLoop address' template sIdx second pPos fields := by
  induction alike generalizing sIdx pPos fields with
  | nil => rfl
  | @cons kv kv' first second same _ ih =>
      have named : findAttr kv.key template = findAttr kv'.key template := by
        unfold findAttr SameText
        rw [same.key]
      rw [insertLoop, insertLoop, named]
      cases (findAttr kv'.key template).or pPos with
      | none => rfl
      | some pPos =>
          have plain : (template.map (·.type))[pPos]? ≠ some STRING :=
            fun string => numbers (List.mem_of_getElem? string)
          have value : insertValue (address sIdx) kv
              (template.map (·.type))[pPos]? = insertValue (address' sIdx) kv'
                (template.map (·.type))[pPos]? := by
            unfold insertValue
            simp only [if_neg plain, same.valueType, same.valueInt,
              same.valueReal]
          dsimp only
          rw [value]
          simp only [ih]

/-- What the array holds at the beginning decides about no error. -/
theorem insertLoop_error {code : ErrCode} {sIdx : Nat} {pPos : Option Nat}
    {fields : List Slot} (fields' : List Slot)
    (refused : insertLoop address template sIdx settings pPos fields =
      .error code) :
    insertLoop address template sIdx settings pPos fields' = .error code := by
  induction settings generalizing sIdx pPos fields fields' with
  | nil => cases refused
  | cons kv settings ih =>
      rw [insertLoop] at refused ⊢
      cases found : (findAttr kv.key template).or pPos with
      | none =>
          rw [found] at refused
          exact refused
      | some pPos =>
          rw [found] at refused
          dsimp only at refused ⊢
          cases value : insertValue (address sIdx) kv
              (template.map (·.type))[pPos]? with
          | error code' =>
              rw [value] at refused
              exact refused
          | ok value' =>
              rw [value] at refused
              exact ih _ refused

/-- A loop that ends well has let all settings pass. -/
theorem passes_of_insertLoop (typed : Typed template) {sIdx : Nat}
    {fields out : List Slot}
    (ends : insertLoop address template sIdx settings none fields = .ok out) :
    ∀ kv ∈ settings, Passes template kv := by
  by_contra refused
  obtain ⟨code, failed, -⟩ :=
    @insertLoop_refused template settings address typed refused sIdx fields
  rw [ends] at failed
  cases failed

/-- Without strings, and with different keys, neither the addresses nor the
words that the array holds at the beginning matter. -/
theorem storageInsertNodeNew_run (small : SmallNumbers template)
    (distinct : (settings.map (·.keyText)).Nodup) (parent : UInt64)
    (world : World) :
    (storageInsertNodeNew address settings parent template).run world =
      match insertedFields template settings with
      | .error code => .ok (code, { world with blocks := world.blocks + 1 })
      | .ok fields =>
          (do
            let _ ← addNode fields parent
            return .ok : Prog ErrCode).run
              { world with blocks := world.blocks + 1 } := by
  have same : List.Forall₂ KeyValuePair.SameNumbers settings settings :=
    List.forall₂_same.mpr fun kv _ => ⟨rfl, rfl, rfl, rfl⟩
  rw [← storageInsertNodeNewWith_addNode, storageInsertNodeNewWith_run,
    @insertLoop_congr _ address (fun _ => 0) _ _ small.no_string same]
  unfold insertedFields
  have blankSized : (List.replicate template.length (numberSlot 0)).length =
      template.length := List.length_replicate
  generalize List.replicate template.length (numberSlot 0) = blank at *
  have sized := memorySlots_length world template.length
  generalize memorySlots world template.length = memory at sized ⊢
  cases ends : insertLoop (fun _ => 0) template 0 settings none memory with
  | error code =>
      rw [insertLoop_error blank ends]
  | ok fields =>
      have passes := passes_of_insertLoop small.typed ends
      obtain ⟨writes, assigned, loop⟩ :=
        insertLoop_passes (fun _ => 0) small.typed passes 0
      rw [loop] at ends ⊢
      cases ends
      dsimp only
      by_cases count : settings.length = template.length
      -- each field is set, so nothing is left of what the array held
      · rw [if_pos count, if_pos count, assign_memory_irrelevant
          ⟨count, passes⟩ distinct assigned sized blankSized]
      · rw [if_neg count, if_neg count]

end Insertion

theorem KeyNode.word_lt (record : KeyNode) (position : Nat) :
    record.word position < 2 ^ 64 := by
  apply lt_of_lt_of_le (leValue_lt _)
  rw [show (2 : Nat) ^ 64 = 256 ^ 8 by norm_num]
  apply Nat.pow_le_pow_right (by norm_num)
  rw [readAt_length]
  omega

/-- The ids that are found are those of nodes. -/
theorem mem_idsFound {template : List NodeAttributeInfo} {filt : List Filter}
    {list : List NodeView} {id : Nat} (found : id ∈ idsFound template filt list) :
    id < list.length := by
  have taken {test : NodeView → Bool} {count : Nat}
      (inside : id ∈ idsWhere test (list.take count)) : id < list.length := by
    obtain ⟨node, here, -⟩ := mem_idsWhere.mp inside
    have counted := (List.getElem?_eq_some_iff.mp here).1
    rw [List.length_take] at counted
    omega
  unfold idsFound at found
  split at found
  · split_ifs at found
    · obtain ⟨node, here, -⟩ := mem_idsWhere.mp found
      exact (List.getElem?_eq_some_iff.mp here).1
    · exact taken found
  · exact taken found

section Sizes

variable {img : Image} {nodes : List NodeImage} {file : List UInt8}
  {types : List Nat} {list : List NodeView} {template : List NodeAttributeInfo}

/-- Without strings a node is a number of words. -/
theorem StoreAt.word_of_mem {node : NodeImage} {field : FieldValue}
    (store : StoreAt img nodes file) (numbers : STRING ∉ img.types)
    (member : node ∈ nodes) (inside : field ∈ (node.view img.realSize).fields) :
    ∃ word, field = .word word ∧ word < 2 ^ 64 := by
  obtain ⟨id, found⟩ := List.getElem?_of_mem member
  obtain ⟨position, here⟩ := List.getElem?_of_mem inside
  obtain ⟨record, known, tupleAt⟩ := (store.layout.nodeAt id node found).tuple
  have counted := (List.getElem?_eq_some_iff.mp here).1
  rw [NodeImage.view, NodeImage.values, List.length_map,
    (store.layout.nodeAt id node found).fieldsAt.count] at counted
  rcases store.field_cases found tupleAt (List.getElem?_eq_getElem counted) with
    ⟨-, shown⟩ | ⟨string, -⟩
  · rw [here] at shown
    exact ⟨_, Option.some.inj shown, record.word_lt position⟩
  · exact absurd (string ▸ List.getElem_mem counted) numbers

/-- Without strings each node takes one slot. -/
theorem StoreAt.top_eq (store : StoreAt img nodes file)
    (numbers : STRING ∉ img.types) : img.top = img.reserved + img.curId := by
  have slots : nodes.flatMap NodeImage.slots = nodes.map (·.slot) := by
    rw [← List.flatMap_pure_eq_map]
    apply List.flatMap_congr
    intro node member
    obtain ⟨id, found⟩ := List.getElem?_of_mem member
    rw [NodeImage.slots, store.chainSlots_eq (not_string numbers) found]
    rfl
  have nodup := store.layout.nodup
  have covers := store.layout.covers
  rw [slots] at nodup covers
  have perm : (nodes.map (·.slot)).Perm
      (List.range' img.reserved (img.top - img.reserved)) := by
    apply (List.perm_ext_iff_of_nodup nodup List.nodup_range').mpr
    intro slot
    rw [covers, List.mem_range'_1]
    omega
  have count := perm.length_eq
  rw [List.length_map, store.count, List.length_range'] at count
  have capacity := store.holds.capacity_le
  -- without nodes, the slots are those that the id array takes
  have started : img.curId = 0 → img.capacity = img.reserved := by
    intro none
    rw [Image.capacity, Image.reserved, none, idRecords_zero, idRecords_one]
  omega

/-- The number of slots of a store with so many nodes. -/
def slotCount (attributes count : Nat) : Nat :=
  idRecords attributes (count + 1) + count

theorem slotCount_mono (attributes : Nat) {count count' : Nat}
    (le : count ≤ count') :
    slotCount attributes count ≤ slotCount attributes count' := by
  have records : count / idUnit attributes ≤ count' / idUnit attributes :=
    Nat.div_le_div_right le
  unfold slotCount
  rw [idRecords_succ, idRecords_succ]
  omega

theorem slotCount_succ (attributes count : Nat) :
    slotCount attributes (count + 1) ≤ slotCount attributes count + 2 := by
  have unit := idUnit_ge attributes
  have step : (count + 1) / idUnit attributes ≤
      (count + idUnit attributes) / idUnit attributes :=
    Nat.div_le_div_right (by omega)
  rw [Nat.add_div_right _ (by omega)] at step
  unfold slotCount
  rw [idRecords_succ, idRecords_succ]
  omega

/-- The file has these attributes and mirrors the list. -/
def KeepsList (template : List NodeAttributeInfo) (file : List UInt8)
    (list : List NodeView) : Prop :=
  Mirrors (template.map (·.type)) file list ∧
    ∃ schema, SchemaAt file schema ∧ schema.nodesTemplate = template

/-- The length of a file of numbers follows from that of the list. -/
theorem KeepsList.length_eq (keeps : KeepsList template file list)
    (small : SmallNumbers template) :
    file.length = metaSize + (templateBytes template).length +
      (minNodeSize + nodeHeadSize) *
        slotCount template.length list.length := by
  obtain ⟨⟨img, nodes, store, -, types, rfl⟩, schema, stored, rfl⟩ := keeps
  obtain rfl := store.schema_eq stored
  have top := store.top_eq small.no_string
  have size : img.templateSize = img.schema.nodesTemplate.length :=
    store.holds.valid.template_length.symm
  rw [store.holds.length_eq, top, Image.slotOffset, Image.recordSize,
    Image.realSize, Image.reserved, size, getRealNodeSize_small small.few,
    List.length_map, store.count]
  rfl

/-- With one node more a file takes at most two records more. -/
theorem KeepsList.length_le {file' : List UInt8} {list' : List NodeView}
    (keeps : KeepsList template file list) (small : SmallNumbers template)
    (keeps' : KeepsList template file' list')
    (more : list'.length ≤ list.length + 1) :
    file'.length ≤ file.length + messageSpace := by
  rw [keeps.length_eq small, keeps'.length_eq small, messageSpace]
  have step : slotCount template.length list'.length ≤
      slotCount template.length list.length + 2 :=
    (slotCount_mono _ more).trans (slotCount_succ _ _)
  have records := Nat.mul_le_mul_left (minNodeSize + nodeHeadSize) step
  rw [Nat.mul_add] at records
  omega

/-- The fields of the list are words. -/
theorem KeepsList.word_of_mem {node : NodeView} {field : FieldValue}
    (keeps : KeepsList template file list) (small : SmallNumbers template)
    (member : node ∈ list) (inside : field ∈ node.fields) :
    ∃ word, field = .word word ∧ word < 2 ^ 64 := by
  obtain ⟨⟨img, nodes, store, -, types, rfl⟩, -⟩ := keeps
  obtain ⟨image, stored, rfl⟩ := List.mem_map.mp member
  exact store.word_of_mem (types ▸ small.no_string) stored inside

theorem KeepsList.ended (keeps : KeepsList template file list)
    (small : SmallNumbers template) : Ended list := by
  intro node member field inside
  obtain ⟨word, rfl, -⟩ := keeps.word_of_mem small member inside
  trivial

theorem mem_fieldLines {fields : List FieldValue} {line : List UInt8}
    (member : line ∈ fieldLines template fields) :
    ∃ info ∈ template, ∃ field ∈ fields, ∃ text,
      field.shown info.type = some text ∧
        line = fieldLine info.attributeName text := by
  induction template generalizing fields with
  | nil => cases member
  | cons info template ih =>
      cases fields with
      | nil => cases member
      | cons field fields =>
          rw [fieldLines, List.mem_append, Option.mem_toList] at member
          rcases member with here | later
          · obtain ⟨text, shown, rfl⟩ := Option.map_eq_some_iff.mp here
            exact ⟨info, List.mem_cons_self .., field, List.mem_cons_self ..,
              text, shown, rfl⟩
          · obtain ⟨info', known, field', inside, shown⟩ := ih later
            exact ⟨info', List.mem_cons_of_mem _ known, field',
              List.mem_cons_of_mem _ inside, shown⟩

/-- Every line of a store of small numbers fits. -/
theorem KeepsList.fits {filt : List Filter} {line : List UInt8}
    (keeps : KeepsList template file list) (small : SmallNumbers template)
    (room : file.length < 2 ^ 63)
    (member : line ∈ receivedLines template filt list) : line.length < 256 := by
  obtain ⟨id, found, inside⟩ := List.mem_flatMap.mp member
  have counted := mem_idsFound found
  rw [nodeLines, List.getElem?_eq_getElem counted, Option.map_some,
    Option.getD_some, List.mem_cons] at inside
  rcases inside with rfl | field
  · have length := keeps.length_eq small
    have first : (chars "<---- Node ").length = 11 := rfl
    have last : (chars "---->\n").length = 6 := rfl
    have digits : (decimalText id).length ≤ 20 := by
      apply decimalText_length_le
      have slots : list.length ≤ slotCount template.length list.length :=
        Nat.le_add_left _ _
      have records : slotCount template.length list.length ≤
          (minNodeSize + nodeHeadSize) *
            slotCount template.length list.length :=
        Nat.le_mul_of_pos_left _ (by decide)
      omega
    rw [titleLine, List.length_append, List.length_append, rightText_length,
      first, last]
    omega
  · obtain ⟨info, known, value, there, text, shown, rfl⟩ := mem_fieldLines field
    obtain ⟨word, rfl, bounded⟩ :=
      keeps.word_of_mem small (List.getElem_mem counted) there
    rw [FieldValue.shown, if_pos (small.numbers info known),
      Option.some_inj] at shown
    have digits := decimalText_length_le bounded
    have short : (textOf info.attributeName).length ≤ 233 :=
      small.short info known
    rw [shown] at digits
    apply fieldLine_fits.mpr
    omega

end Sizes

theorem Mirrors.types_eq {types : List Nat} {file : List UInt8}
    {list : List NodeView} {schema : TreeSchema}
    (mirrors : Mirrors types file list) (stored : SchemaAt file schema) :
    schema.types = types := by
  obtain ⟨img, nodes, store, -, rfl, -⟩ := mirrors
  obtain rfl := store.schema_eq stored
  rfl

theorem KeepsList.of_ran {specs : List AttributeSpec} {calls : List Op}
    {file : List UInt8} {schema : TreeSchema}
    (ran : Ran specs Faithful calls file) (stored : SchemaAt file schema) :
    schema.types = specs.map (·.type) ∧ KeepsList schema.nodesTemplate file
      (listAfter (specs.map (·.type)) calls) := by
  have mirrors := mirrors_of_ran ran
  have types := mirrors.types_eq stored
  refine ⟨types, ?_, schema, stored, rfl⟩
  rw [← types] at mirrors ⊢
  exact mirrors

section Steps

variable {template : List NodeAttributeInfo} {list : List NodeView}
  {world : World} {overflow : Prog Unit} {address : Nat → UInt64}
  {fuel stack : Nat} {query : Query}

theorem insertAnswer_fits (code : ErrCode) : (insertAnswer code).length < 256 := by
  cases code <;> decide

theorem insertedFields_length {settings : List KeyValuePair}
    {fields : List Slot} (typed : Typed template)
    (inserted : insertedFields template settings = .ok fields) :
    fields.length = template.length := by
  unfold insertedFields at inserted
  cases ends : insertLoop (fun _ => 0) template 0 settings none
      (List.replicate template.length (numberSlot 0)) with
  | error code =>
      rw [ends] at inserted
      cases inserted
  | ok out =>
      obtain ⟨writes, -, loop⟩ := insertLoop_passes (fun _ => 0) typed
        (passes_of_insertLoop typed ends) 0
      rw [loop] at ends inserted
      cases ends
      dsimp only at inserted
      split_ifs at inserted
      cases inserted
      rw [assign_length, List.length_replicate]

/-- A new node is one more in the list. -/
theorem KeepsList.wp_addNode {fields : List Slot} {parent : UInt64}
    (keeps : KeepsList template world.file list) (small : SmallNumbers template)
    (complete : template.length ≤ fields.length)
    (room : Roomy (.add fields parent) world.file) :
    wp (addNode fields parent) (fun _ final =>
      KeepsList template final.file
        (list ++ [.new (template.map (·.type)) fields parent])) world := by
  obtain ⟨mirrors, schema, stored, rfl⟩ := keeps
  have faithful : Faithful (.add fields parent) world.file := by
    apply mirrors.faithful small.no_string _ _ room
    · rw [List.length_map]
      exact small.few
    · unfold Op.Allowed
      rwa [List.length_map]
  obtain ⟨schema', stored', fits, lossless⟩ := faithful
  obtain rfl := stored.unique stored'
  have same : wp (addNode fields parent) (fun _ final => ∃ after,
      SchemaAt final.file after ∧
        after.nodesTemplate = schema.nodesTemplate) world := by
    obtain ⟨img, nodes, store, -⟩ := mirrors
    obtain rfl := store.schema_eq stored
    apply wp_mono (store.add fits)
    rintro status final ⟨-, node, target, root, top, recs, -, -, store'⟩
    exact ⟨_, store'.schemaAt, rfl⟩
  apply wp_mono (wp_and (mirrors.add stored fits lossless) same)
  rintro status final ⟨⟨-, mirrors'⟩, template⟩
  exact ⟨mirrors', template⟩

/-- A message is answered as by a server that keeps the list. -/
theorem KeepsList.wp_handleQuery (keeps : KeepsList template world.file list)
    (small : SmallNumbers template) (understood : query.Understood template)
    (room : world.file.length + messageSpace < 2 ^ 63)
    (enough : world.file.length ≤ fuel) :
    wp (handleQuery overflow address fuel stack query) (fun text final =>
      text = query.reply template list ∧
        KeepsList template final.file (query.change template list)) world := by
  obtain ⟨mirrors, schema, stored, rfl⟩ := id keeps
  rcases understood with ⟨receives, terminated, answerable⟩ | ⟨inserts, once⟩
  · unfold Query.reply Query.change
    rw [if_pos receives, if_pos receives]
    have received := @Mirrors.wp_receive _ _ _ fuel schema overflow address stack
      query mirrors stored (keeps.ended small) enough receives terminated
      answerable fun line member => keeps.fits small (by omega) member
    apply wp_mono received
    rintro text final ⟨same, rfl⟩
    exact ⟨rfl, same ▸ keeps⟩
  · unfold Query.reply Query.change
    rw [if_neg (by rw [inserts]; decide), if_neg (by rw [inserts]; decide)]
    rw [handleQuery, wp_bind]
    apply stored.wp_readTreeSchema
    intro blocks
    dsimp only
    rw [if_neg (by rw [inserts]; decide), if_neg (by rw [inserts]; decide),
      if_pos inserts]
    generalize blocksEq : { world with
      pos := schema.arrayEnd, blocks := blocks } = before
    have file : before.file = world.file := by rw [← blocksEq]
    have runs := @storageInsertNodeNew_run _ _ address small once
      query.firstInt.toUInt64 before
    cases inserted : insertedFields schema.nodesTemplate query.settingsList with
    | error code =>
        rw [inserted] at runs
        rw [wp_bind]
        refine ⟨_, _, runs, ?_⟩
        dsimp only
        rw [sprintf, requires, if_pos (insertAnswer_fits code), pure_bind,
          wp_pure]
        exact ⟨rfl, by rw [file]; exact keeps⟩
    | ok fields =>
        have complete := insertedFields_length small.typed inserted
        obtain ⟨status, final, added, keeps'⟩ := @KeepsList.wp_addNode
          schema.nodesTemplate list { before with blocks := before.blocks + 1 }
          fields query.firstInt.toUInt64 (by rw [file]; exact keeps) small
          complete.ge (by rw [file]; exact room)
        rw [inserted] at runs
        dsimp only at runs
        rw [run_bind_of added] at runs
        rw [wp_bind]
        refine ⟨_, _, runs, ?_⟩
        dsimp only
        rw [sprintf, requires, if_pos (insertAnswer_fits .ok), pure_bind,
          wp_pure]
        exact ⟨rfl, keeps'⟩

/-- So are all messages of a conversation. -/
theorem KeepsList.wp_conversation {queries : List Query}
    (keeps : KeepsList template world.file list) (small : SmallNumbers template)
    (understood : ∀ query ∈ queries, query.Understood template)
    (room : world.file.length + messageSpace * (queries.length + 1) < 2 ^ 63)
    (enough : world.file.length + messageSpace * queries.length ≤ fuel) :
    wp (queries.mapM (handleQuery overflow address fuel stack))
      (fun texts final => texts = replies template list queries ∧
        KeepsList template final.file (changed template list queries))
      world := by
  induction queries generalizing world list with
  | nil =>
      rw [List.mapM_nil, wp_pure]
      exact ⟨rfl, keeps⟩
  | cons query queries ih =>
      simp only [List.length_cons, Nat.mul_succ] at room enough
      rw [List.mapM_cons]
      apply wp_bind_of (keeps.wp_handleQuery small
        (understood query (List.mem_cons_self ..)) (by omega) (by omega))
      rintro text middle ⟨rfl, keeps'⟩
      have grown := keeps.length_le small keeps' (query.change_length_le template list)
      apply wp_bind_of (ih keeps'
        (fun other member => understood other (List.mem_cons_of_mem _ member))
        (by rw [Nat.mul_succ]; omega) (by omega))
      rintro texts final ⟨rfl, keeps''⟩
      rw [wp_pure]
      exact ⟨rfl, keeps''⟩

end Steps

/-- After every run of faithful calls on a store of small numbers, the messages
of a conversation are answered, one after the other, as by a server that keeps
the list, and the file shows the nodes of its list. -/
theorem conversation_refines {specs : List AttributeSpec} {calls : List Op}
    {world : World} {schema : TreeSchema} {overflow : Prog Unit}
    {address : Nat → UInt64} {fuel stack : Nat} {queries : List Query}
    (ran : Ran specs Faithful calls world.file)
    (stored : SchemaAt world.file schema)
    (small : SmallNumbers schema.nodesTemplate)
    (understood : ∀ query ∈ queries, query.Understood schema.nodesTemplate)
    (room : world.file.length + messageSpace * (queries.length + 1) < 2 ^ 63)
    (enough : world.file.length + messageSpace * queries.length ≤ fuel) :
    wp (queries.mapM (handleQuery overflow address fuel stack))
      (fun texts final =>
        texts = replies schema.nodesTemplate
          (listAfter (specs.map (·.type)) calls) queries ∧
        Represents (specs.map (·.type)) final.file (changed schema.nodesTemplate
          (listAfter (specs.map (·.type)) calls) queries)) world := by
  obtain ⟨types, keeps⟩ := KeepsList.of_ran ran stored
  generalize listAfter (specs.map (·.type)) calls = list at keeps ⊢
  rw [← types]
  apply wp_mono (keeps.wp_conversation small understood room enough)
  rintro texts final ⟨rfl, keeps'⟩
  exact ⟨rfl, keeps'.1.represents⟩

/-- The message that `parent: 7, set: {n: 9}` is inserted by. -/
def insertNine : Query :=
  { childrenOfSeven with
    command := 2
    settingsList := [⟨[110, 0], 1, 9, 0, [0]⟩]
    settingsList_le := by decide }

/-- The second node is a child of 7 as well, but the scan of the filters goes no
further than there are attributes. -/
theorem conversation_refines_nine :
    wp ([insertNine, receiveSeven, childrenOfSeven].mapM
      (handleQuery (throw .outOfBounds) (fun _ => 0) 10000 0))
      (fun texts final =>
        texts = [chars "Added successfully\n",
          chars ("<---- Receive Result ---->\n<---- Node   0---->\n" ++
            "n                    7\n"),
          chars ("<---- Receive Result ---->\n<---- Node   1---->\n" ++
            "n                    9\n<---- Node   0---->\n" ++
            "n                    7\n")] ∧
        Represents [INT] final.file [⟨7, [.word 7]⟩, ⟨7, [.word 9]⟩])
      (blankWorld oneSeven) := by
  obtain ⟨-, stored, -, -, template⟩ := oneSeven_stored
  have ran := ran_seven
  have short : oneSeven.length ≤ 1000 := by decide +kernel
  generalize oneSeven = file at ran stored template short ⊢
  have conversed := @conversation_refines [singleSpec INT number_lt]
    [.add [⟨7, []⟩] 7] (blankWorld file) (schemaOf file) (throw .outOfBounds)
    (fun _ => 0) 10000 0 [insertNine, receiveSeven, childrenOfSeven] ran stored
  rw [template] at conversed
  have space : messageSpace = 544 := rfl
  apply wp_mono (conversed ⟨by decide, by decide, by decide⟩ _ _ _)
  · rintro texts final ⟨rfl, shows⟩
    refine ⟨by decide +kernel, ?_⟩
    have nodes : changed
        [{ size := 4, type := INT, attributeName := [110, 0, 0, 0] }]
        [⟨7, [.word 7]⟩] [insertNine, receiveSeven, childrenOfSeven] =
          [⟨7, [.word 7]⟩, ⟨7, [.word 9]⟩] := by decide +kernel
    rw [← nodes]
    exact shows
  · intro query member
    rcases List.mem_cons.mp member with rfl | member
    · exact Or.inr ⟨rfl, by decide⟩
    rcases List.mem_cons.mp member with rfl | member
    · exact Or.inl ⟨rfl, terminated_always, answerable_receiveSeven⟩
    obtain rfl := List.mem_singleton.mp member
    refine Or.inl ⟨rfl, ?_, Or.inl ⟨_, _, rfl, by decide⟩⟩
    intro filter inside comparator there
    obtain rfl := List.mem_singleton.mp inside
    obtain rfl := List.mem_singleton.mp there
    exact List.mem_singleton_self _
  · change file.length + messageSpace * 4 < 2 ^ 63
    omega
  · change file.length + messageSpace * 3 ≤ 10000
    omega

end TreeStore
